import Scriptlet.Proofs.Rounding

/-!
# The nearest double

`NearestDouble n x` says that no double is nearer to the natural number `n` than `x`, that of two equally near ones
it is the one with the even mantissa, and that it is infinity from half way beyond the largest double on. What a
number rounds to is its nearest double, since there is no other double within the gaps around one (`Canonical.apart`);
and every number of up to 57 bits rounds to one.
-/

namespace Scriptlet.Number

open Float.Model UnpackedFloat

variable {m m' n : Nat} {e e' E : Int} {p q : ℚ} {x y : Float}

/-- The numbers from here on are rounded to infinity: half way between the largest double and the power of two
above it. -/
def overflow : ℚ := (2 ^ 53 - 1 / 2) * 2 ^ (971 : Int)

/-- The double nearest to a natural number: no double is nearer, of two that are equally near it is the one with the
even mantissa, and beyond the range of doubles it is infinity. -/
inductive NearestDouble (n : Nat) : Float → Prop where
  | zero : n = 0 → NearestDouble n 0.0
  | finite {x : Float} {m : Nat} {e : Int} {hm : 0 < m} : x.toModel.unpack = .finite .positive m e hm → n < overflow →
      (∀ y p, value? y = some p → |(m : ℚ) * 2 ^ e - n| ≤ |p - n|) →
      (∀ y p, value? y = some p → p ≠ m * 2 ^ e → |(m : ℚ) * 2 ^ e - n| = |p - n| → m % 2 = 0) → NearestDouble n x
  | infinity : overflow ≤ n → NearestDouble n (1.0 / 0.0)

/-- Above a double there is no other for as long as its last bit is worth. -/
theorem Canonical.succ_le (h : Canonical m e) (h' : Canonical m' e') (hlt : (m : ℚ) * 2 ^ e < m' * 2 ^ e') :
    ((m : ℚ) + 1) * 2 ^ e ≤ m' * 2 ^ e' := by
  rcases lt_trichotomy e e' with he | rfl | he
  · have hm : (m : ℚ) + 1 ≤ 2 ^ 53 := by exact_mod_cast h.lt
    have hm' : (2 : ℚ) ^ 52 ≤ m' := by exact_mod_cast h'.normal (h.least_le.trans_lt he)
    calc ((m : ℚ) + 1) * 2 ^ e ≤ 2 ^ 53 * 2 ^ e := by gcongr
      _ = 2 ^ 52 * 2 ^ (e + 1) := by rw [zpow_add_one₀ two_ne_zero]; ring
      _ ≤ 2 ^ 52 * 2 ^ e' :=
        mul_le_mul_of_nonneg_left (zpow_le_zpow_right₀ one_le_two (Int.add_one_le_iff.2 he)) (by positivity)
      _ ≤ m' * 2 ^ e' := by gcongr
  · have hpos : (0 : ℚ) < 2 ^ e := by positivity
    have hm : m < m' := by exact_mod_cast lt_of_mul_lt_mul_right hlt hpos.le
    have hm : (m : ℚ) + 1 ≤ m' := by exact_mod_cast hm
    gcongr
  · exact absurd (h'.lt_of_exponent_lt h he) (not_lt.2 hlt.le)

/-- Below a double there is no other for as long as the gap is wide. -/
theorem Canonical.le_pred (h : Canonical m e) (h' : Canonical m' e') (hlt : (m' : ℚ) * 2 ^ e' < m * 2 ^ e) :
    (m' : ℚ) * 2 ^ e' ≤ (m - 2 * halfGap m e) * 2 ^ e := by
  have hpos : (0 : ℚ) < 2 ^ e := by positivity
  rcases lt_trichotomy e' e with he | rfl | he
  · have hm' : (m' : ℚ) + 1 ≤ 2 ^ 53 := by exact_mod_cast h'.lt
    have hgap : (2 : ℚ) ^ 52 - 1 / 2 ≤ m - 2 * halfGap m e := by
      have hnormal := h.normal (h'.least_le.trans_lt he)
      unfold halfGap
      split_ifs with hpow
      · rw [hpow.1]
        norm_num
      · have hne : m ≠ 2 ^ 52 := fun hm => hpow ⟨hm, h'.least_le.trans_lt he⟩
        have hm : (2 : ℚ) ^ 52 + 1 ≤ m := by exact_mod_cast lt_of_le_of_ne hnormal hne.symm
        linarith
    -- the largest mantissa, at the next smaller exponent
    calc (m' : ℚ) * 2 ^ e' ≤ (2 ^ 53 - 1) * 2 ^ (e - 1) := by
          have hexp : (2 : ℚ) ^ e' ≤ 2 ^ (e - 1) := zpow_le_zpow_right₀ one_le_two (by omega)
          gcongr
          linarith
      _ = (2 ^ 52 - 1 / 2) * 2 ^ e := by rw [zpow_sub_one₀ two_ne_zero]; ring
      _ ≤ (m - 2 * halfGap m e) * 2 ^ e := by gcongr
  · have hgap := halfGap_le (m := m) (e := e')
    have hm : m' < m := by exact_mod_cast lt_of_mul_lt_mul_right hlt hpos.le
    have hm : (m' : ℚ) + 1 ≤ m := by exact_mod_cast hm
    gcongr
    linarith
  · exact absurd (h.lt_of_exponent_lt h' he) (not_lt.2 hlt.le)

/-- A double, and how far the others are from it. -/
theorem Canonical.apart (h : Canonical m e) (hy : value? y = some p) :
    p = m * 2 ^ e ∨ (m + 1) * 2 ^ e ≤ p ∨ p ≤ (m - 2 * halfGap m e) * 2 ^ e := by
  have hpos : (0 : ℚ) < 2 ^ e := by positivity
  have hnonneg : 0 ≤ ((m : ℚ) - 2 * halfGap m e) * 2 ^ e := by
    have hgap := halfGap_le (m := m) (e := e)
    have hm : (1 : ℚ) ≤ m := by exact_mod_cast h.pos
    exact mul_nonneg (by linarith) hpos.le
  have hdenotes := denotes_of_value? hy
  generalize y.toModel.unpack = u at hdenotes
  cases hdenotes with
  | zero => exact .inr (.inr hnonneg)
  | positive h' =>
    rcases lt_trichotomy _ ((m : ℚ) * 2 ^ e) with hlt | heq | hlt
    · exact .inr (.inr (h.le_pred h' hlt))
    · exact .inl heq
    · exact .inr (.inl (h.succ_le h' hlt))
  | negative h' => exact .inr (.inr ((neg_lt_zero.2 h'.pos_rational).le.trans hnonneg))

theorem halfGap_pos (m : Nat) (e : Int) : 0 < halfGap m e * 2 ^ e :=
  mul_pos (by linarith [quarter_le_halfGap (m := m) (e := e)]) (by positivity)

/-- What a number rounds to is the nearest double of all. -/
theorem Rounds.near (hc : Canonical m e) (hr : Rounds q m e) (hy : value? y = some p) :
    |(m : ℚ) * 2 ^ e - q| ≤ |p - q| := by
  have hpos : (0 : ℚ) < 2 ^ e := by positivity
  have hgap := halfGap_pos m e
  have hlow := hr.low
  have hhigh := hr.high
  rcases hc.apart hy with rfl | hp | hp
  · exact le_rfl
  · exact (abs_le.2 ⟨by linarith, by linarith⟩).trans (le_abs_self (p - q))
  · exact (abs_le.2 ⟨by linarith, by linarith⟩).trans (neg_le_abs (p - q))

/-- It is nearer than all others if its mantissa is odd. -/
theorem Rounds.nearer (hc : Canonical m e) (hr : Rounds q m e) (hodd : m % 2 = 1) (hy : value? y = some p)
    (hne : p ≠ m * 2 ^ e) : |(m : ℚ) * 2 ^ e - q| < |p - q| := by
  have hpos : (0 : ℚ) < 2 ^ e := by positivity
  have hgap := halfGap_pos m e
  obtain ⟨hlow, hhigh⟩ := hr.inside hodd
  rcases hc.apart hy with rfl | hp | hp
  · exact absurd rfl hne
  · exact (abs_lt.2 ⟨by linarith, by linarith⟩).trans_le (le_abs_self (p - q))
  · exact (abs_lt.2 ⟨by linarith, by linarith⟩).trans_le (neg_le_abs (p - q))

theorem Rounds.lt_overflow (hc : Canonical m e) (hr : Rounds q m e) : q < overflow := by
  have hpos : (0 : ℚ) < 2 ^ e := by positivity
  have hmost : (2 ^ 53 - 1 / 2) * (2 : ℚ) ^ e ≤ overflow :=
    mul_le_mul_of_nonneg_left (zpow_le_zpow_right₀ one_le_two hc.le_most) (by norm_num)
  refine lt_of_lt_of_le ?_ hmost
  by_cases hm : m = 2 ^ 53 - 1
  · -- the largest mantissa is odd
    calc q < (m + 1 / 2) * 2 ^ e := (hr.inside (by omega)).2
      _ = (2 ^ 53 - 1 / 2) * 2 ^ e := by rw [hm]; norm_num
  · have hlt := hc.lt
    have hm : (m : ℚ) + 2 ≤ 2 ^ 53 := by exact_mod_cast (by omega : m + 2 ≤ 2 ^ 53)
    calc q ≤ (m + 1 / 2) * 2 ^ e := hr.high
      _ < (2 ^ 53 - 1 / 2) * 2 ^ e := by gcongr; linarith

theorem NearestDouble.of_rounds {hm : 0 < m} (hx : x.toModel.unpack = .finite .positive m e hm) (hr : Rounds n m e) :
    NearestDouble n x := by
  have hc := canonical_of_unpack hx
  refine .finite hx (hr.lt_overflow hc) (fun y p hy => hr.near hc hy) fun y p hy hne htie => ?_
  by_contra hodd
  exact (hr.nearer hc (Nat.mod_two_ne_zero.1 hodd) hy hne).ne htie

/-! ### Rounding of naturals -/

/-- The nearest integer at the exponent of a number is the mantissa of the nearest double, or one bit too long. -/
theorem Nearest.exists_rounds (h : Nearest (q / 2 ^ E) n) (hlow : 2 ^ 52 * 2 ^ E ≤ q) (hhigh : q < 2 ^ 53 * 2 ^ E)
    (hleast : -1074 < E) (hmost : E < 971) : ∃ m e, Canonical m e ∧ Rounds q m e ∧ E ≤ e := by
  have hpos : (0 : ℚ) < 2 ^ E := by positivity
  have hn := (le_div_iff₀ hpos).1 h.low
  have hn' := (div_le_iff₀ hpos).1 h.high
  have hge : 2 ^ 52 ≤ n := by
    have : (2 : ℚ) ^ 52 ≤ n + 1 / 2 := le_of_mul_le_mul_right (hlow.trans hn') hpos
    have : (2 : ℚ) ^ 52 < (n + 1 : Nat) := by push_cast; linarith
    exact Nat.lt_succ_iff.1 (by exact_mod_cast this)
  have hle : n ≤ 2 ^ 53 := by
    have : (n : ℚ) - 1 / 2 < 2 ^ 53 := lt_of_mul_lt_mul_right (hn.trans_lt hhigh) hpos.le
    have : (n : ℚ) < (2 ^ 53 + 1 : Nat) := by push_cast; linarith
    exact Nat.lt_succ_iff.1 (by exact_mod_cast this)
  rcases hle.lt_or_eq with hlt | rfl
  · refine ⟨n, E, ⟨by omega, hlt, hleast.le, hmost.le, fun _ => hge⟩, ⟨?_, hn', fun hodd => ⟨?_, ?_⟩⟩, le_rfl⟩
    · by_cases hpow : n = 2 ^ 52
      · refine le_trans ?_ hlow
        rw [hpow]
        push_cast
        gcongr
        linarith [quarter_le_halfGap (m := 2 ^ 52) (e := E)]
      · rwa [halfGap, if_neg fun h => hpow h.1]
    · rw [halfGap, if_neg (by rintro ⟨rfl, -⟩; omega)]
      exact (lt_div_iff₀ hpos).1 (h.inside hodd).1
    · exact (div_lt_iff₀ hpos).1 (h.inside hodd).2
  · have htwo : (2 : ℚ) ^ (E + 1) = 2 * 2 ^ E := by rw [zpow_add_one₀ two_ne_zero]; ring
    refine ⟨2 ^ 52, E + 1, ⟨by norm_num, by norm_num, by omega, by omega, fun _ => le_rfl⟩,
      ⟨?_, ?_, fun hodd => absurd hodd (by norm_num)⟩, by omega⟩
    · rw [halfGap, if_pos ⟨rfl, by omega⟩, htwo]
      push_cast at hn ⊢
      linarith
    · rw [htwo]
      push_cast
      linarith

/-- A natural number that has 53 bits or more rounds to a double that is no smaller by more than the bits that it
has too many. -/
theorem exists_rounds_of_le (hge : 2 ^ 53 ≤ n) (hlt : n < 2 ^ 57) : ∃ m e, Canonical m e ∧ Rounds n m e ∧ 1 ≤ e := by
  have hn : n ≠ 0 := by omega
  have hlog : 53 ≤ n.log2 := (Nat.le_log2 hn).2 hge
  have hlog' : n.log2 < 57 := (Nat.log2_lt hn).2 hlt
  obtain ⟨k, hk⟩ : ∃ k, n.log2 = 52 + k := ⟨n.log2 - 52, by omega⟩
  obtain ⟨hlow, hhigh⟩ := (Nat.log2_eq_iff hn).1 hk
  have hdesc : Describes n 0 .exact (n : ℚ) := .of_exact (by rw [zpow_zero, mul_one])
  obtain ⟨em, -, hst⟩ := hdesc.shiftToExponent (t := k) (by omega)
  obtain ⟨m, e, hc, hr, he⟩ := hst.nearest.exists_rounds
    (by rw [zpow_natCast, ← pow_add]; exact_mod_cast hlow)
    (by rw [zpow_natCast, ← pow_add, show 53 + k = 52 + k + 1 by omega]; exact_mod_cast hhigh) (by omega) (by omega)
  exact ⟨m, e, hc, hr, by omega⟩

theorem exists_rounds (hn : n ≠ 0) (hlt : n < 2 ^ 57) : ∃ m e, Canonical m e ∧ Rounds n m e := by
  by_cases hsmall : n < 2 ^ 53
  · obtain ⟨m, e, hc, hm⟩ := exists_canonical hn hsmall
    exact ⟨m, e, hc, hm ▸ rounds_self m e⟩
  · obtain ⟨m, e, hc, hr, -⟩ := exists_rounds_of_le (not_lt.1 hsmall) hlt
    exact ⟨m, e, hc, hr⟩

end Scriptlet.Number
