import Scriptlet.Proofs.Doubles

/-!
# Rounding to the nearest double

`Rounds q m e` says that `m · 2 ^ e` is the double nearest to the rational number `q`; of two that are
equally near it is the one with the even mantissa. Rounding keeps a mantissa with a round bit and a sticky
bit, which tell where the number lies above the mantissa (`Stands`), shifts it to the exponent of the result,
and rounds it there. The main result is that the double that `q` rounds to comes out, from any mantissa and
exponent of `q` that have enough bits.
-/

namespace Scriptlet.Number

open Float.Model UnpackedFloat

variable {m n N : Nat} {e E t k : Int} {s : Sign} {q r : ℚ} {em : ExtendedMantissa} {acc : Accuracy}
  {x : Float}

/-! ### The nearest integer -/

/-- The integer nearest to `r`, the even one of two. -/
structure Nearest (r : ℚ) (n : Nat) : Prop where
  low : n - 1 / 2 ≤ r
  high : r ≤ n + 1 / 2
  inside : n % 2 = 1 → n - 1 / 2 < r ∧ r < n + 1 / 2

theorem Nearest.le (h : Nearest r m) (h' : Nearest r n) : m ≤ n := by
  by_contra hlt
  have hle : (n : ℚ) + 1 ≤ m := by exact_mod_cast Nat.not_le.1 hlt
  have hm := h.low
  have hn := h'.high
  -- The number is half way between the two, so both are even.
  have hmn : m = n + 1 := by
    have : (m : ℚ) ≤ n + 1 := by linarith
    have : m ≤ n + 1 := by exact_mod_cast this
    omega
  have hm' : m % 2 ≠ 1 := fun hodd => by linarith [(h.inside hodd).1]
  have hn' : n % 2 ≠ 1 := fun hodd => by linarith [(h'.inside hodd).2]
  omega

theorem Nearest.eq (h : Nearest r m) (h' : Nearest r n) : m = n := le_antisymm (h.le h') (h'.le h)

/-- The numbers that a mantissa with a round bit and a sticky bit stands for. -/
def Stands (em : ExtendedMantissa) (r : ℚ) : Prop :=
  match em.roundBit, em.stickyBit with
  | false, false => r = em.mantissa
  | false, true => em.mantissa < r ∧ r < em.mantissa + 1 / 2
  | true, false => r = em.mantissa + 1 / 2
  | true, true => em.mantissa + 1 / 2 < r ∧ r < em.mantissa + 1

namespace Stands

theorem le (h : Stands em r) : em.mantissa ≤ r := by
  obtain ⟨n, a, b⟩ := em
  cases a <;> cases b <;> simp only [Stands] at h ⊢ <;> linarith

theorem lt (h : Stands em r) : r < em.mantissa + 1 := by
  obtain ⟨n, a, b⟩ := em
  cases a <;> cases b <;> simp only [Stands] at h ⊢ <;> linarith

theorem nearest (h : Stands em r) : Nearest r em.roundedMantissa := by
  obtain ⟨n, a, b⟩ := em
  cases a <;> cases b <;>
    simp only [Stands, ExtendedMantissa.roundedMantissa, ExtendedMantissa.accuracy,
      Accuracy.roundToNearestEven] at h ⊢
  · exact ⟨by linarith, by linarith, fun _ => ⟨by linarith, by linarith⟩⟩
  · exact ⟨by linarith, by linarith, fun _ => ⟨by linarith, by linarith⟩⟩
  · rcases Nat.mod_two_eq_zero_or_one n with hn | hn
    · exact ⟨by simp [hn]; linarith, by simp [hn]; linarith, fun h => by omega⟩
    · exact ⟨by simp [hn]; linarith, by simp [hn]; linarith, fun h => by omega⟩
  · exact ⟨by push_cast; linarith, by push_cast; linarith,
      fun _ => ⟨by push_cast; linarith, by push_cast; linarith⟩⟩

theorem shiftRightOne (h : Stands em r) : Stands em.shiftRightOne (r / 2) := by
  obtain ⟨n, a, b⟩ := em
  rcases Nat.even_or_odd' n with ⟨c, rfl | rfl⟩
  · have hdiv : 2 * c / 2 = c := by omega
    have hmod : (2 * c % 2 != 0) = false := by simp
    cases a <;> cases b <;>
      simp only [Stands, ExtendedMantissa.shiftRightOne, hdiv, hmod, Bool.or_false, Bool.or_true,
        Nat.cast_mul, Nat.cast_ofNat] at h ⊢
    · linarith
    all_goals exact ⟨by linarith, by linarith⟩
  · have hdiv : (2 * c + 1) / 2 = c := by omega
    have hmod : ((2 * c + 1) % 2 != 0) = true := by simp
    cases a <;> cases b <;>
      simp only [Stands, ExtendedMantissa.shiftRightOne, hdiv, hmod, Bool.or_false, Bool.or_true,
        Nat.cast_add, Nat.cast_mul, Nat.cast_ofNat, Nat.cast_one] at h ⊢
    · linarith
    all_goals exact ⟨by linarith, by linarith⟩

theorem shiftRight (h : Stands em r) (k : Nat) : Stands (em >>> k) (r / 2 ^ k) := by
  change Stands (k.repeat ExtendedMantissa.shiftRightOne em) _
  induction k with
  | zero => simpa [Nat.repeat] using h
  | succ k ih =>
    rw [pow_succ, ← div_div]
    exact ih.shiftRightOne

end Stands

/-! ### The nearest double -/

/-- How far below a double the numbers start that round to it, in units of its exponent: half of the gap to
the double below it. -/
def halfGap (m : Nat) (e : Int) : ℚ := if m = 2 ^ 52 ∧ -1074 < e then 1 / 4 else 1 / 2

/-- The double `m · 2 ^ e` is the nearest one to `q`, the even one of two. -/
structure Rounds (q : ℚ) (m : Nat) (e : Int) : Prop where
  low : (m - halfGap m e) * 2 ^ e ≤ q
  high : q ≤ (m + 1 / 2) * 2 ^ e
  inside : m % 2 = 1 → (m - halfGap m e) * 2 ^ e < q ∧ q < (m + 1 / 2) * 2 ^ e

theorem quarter_le_halfGap : 1 / 4 ≤ halfGap m e := by
  unfold halfGap
  split_ifs <;> norm_num

theorem halfGap_le : halfGap m e ≤ 1 / 2 := by
  unfold halfGap
  split_ifs <;> norm_num

theorem rounds_self (m : Nat) (e : Int) : Rounds (m * 2 ^ e) m e := by
  have hpos : (0 : ℚ) < 2 ^ e := by positivity
  have hgap := quarter_le_halfGap (m := m) (e := e)
  have hlow : (m - halfGap m e) * 2 ^ e < m * 2 ^ e := by gcongr; linarith
  have hhigh : (m : ℚ) * 2 ^ e < (m + 1 / 2) * 2 ^ e := by gcongr; linarith
  exact ⟨hlow.le, hhigh.le, fun _ => ⟨hlow, hhigh⟩⟩

/-- The nearest double has the nearest mantissa for its exponent. -/
theorem Rounds.nearest (h : Rounds q m e) : Nearest (q / 2 ^ e) m := by
  have hpos : (0 : ℚ) < 2 ^ e := by positivity
  have hgap := halfGap_le (m := m) (e := e)
  have hlow : (m - 1 / 2 : ℚ) ≤ m - halfGap m e := by linarith
  refine ⟨?_, ?_, fun hodd => ⟨?_, ?_⟩⟩
  · exact hlow.trans ((le_div_iff₀ hpos).2 h.low)
  · exact (div_le_iff₀ hpos).2 h.high
  · exact hlow.trans_lt ((lt_div_iff₀ hpos).2 (h.inside hodd).1)
  · exact (div_lt_iff₀ hpos).2 (h.inside hodd).2

/-- The number is `N · 2 ^ E` up to what the accuracy says. -/
def Describes (N : Nat) (E : Int) (acc : Accuracy) (q : ℚ) : Prop :=
  Stands (.ofMantissaAndAccuracy N acc) (q / 2 ^ E)

/-- The exponent of the double to which numbers round whose first bit is at the place `T`. -/
theorem targetExponent_eq (T : Int) : Format.binary64.targetExponent T = max (T - 53) (-1074) := rfl

namespace Describes

@[simp] theorem mantissa_of (N : Nat) (acc : Accuracy) :
    (ExtendedMantissa.ofMantissaAndAccuracy N acc).mantissa = N := by
  cases acc with
  | exact => rfl
  | inexact o => cases o <;> rfl

theorem of_exact (h : q = N * 2 ^ E) : Describes N E .exact q := by
  have hpos : (2 : ℚ) ^ E ≠ 0 := by positivity
  exact (div_eq_iff hpos).2 h

theorem le (h : Describes N E acc q) : N * 2 ^ E ≤ q := by
  have hle := Stands.le h
  rw [mantissa_of] at hle
  exact (le_div_iff₀ (by positivity)).1 hle

theorem lt (h : Describes N E acc q) : q < (N + 1) * 2 ^ E := by
  have hlt := Stands.lt h
  rw [mantissa_of] at hlt
  exact (div_lt_iff₀ (by positivity)).1 hlt

theorem lt_pow (h : Describes N E acc q) : q < 2 ^ totalExponent N E := by
  have hN : (N : ℚ) + 1 ≤ 2 ^ (N.log2 + 1) := by exact_mod_cast Nat.lt_log2_self
  calc q < (N + 1) * 2 ^ E := h.lt
    _ ≤ 2 ^ (N.log2 + 1) * 2 ^ E := by gcongr
    _ = 2 ^ totalExponent N E := by
      rw [totalExponent, zpow_add₀ two_ne_zero]
      norm_cast

theorem pow_le (h : Describes N E acc q) (hN : N ≠ 0) : 2 ^ (totalExponent N E - 1) ≤ q := by
  have hlog : (2 : ℚ) ^ N.log2 ≤ N := by exact_mod_cast Nat.log2_self_le hN
  calc (2 : ℚ) ^ (totalExponent N E - 1) = 2 ^ N.log2 * 2 ^ E := by
        rw [totalExponent, ← zpow_natCast, ← zpow_add₀ two_ne_zero]
        congr 1
        ring
    _ ≤ N * 2 ^ E := by gcongr
    _ ≤ q := h.le

theorem lt_total (h : Describes N E acc q) (hq : 2 ^ k ≤ q) : k < totalExponent N E :=
  (zpow_lt_zpow_iff_right₀ one_lt_two).1 (hq.trans_lt h.lt_pow)

/-- Numbers whose mantissa is zero are tiny if they have enough bits. -/
theorem total_le (h : Describes N E acc q) (hE : E ≤ max (totalExponent N E - 53) (-1074)) (hk : -1074 < k)
    (hq : q < 2 ^ k) : totalExponent N E ≤ k := by
  rcases eq_or_ne N 0 with rfl | hN
  · have hlog : Nat.log2 0 = 0 := by decide
    simp only [totalExponent, hlog] at hE ⊢
    omega
  · have hlt : totalExponent N E - 1 < k :=
      (zpow_lt_zpow_iff_right₀ one_lt_two).1 ((h.pow_le hN).trans_lt hq)
    omega

theorem shiftToExponent (h : Describes N E acc q) (hE : E ≤ t) :
    ∃ em, shiftToExponent N E acc t = (em, t) ∧ Stands em (q / 2 ^ t) := by
  have hexp : E + ((t - E).toNat : Int) = t := by omega
  refine ⟨_, Prod.ext rfl hexp, ?_⟩
  have hst := Stands.shiftRight h (t - E).toNat
  rwa [div_div, ← zpow_natCast, ← zpow_add₀ two_ne_zero, hexp] at hst

end Describes

theorem Canonical.pow_lt_of_normal (hc : Canonical m e) (he : -1074 < e) (hr : Rounds q m e) :
    2 ^ (51 + e) < q := by
  have hm : (2 : ℚ) ^ 52 ≤ m := by exact_mod_cast hc.normal he
  have hgap := halfGap_le (m := m) (e := e)
  have hpos : (0 : ℚ) < 2 ^ e := by positivity
  calc (2 : ℚ) ^ (51 + e) = 2 ^ 51 * 2 ^ e := by rw [zpow_add₀ two_ne_zero]; norm_cast
    _ < (m - halfGap m e) * 2 ^ e := by gcongr; linarith
    _ ≤ q := hr.low

theorem Canonical.lt_pow (hc : Canonical m e) (hr : Rounds q m e) : q < 2 ^ (53 + e) := by
  have hm : (m : ℚ) + 1 ≤ 2 ^ 53 := by exact_mod_cast hc.lt
  have hpos : (0 : ℚ) < 2 ^ e := by positivity
  calc q ≤ (m + 1 / 2) * 2 ^ e := hr.high
    _ < 2 ^ 53 * 2 ^ e := by gcongr; linarith
    _ = 2 ^ (53 + e) := by rw [zpow_add₀ two_ne_zero]; norm_cast

/-- Below a power of two a double is nearest to numbers of the next smaller exponent. -/
theorem Canonical.eq_of_lt_pow (hc : Canonical m e) (he : -1074 < e) (hr : Rounds q m e)
    (hq : q < 2 ^ (52 + e)) : m = 2 ^ 52 := by
  by_contra hm
  have hlt : (2 : ℚ) ^ 52 + 1 ≤ m := by exact_mod_cast lt_of_le_of_ne (hc.normal he) (Ne.symm hm)
  have hgap := halfGap_le (m := m) (e := e)
  have hpos : (0 : ℚ) < 2 ^ e := by positivity
  refine absurd hq (not_lt.2 ?_)
  calc (2 : ℚ) ^ (52 + e) = 2 ^ 52 * 2 ^ e := by rw [zpow_add₀ two_ne_zero]; norm_cast
    _ ≤ (m - halfGap m e) * 2 ^ e := by gcongr; linarith
    _ ≤ q := hr.low

theorem Rounds.nearest_pow (hr : Rounds q (2 ^ 52) e) (he : -1074 < e) (hq : q < 2 ^ (52 + e)) :
    Nearest (q / 2 ^ (e - 1)) (2 ^ 53) := by
  have hpos : (0 : ℚ) < 2 ^ (e - 1) := by positivity
  have htwo : (2 : ℚ) ^ e = 2 * 2 ^ (e - 1) := by
    rw [← zpow_one_add₀ two_ne_zero]
    congr 1
    ring
  have hlow := hr.low
  rw [halfGap, if_pos ⟨rfl, he⟩, htwo] at hlow
  rw [zpow_add₀ two_ne_zero, htwo] at hq
  refine ⟨?_, ?_, fun hodd => absurd hodd (by decide)⟩
  · rw [le_div_iff₀ hpos]
    refine le_trans (le_of_eq ?_) hlow
    push_cast
    ring
  · rw [div_le_iff₀ hpos]
    refine hq.le.trans ?_
    push_cast
    nlinarith [hpos]

/-! ### Rounding of what is described -/

theorem shiftToTargetExponent_of_le (hn : max (n.log2 + 1 + e - 53) (-1074) ≤ e) :
    shiftToTargetExponent Format.binary64 n e .exact = (⟨n, false, false⟩, e) := by
  have hzero : (Format.binary64.targetExponent (totalExponent n e) - e).toNat = 0 := by
    rw [targetExponent_eq, totalExponent]
    omega
  unfold shiftToTargetExponent UnpackedFloat.shiftToExponent
  simp only [hzero]
  exact Prod.ext rfl (add_zero e)

/-- A mantissa that rounding made one bit too long is shifted back. -/
theorem shiftToTargetExponent_pow (he : -1074 < e) :
    shiftToTargetExponent Format.binary64 (2 ^ 53) (e - 1) .exact = (⟨2 ^ 52, false, false⟩, e) := by
  have hlog : Nat.log2 (2 ^ 53) = 53 := Nat.log2_two_pow
  have hone : (Format.binary64.targetExponent (totalExponent (2 ^ 53) (e - 1)) - (e - 1)).toNat = 1 := by
    rw [targetExponent_eq, totalExponent, hlog]
    omega
  unfold shiftToTargetExponent UnpackedFloat.shiftToExponent
  simp only [hone]
  exact Prod.ext rfl (sub_add_cancel e 1)

/-- Rounding is a shift to the exponent of the result, and a second one if the mantissa became too long. -/
theorem roundWithAccuracy_of_shifts (em' : ExtendedMantissa) (hm : 0 < em'.mantissa)
    (h : shiftToTargetExponent Format.binary64 N E acc = (em, t))
    (h' : shiftToTargetExponent Format.binary64 em.roundedMantissa t .exact = (em', e)) :
    roundWithAccuracy Format.binary64 s N E acc = .finite s em'.mantissa e hm := by
  unfold roundWithAccuracy
  simp only [h, h']
  exact dif_neg hm.ne'

/-- A number is rounded to the double that is nearest to it. -/
theorem Describes.roundWithAccuracy_eq (h : Describes N E acc q)
    (hE : E ≤ max (totalExponent N E - 53) (-1074)) (hc : Canonical m e) (hr : Rounds q m e) (s : Sign) :
    roundWithAccuracy Format.binary64 s N E acc = .finite s m e hc.pos := by
  have hlog : m.log2 < 53 := (Nat.log2_lt hc.pos.ne').2 hc.lt
  have hleast := hc.least_le
  have hT := h.total_le hE (by omega : -1074 < 53 + e) (hc.lt_pow hr)
  obtain ⟨em, hem, hst⟩ := h.shiftToExponent hE
  change shiftToTargetExponent Format.binary64 N E acc = _ at hem
  by_cases hup : -1074 < e ∧ q < 2 ^ (52 + e)
  · -- The number is below the power of two that it rounds to.
    obtain ⟨he, hq⟩ := hup
    obtain rfl := hc.eq_of_lt_pow he hr hq
    have ht : max (totalExponent N E - 53) (-1074) = e - 1 := by
      have := h.total_le hE (by omega : -1074 < 52 + e) hq
      have := h.lt_total (hc.pow_lt_of_normal he hr).le
      omega
    rw [ht] at hem hst
    have hround := hst.nearest.eq (hr.nearest_pow he hq)
    refine roundWithAccuracy_of_shifts ⟨2 ^ 52, false, false⟩ hc.pos hem ?_
    rw [hround, shiftToTargetExponent_pow he]
  · have ht : max (totalExponent N E - 53) (-1074) = e := by
      rcases hleast.eq_or_lt with rfl | he
      · omega
      · have := h.lt_total (not_lt.1 fun hq => hup ⟨he, hq⟩)
        omega
    rw [ht] at hem hst
    have hround := hst.nearest.eq hr.nearest
    refine roundWithAccuracy_of_shifts ⟨m, false, false⟩ hc.pos hem ?_
    rw [hround, shiftToTargetExponent_of_le (by omega)]

theorem log2_mul_two_pow (hN : N ≠ 0) (k : Nat) : (N * 2 ^ k).log2 = N.log2 + k := by
  rw [Nat.log2_eq_iff (by positivity), pow_add, show N.log2 + k + 1 = N.log2 + 1 + k by ring, pow_add]
  exact ⟨Nat.mul_le_mul_right _ (Nat.log2_self_le hN), Nat.mul_lt_mul_of_pos_right Nat.lt_log2_self (by positivity)⟩

theorem round_eq (hN : N ≠ 0) (hc : Canonical m e) (hr : Rounds (N * 2 ^ E) m e) (s : Sign) :
    UnpackedFloat.round Format.binary64 s N E = .finite s m e hc.pos := by
  set t := max (totalExponent N E - 53) (-1074) with ht
  obtain ⟨k, hk⟩ : ∃ k : Nat, k = (E - t).toNat := ⟨_, rfl⟩
  have htotal : totalExponent (N * 2 ^ k) (E - k) = totalExponent N E := by
    rw [totalExponent, totalExponent, log2_mul_two_pow hN]
    push_cast
    ring
  have hdesc : Describes (N * 2 ^ k) (E - k) .exact (N * 2 ^ E) := by
    refine .of_exact ?_
    rw [zpow_sub₀ two_ne_zero, zpow_natCast]
    push_cast
    field_simp
  unfold UnpackedFloat.round decreaseExponent
  simp only [targetExponent_eq, ← ht, ← hk, Nat.shiftLeft_eq]
  refine hdesc.roundWithAccuracy_eq ?_ hc hr s
  rw [htotal, ← ht]
  omega

theorem zero_shiftRight (k : Nat) : (⟨0, false, false⟩ : ExtendedMantissa) >>> k = ⟨0, false, false⟩ := by
  change k.repeat ExtendedMantissa.shiftRightOne _ = _
  induction k with
  | zero => rfl
  | succ k ih => rw [Nat.repeat, ih]; rfl

theorem round_zero (s : Sign) (E : Int) : UnpackedFloat.round Format.binary64 s 0 E = .zero s := by
  have hshift (E' t : Int) : (UnpackedFloat.shiftToExponent 0 E' .exact t).1 = ⟨0, false, false⟩ :=
    zero_shiftRight _
  unfold UnpackedFloat.round decreaseExponent roundWithAccuracy shiftToTargetExponent
  simp only [Nat.zero_shiftLeft, hshift]
  refine dif_pos ?_
  rw [show (⟨0, false, false⟩ : ExtendedMantissa).roundedMantissa = 0 from rfl, hshift]

/-! ### Numbers that are doubles -/

theorem exists_canonical (hn : n ≠ 0) (hlt : n < 2 ^ 53) :
    ∃ m e, Canonical m e ∧ (m : ℚ) * 2 ^ e = n := by
  have hlog : n.log2 < 53 := (Nat.log2_lt hn).2 hlt
  obtain ⟨k, hk⟩ : ∃ k, n.log2 + k = 52 := ⟨52 - n.log2, by omega⟩
  have hm := (Nat.log2_eq_iff (by positivity)).1 (log2_mul_two_pow hn k)
  rw [hk] at hm
  refine ⟨n * 2 ^ k, -(k : Int), ⟨by positivity, hm.2, by omega, by omega, fun _ => hm.1⟩, ?_⟩
  rw [zpow_neg, zpow_natCast]
  push_cast
  field_simp

theorem value?_pack_zero (s : Sign) : value? (.ofModel (Float.Model.pack (.zero s))) = some 0 := by
  have h : (Float.Model.pack (.zero s)).unpack = .zero s := unpack_packedZero
  rw [value?, h]
  rfl

theorem Canonical.value?_pack (hc : Canonical m e) (s : Sign) :
    value? (.ofModel (Float.Model.pack (.finite s m e hc.pos))) = some ((s.apply m : ℚ) * 2 ^ e) := by
  rw [value?, hc.unpack_pack s]
  rfl

theorem value?_ofBinary_of_canonical (hc : Canonical m e) (h : (N : ℚ) * 2 ^ E = m * 2 ^ e) (s : Sign) :
    value? (ofBinary s N E) = some ((s.apply m : ℚ) * 2 ^ e) := by
  have hN : N ≠ 0 := by
    rintro rfl
    rw [Nat.cast_zero, zero_mul] at h
    exact hc.pos_rational.ne h
  rw [ofBinary, round_eq hN hc (h ▸ rounds_self m e)]
  exact hc.value?_pack s

theorem apply_cast (s : Sign) (n : Nat) : ((s.apply n : Int) : ℚ) = s.apply 1 * n := by
  cases s <;> simp [Sign.apply]

/-- An integer of at most 53 bits is a double. -/
theorem value?_ofBinary (hn : n < 2 ^ 53) (h : (N : ℚ) * 2 ^ E = n) (s : Sign) :
    value? (ofBinary s N E) = some (s.apply n : ℚ) := by
  rcases eq_or_ne n 0 with rfl | hn0
  · have hN : N = 0 := by simpa [zpow_ne_zero] using h
    subst hN
    rw [ofBinary, round_zero, value?_pack_zero]
    cases s <;> rfl
  · obtain ⟨m, e, hc, hm⟩ := exists_canonical hn0 hn
    rw [value?_ofBinary_of_canonical hc (h.trans hm.symm), apply_cast, apply_cast, mul_assoc, hm]

end Scriptlet.Number
