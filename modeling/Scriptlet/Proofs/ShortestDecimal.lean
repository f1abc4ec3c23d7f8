import Scriptlet.Proofs.Rounding
import Scriptlet.Number.Shortest

/-!
# The shortest decimal of a double

The interval of a double holds the decimals that round to it, so the decimal that the search finds on one of
its grids does. So does the one that it takes on the last grid without a test: seventeen digits behind the
first come closer to a double than half of the gap below it. No decimal with fewer digits rounds to the
double, since a grid that has a decimal of the interval has one next to the double.
-/

namespace Scriptlet.Number

open Float.Model

variable {m d : Nat} {e k : Int} {q : ℚ}

/-- The number that a decimal denotes. -/
def Decimal.value (d : Decimal) : ℚ := d.digits * 10 ^ d.exponent

theorem Rounds.convex {p q r : ℚ} (hp : Rounds p m e) (hr : Rounds r m e) (hpq : p ≤ q)
    (hqr : q ≤ r) : Rounds q m e :=
  ⟨hp.low.trans hpq, hqr.trans hr.high,
    fun hodd => ⟨(hp.inside hodd).1.trans_le hpq, hqr.trans_lt (hr.inside hodd).2⟩⟩

theorem zpow_eq_div {b : ℚ} (hb : b ≠ 0) (k : Int) : b ^ k = b ^ k.toNat / b ^ (-k).toNat := by
  rw [eq_div_iff (pow_ne_zero _ hb), ← zpow_natCast, ← zpow_natCast, ← zpow_add₀ hb]
  congr 1
  omega

namespace Interval

theorem unit_pos : (0 : ℚ) < (ofBinary m e).unit := by
  exact_mod_cast Nat.pow_pos (n := (2 - e).toNat) (by decide : 0 < 2)

/-- A quarter of the unit of the mantissa, over the denominator of the interval. -/
theorem scale_eq (e : Int) : ((twoTo (e - 2).toNat : Nat) : ℚ) = 2 ^ e / 4 * (twoTo (2 - e).toNat : Nat) := by
  have h := zpow_eq_div (b := 2) two_ne_zero (e - 2)
  rw [neg_sub, zpow_sub₀ two_ne_zero] at h
  have hpos : (0 : ℚ) < 2 ^ (2 - e).toNat := by positivity
  rw [eq_div_iff hpos.ne'] at h
  simp only [twoTo, Nat.pow_eq, Nat.cast_pow, Nat.cast_ofNat]
  rw [← h]
  norm_num

theorem low_eq (hm : 0 < m) : ((ofBinary m e).low : ℚ) = (m - halfGap m e) * 2 ^ e * (ofBinary m e).unit := by
  have hscale := scale_eq e
  simp only [ofBinary, halfGap, Nat.cast_mul, hscale]
  have htwo : twoTo 52 = 2 ^ 52 := rfl
  rw [htwo]
  split_ifs
  · rw [Nat.cast_sub (by omega)]
    push_cast
    ring
  · rw [Nat.cast_sub (by omega)]
    push_cast
    ring

theorem value_eq : ((ofBinary m e).value : ℚ) = m * 2 ^ e * (ofBinary m e).unit := by
  have hscale := scale_eq e
  simp only [ofBinary, Nat.cast_mul, hscale]
  push_cast
  ring

theorem high_eq : ((ofBinary m e).high : ℚ) = (m + 1 / 2) * 2 ^ e * (ofBinary m e).unit := by
  have hscale := scale_eq e
  simp only [ofBinary, Nat.cast_mul, hscale]
  push_cast
  ring

theorem tenTo_toNat (k : Int) : ((tenTo k.toNat : Nat) : ℚ) = 10 ^ k * (tenTo (-k).toNat : Nat) := by
  have h := zpow_eq_div (b := 10) (by norm_num) k
  rw [eq_div_iff (by positivity)] at h
  simp only [tenTo, Nat.pow_eq, Nat.cast_pow, Nat.cast_ofNat]
  exact h.symm

theorem scaled_eq (i : Interval) (d : Nat) (k : Int) :
    ((i.scaled d k).1 : ℚ) = d * 10 ^ k * ((i.scaled d k).2 * i.unit) := by
  have hten := tenTo_toNat k
  simp only [scaled, Nat.cast_mul, hten]
  ring

theorem scaled_pos (i : Interval) (d : Nat) (k : Int) : (0 : ℚ) < (i.scaled d k).2 := by
  exact_mod_cast Nat.pow_pos (n := (-k).toNat) (by decide : 0 < 10)

/-- The interval of a double holds the decimals that round to it. -/
theorem holds_iff (hm : 0 < m) : (ofBinary m e).holds d k = true ↔ Rounds (d * 10 ^ k) m e := by
  set i := ofBinary m e with hi
  have hpos : (0 : ℚ) < (i.scaled d k).2 * i.unit := mul_pos (i.scaled_pos d k) unit_pos
  have hnum := i.scaled_eq d k
  have hlow : ((i.low * (i.scaled d k).2 : Nat) : ℚ) =
      (m - halfGap m e) * 2 ^ e * ((i.scaled d k).2 * i.unit) := by
    rw [Nat.cast_mul, hi, low_eq hm]
    ring
  have hhigh : ((i.high * (i.scaled d k).2 : Nat) : ℚ) =
      (m + 1 / 2) * 2 ^ e * ((i.scaled d k).2 * i.unit) := by
    rw [Nat.cast_mul, hi, high_eq]
    ring
  have hle₁ : i.low * (i.scaled d k).2 ≤ (i.scaled d k).1 ↔ (m - halfGap m e) * 2 ^ e ≤ d * 10 ^ k := by
    rw [← Nat.cast_le (α := ℚ), hlow, hnum, mul_le_mul_iff_left₀ hpos]
  have hle₂ : (i.scaled d k).1 ≤ i.high * (i.scaled d k).2 ↔ d * 10 ^ k ≤ ((m : ℚ) + 1 / 2) * 2 ^ e := by
    rw [← Nat.cast_le (α := ℚ), hhigh, hnum, mul_le_mul_iff_left₀ hpos]
  have hlt₁ : i.low * (i.scaled d k).2 < (i.scaled d k).1 ↔ (m - halfGap m e) * 2 ^ e < d * 10 ^ k := by
    rw [← Nat.cast_lt (α := ℚ), hlow, hnum, mul_lt_mul_iff_left₀ hpos]
  have hlt₂ : (i.scaled d k).1 < i.high * (i.scaled d k).2 ↔ d * 10 ^ k < ((m : ℚ) + 1 / 2) * 2 ^ e := by
    rw [← Nat.cast_lt (α := ℚ), hhigh, hnum, mul_lt_mul_iff_left₀ hpos]
  have hclosed : i.closed = true ↔ m % 2 = 0 := decide_eq_true_iff
  unfold holds
  dsimp only
  split_ifs with hc
  · rw [Bool.and_eq_true, decide_eq_true_iff, decide_eq_true_iff, hle₁, hle₂]
    have hodd : m % 2 ≠ 1 := by rw [hclosed.1 hc]; decide
    exact ⟨fun h => ⟨h.1, h.2, fun h' => absurd h' hodd⟩, fun h => ⟨h.low, h.high⟩⟩
  · rw [Bool.and_eq_true, decide_eq_true_iff, decide_eq_true_iff, hlt₁, hlt₂]
    have hodd : m % 2 = 1 := by
      have := mt hclosed.2 hc
      omega
    exact ⟨fun h => ⟨h.1.le, h.2.le, fun _ => h⟩, fun h => h.inside hodd⟩

/-! ### Grids -/

theorem floor_div_eq (k : Int) :
    (((ofBinary m e).value * tenTo (-k).toNat : Nat) : ℚ) =
      m * 2 ^ e / 10 ^ k * (tenTo k.toNat * (ofBinary m e).unit : Nat) := by
  have hten : (0 : ℚ) < 10 ^ k := by positivity
  rw [Nat.cast_mul, Nat.cast_mul, value_eq, tenTo_toNat k]
  field_simp

theorem floor_le (k : Int) : ((ofBinary m e).floor k : ℚ) * 10 ^ k ≤ m * 2 ^ e := by
  have hten : (0 : ℚ) < 10 ^ k := by positivity
  have hb : (0 : ℚ) < (tenTo k.toNat * (ofBinary m e).unit : Nat) := by
    exact_mod_cast Nat.mul_pos (Nat.pow_pos (by decide)) (Nat.pow_pos (by decide))
  have hdiv : (((ofBinary m e).floor k * (tenTo k.toNat * (ofBinary m e).unit) : Nat) : ℚ) ≤ _ :=
    Nat.cast_le.2 (Nat.div_mul_le_self _ _)
  rw [floor_div_eq, Nat.cast_mul, mul_le_mul_iff_left₀ hb] at hdiv
  exact (le_div_iff₀ hten).1 hdiv

theorem lt_floor_add_one (k : Int) : (m : ℚ) * 2 ^ e < ((ofBinary m e).floor k + 1 : Nat) * 10 ^ k := by
  have hten : (0 : ℚ) < 10 ^ k := by positivity
  have hb' : 0 < tenTo k.toNat * (ofBinary m e).unit :=
    Nat.mul_pos (Nat.pow_pos (by decide)) (Nat.pow_pos (by decide))
  have hb : (0 : ℚ) < (tenTo k.toNat * (ofBinary m e).unit : Nat) := by exact_mod_cast hb'
  have hdiv : _ < ((((ofBinary m e).floor k + 1) * (tenTo k.toNat * (ofBinary m e).unit) : Nat) : ℚ) :=
    Nat.cast_lt.2 (Nat.lt_mul_of_div_lt (Nat.lt_succ_self _) hb')
  rw [floor_div_eq, Nat.cast_mul (_ + 1), mul_lt_mul_iff_left₀ hb] at hdiv
  exact (div_lt_iff₀ hten).1 hdiv

/-- The decimal that is found on a grid is next to the double, and rounds to it. -/
theorem onGrid?_eq_some (hm : 0 < m) (h : (ofBinary m e).onGrid? k = some d) :
    (d = (ofBinary m e).floor k ∨ d = (ofBinary m e).floor k + 1) ∧ Rounds (d * 10 ^ k) m e := by
  unfold onGrid? at h
  dsimp only at h
  split at h
  next h₁ h₂ =>
    cases h
    split_ifs
    · exact ⟨.inr rfl, (holds_iff hm).1 h₂⟩
    · exact ⟨.inl rfl, (holds_iff hm).1 h₁⟩
  next h₁ _ => cases h; exact ⟨.inl rfl, (holds_iff hm).1 h₁⟩
  next _ h₂ => cases h; exact ⟨.inr rfl, (holds_iff hm).1 h₂⟩
  next => cases h

/-- A grid with a decimal that rounds to the double has one next to the double. -/
theorem onGrid?_ne_none (hm : 0 < m) (h : Rounds (d * 10 ^ k) m e) : (ofBinary m e).onGrid? k ≠ none := by
  have hten : (0 : ℚ) < 10 ^ k := by positivity
  have hself := rounds_self m e
  rcases Nat.lt_or_ge ((ofBinary m e).floor k) d with hd | hd
  · have hle : (((ofBinary m e).floor k + 1 : Nat) : ℚ) ≤ d := Nat.cast_le.2 hd
    have hr := hself.convex h (lt_floor_add_one k).le (by gcongr)
    unfold onGrid?
    dsimp only
    rw [(holds_iff hm).2 hr]
    cases (ofBinary m e).holds ((ofBinary m e).floor k) k <;> simp
  · have hle : (d : ℚ) ≤ (ofBinary m e).floor k := Nat.cast_le.2 hd
    have hr := h.convex hself (by gcongr) (floor_le k)
    unfold onGrid?
    dsimp only
    rw [(holds_iff hm).2 hr]
    cases (ofBinary m e).holds ((ofBinary m e).floor k + 1) k <;> simp

/-! ### The search -/

theorem lt_pow_digitCount (n : Nat) : n < 10 ^ digitCount n :=
  (Nat.length_toDigits_le_iff (by decide) Nat.length_toDigits_pos).1 le_rfl

theorem digitCount_le {n c : Nat} (hc : 0 < c) (h : n < 10 ^ c) : digitCount n ≤ c :=
  (Nat.length_toDigits_le_iff (by decide) hc).2 h

theorem pow_digitCount_le {n : Nat} (hn : 0 < n) : 10 ^ (digitCount n - 1) ≤ n := by
  by_contra hlt
  rw [Nat.not_le] at hlt
  rcases Nat.eq_zero_or_pos (digitCount n - 1) with h0 | hpos
  · rw [h0, pow_zero] at hlt
    omega
  · have := digitCount_le hpos hlt
    omega

/-- The double is at least the power of ten of its magnitude, and below the next one. -/
theorem magnitude_spec (hm : 0 < m) : 10 ^ (ofBinary m e).magnitude ≤ (m : ℚ) * 2 ^ e ∧
    (m : ℚ) * 2 ^ e < 10 ^ ((ofBinary m e).magnitude + 1) := by
  have hunit := unit_pos (m := m) (e := e)
  have hval := value_eq (m := m) (e := e)
  set v := (ofBinary m e).value
  set u := (ofBinary m e).unit
  have hu : 0 < u := by exact_mod_cast hunit
  have hv : 0 < v := by
    have : (0 : ℚ) < v := by rw [hval]; positivity
    exact_mod_cast this
  have hq : (m : ℚ) * 2 ^ e = v / u := by rw [hval]; field_simp
  rw [hq, le_div_iff₀ hunit, div_lt_iff₀ hunit]
  unfold magnitude
  split_ifs with h
  · obtain ⟨c, hc⟩ : ∃ c, digitCount (v / u) = c + 1 :=
      ⟨_, (Nat.succ_pred_eq_of_pos Nat.length_toDigits_pos).symm⟩
    have hlow := pow_digitCount_le (Nat.div_pos h hu)
    have hhigh := lt_pow_digitCount (v / u)
    rw [hc] at hlow hhigh ⊢
    rw [Nat.le_div_iff_mul_le hu] at hlow
    rw [Nat.div_lt_iff_lt_mul hu] at hhigh
    rw [sub_add_cancel, zpow_natCast, Nat.cast_succ, add_sub_cancel_right, zpow_natCast]
    exact ⟨by exact_mod_cast hlow, by exact_mod_cast hhigh⟩
  · obtain ⟨c, hc⟩ : ∃ c, digitCount ((u - 1) / v) = c + 1 :=
      ⟨_, (Nat.succ_pred_eq_of_pos Nat.length_toDigits_pos).symm⟩
    have hlow := pow_digitCount_le (Nat.div_pos (by omega : v ≤ u - 1) hv)
    have hhigh := lt_pow_digitCount ((u - 1) / v)
    rw [hc, Nat.add_sub_cancel] at hlow
    rw [hc] at hhigh ⊢
    rw [Nat.le_div_iff_mul_le hv] at hlow
    rw [Nat.div_lt_iff_lt_mul hv] at hhigh
    have hlow' : (10 : ℚ) ^ c * v < u := by exact_mod_cast (by omega : 10 ^ c * v < u)
    have hhigh' : (u : ℚ) ≤ 10 ^ (c + 1) * v := by exact_mod_cast (by omega : u ≤ 10 ^ (c + 1) * v)
    rw [Nat.cast_succ, neg_add_eq_sub, sub_add_cancel_right, zpow_neg, zpow_neg, zpow_natCast,
      inv_mul_le_iff₀ (by positivity), lt_inv_mul_iff₀ (by positivity)]
    exact ⟨by exact_mod_cast hhigh', hlow'⟩

/-- What the search has tried: no grid above `k` has a decimal of the interval. -/
def Passed (i : Interval) (k : Int) : Prop := ∀ k', k < k' → k' ≤ i.magnitude → i.onGrid? k' = none

/-- The decimal of the first grid that has one of the interval, or of the last grid, next to the double. -/
structure Found (i : Interval) (last : Int) (r : Decimal) : Prop where
  passed : i.Passed r.exponent
  last_le : last ≤ r.exponent
  le_magnitude : r.exponent ≤ i.magnitude
  near : r.digits = i.floor r.exponent ∨ r.digits = i.floor r.exponent + 1
  grid : i.onGrid? r.exponent = some r.digits ∨ r.exponent = last ∧ r.digits = i.floor last

theorem search_found {i : Interval} (hm : 0 < m) (hi : i = ofBinary m e) (n : Nat) (k : Int) (hk : k ≤ i.magnitude)
    (hp : i.Passed k) : i.Found (k - n) (i.search n k) := by
  induction n generalizing k with
  | zero =>
    rw [search, Nat.cast_zero, sub_zero]
    exact ⟨hp, le_rfl, hk, .inl rfl, .inr ⟨rfl, rfl⟩⟩
  | succ n ih =>
    unfold search
    split
    next d h =>
      subst hi
      exact ⟨hp, by dsimp only; omega, hk, (onGrid?_eq_some hm h).1, .inl h⟩
    next h =>
      have hp' : i.Passed (k - 1) := fun k' hlt hle => by
        rcases eq_or_ne k' k with rfl | hne
        · exact h
        · exact hp k' (by omega) hle
      have hlast : k - ((n + 1 : Nat) : Int) = k - 1 - n := by push_cast; ring
      rw [hlast]
      exact ih (k - 1) (by omega) hp'

/-- Seventeen digits behind the first come close enough to the double. -/
theorem floor_rounds (hc : Canonical m e) (hk : k ≤ (ofBinary m e).magnitude - 17) :
    Rounds ((ofBinary m e).floor k * 10 ^ k) m e := by
  have hm : (m : ℚ) < 2 ^ 53 := by exact_mod_cast hc.lt
  have hpos : (0 : ℚ) < 2 ^ e := by positivity
  have hstep : (10 : ℚ) ^ k < 1 / 4 * 2 ^ e := by
    calc (10 : ℚ) ^ k ≤ 10 ^ ((ofBinary m e).magnitude - 17) := zpow_le_zpow_right₀ (by norm_num) hk
      _ = 10 ^ (ofBinary m e).magnitude / 10 ^ 17 := by rw [zpow_sub₀ (by norm_num)]; norm_cast
      _ ≤ m * 2 ^ e / 10 ^ 17 := by gcongr; exact (magnitude_spec hc.pos).1
      _ < 2 ^ 53 * 2 ^ e / 10 ^ 17 := by gcongr
      _ ≤ 1 / 4 * 2 ^ e := by linarith
  have hgap : 1 / 4 * 2 ^ e ≤ halfGap m e * 2 ^ e := by gcongr; exact quarter_le_halfGap
  have hlow : (m - halfGap m e) * 2 ^ e < (ofBinary m e).floor k * 10 ^ k := by
    have hlt := lt_floor_add_one (m := m) (e := e) k
    push_cast at hlt
    linarith
  have hhigh : ((ofBinary m e).floor k : ℚ) * 10 ^ k < (m + 1 / 2) * 2 ^ e := by
    have hle := floor_le (m := m) (e := e) k
    linarith
  exact ⟨hlow.le, hhigh.le, fun _ => ⟨hlow, hhigh⟩⟩

theorem Found.rounds {r : Decimal} (hc : Canonical m e)
    (h : (ofBinary m e).Found ((ofBinary m e).magnitude - 17) r) : Rounds r.value m e := by
  rcases h.grid with hgrid | ⟨hexp, hdigits⟩
  · exact (onGrid?_eq_some hc.pos hgrid).2
  · rw [Decimal.value, hdigits, hexp]
    exact floor_rounds hc le_rfl

theorem Found.digitCount_le {r : Decimal} {last : Int} (hm : 0 < m) (h : (ofBinary m e).Found last r) :
    (digitCount r.dropZero.digits : Int) ≤ (ofBinary m e).magnitude + 1 - r.exponent := by
  have hmag := h.le_magnitude
  obtain ⟨c, hc⟩ : ∃ c : Nat, (c : Int) + 1 = (ofBinary m e).magnitude + 1 - r.exponent :=
    ⟨((ofBinary m e).magnitude - r.exponent).toNat, by omega⟩
  have hfloor : (ofBinary m e).floor r.exponent < 10 ^ (c + 1) := by
    have hlt := (floor_le r.exponent).trans_lt (magnitude_spec (e := e) hm).2
    rw [show (ofBinary m e).magnitude + 1 = ((c + 1 : Nat) : Int) + r.exponent by push_cast; omega,
      zpow_add₀ (by norm_num), zpow_natCast, mul_lt_mul_iff_left₀ (by positivity)] at hlt
    exact_mod_cast hlt
  have hle : r.digits ≤ 10 ^ (c + 1) := by
    rcases h.near with hd | hd <;> omega
  have hdrop : r.dropZero.digits < 10 ^ (c + 1) := by
    unfold Decimal.dropZero
    rw [pow_succ] at hle ⊢
    split_ifs
    · show r.digits / 10 < 10 ^ c * 10
      have := Nat.pow_pos (n := c) (by decide : 0 < 10)
      omega
    · omega
  have hcount := Interval.digitCount_le (Nat.succ_pos c) hdrop
  omega

/-- A decimal that rounds to the double has no fewer digits. -/
theorem Found.minimal {r : Decimal} {last j : Int} {c : Nat} (hm : 0 < m) (h : (ofBinary m e).Found last r)
    (hr : Rounds (c * 10 ^ j) m e) : digitCount r.dropZero.digits ≤ digitCount c := by
  by_contra hlt
  have hcount := h.digitCount_le hm
  have hmag := magnitude_spec (e := e) hm
  have hpos : 0 < digitCount c := Nat.length_toDigits_pos
  -- The grid above the one where the search ended has a decimal that rounds to the double.
  suffices hgrid : ∃ d : Nat, Rounds (d * 10 ^ (r.exponent + 1)) m e by
    obtain ⟨d, hd⟩ := hgrid
    exact onGrid?_ne_none hm hd (h.passed _ (by omega) (by omega))
  have hshift {n : Nat} {k : Int} (hk : r.exponent + 1 ≤ k) :
      ((n * 10 ^ (k - (r.exponent + 1)).toNat : Nat) : ℚ) * 10 ^ (r.exponent + 1) = n * 10 ^ k := by
    push_cast
    rw [mul_assoc, ← zpow_natCast, ← zpow_add₀ (by norm_num)]
    congr 2
    omega
  rcases Int.lt_or_le r.exponent j with hj | hj
  · exact ⟨_, by rw [hshift hj]; exact hr⟩
  · have hlow : (c : ℚ) * 10 ^ j ≤ 10 ^ (ofBinary m e).magnitude := by
      have hc : (c : ℚ) < 10 ^ digitCount c := by exact_mod_cast lt_pow_digitCount c
      calc (c : ℚ) * 10 ^ j ≤ 10 ^ digitCount c * 10 ^ j := by gcongr
        _ = 10 ^ (digitCount c + j : Int) := by rw [zpow_add₀ (by norm_num), zpow_natCast]
        _ ≤ 10 ^ (ofBinary m e).magnitude := zpow_le_zpow_right₀ (by norm_num) (by omega)
    refine ⟨1 * 10 ^ ((ofBinary m e).magnitude - (r.exponent + 1)).toNat, ?_⟩
    rw [hshift (by omega), Nat.cast_one, one_mul]
    exact hr.convex (rounds_self m e) hlow hmag.1

end Interval

theorem Decimal.value_dropZero (r : Decimal) : r.dropZero.value = r.value := by
  unfold dropZero
  split_ifs with h
  · have hdigits : (r.digits : ℚ) = 10 * (r.digits / 10 : Nat) := by exact_mod_cast (by omega)
    rw [value, value, hdigits, zpow_add_one₀ (by norm_num)]
    ring
  · rfl

theorem shortest_found (hm : 0 < m) : (Interval.ofBinary m e).Found ((Interval.ofBinary m e).magnitude - 17)
    ((Interval.ofBinary m e).search 17 (Interval.ofBinary m e).magnitude) :=
  Interval.search_found hm rfl 17 _ le_rfl fun _ hlt hle => absurd hlt (not_lt.2 hle)

/-- The shortest decimal of a double rounds to it. -/
theorem shortest_rounds (hc : Canonical m e) : Rounds (shortest m e).value m e := by
  rw [shortest, Decimal.value_dropZero]
  exact (shortest_found hc.pos).rounds hc

/-- No decimal with fewer digits does. -/
theorem digitCount_shortest_le {c : Nat} {j : Int} (hm : 0 < m) (hr : Rounds (c * 10 ^ j) m e) :
    digitCount (shortest m e).digits ≤ digitCount c :=
  (shortest_found hm).minimal hm hr

end Scriptlet.Number
