import Scriptlet.Proofs.Rounding

/-!
# Decimals are rounded to the nearest double

Reading `d · 10 ^ k` multiplies by a power of ten, or divides by one with as many bits of the quotient as
rounding needs and what is left over as its accuracy. Both describe the number, so the double comes out that
is nearest to it. Decimals that round to a double are not so large or so small that they are not computed.
-/

namespace Scriptlet.Number

open Float.Model UnpackedFloat

variable {m d : Nat} {e k : Int} {q : ℚ}

theorem stands_div {a b : Nat} (hb : 0 < b) :
    Stands (.ofMantissaAndAccuracy (a / b) (accuracyOfFraction (a % b) b)) ((a : ℚ) / b) := by
  have hb' : (0 : ℚ) < b := by exact_mod_cast hb
  have hmod : (a % b : Nat) < (b : ℚ) := by exact_mod_cast Nat.mod_lt a hb
  have hab : (a : ℚ) / b = (a / b : Nat) + (a % b : Nat) / b := by
    have : (a : ℚ) = b * (a / b : Nat) + (a % b : Nat) := by exact_mod_cast (Nat.div_add_mod a b).symm
    rw [eq_comm, ← mul_left_inj' hb'.ne']
    field_simp
    linarith
  rw [hab, accuracyOfFraction]
  set r := (a % b : Nat)
  split_ifs with h0
  · rw [h0]
    simp [Stands, ExtendedMantissa.ofMantissaAndAccuracy]
  · have hpos : (0 : ℚ) < r / b := div_pos (by exact_mod_cast Nat.pos_of_ne_zero h0) hb'
    have hlt : (r : ℚ) / b < 1 := (div_lt_one hb').2 hmod
    rcases lt_trichotomy (2 * r) b with h | h | h
    · have hr : (r : ℚ) / b < 1 / 2 := by
        have : (2 : ℚ) * r < b := by exact_mod_cast h
        rw [div_lt_iff₀ hb']
        linarith
      rw [Nat.compare_eq_lt.2 h]
      simp only [Stands, ExtendedMantissa.ofMantissaAndAccuracy]
      exact ⟨by linarith, by linarith⟩
    · have hr : (r : ℚ) / b = 1 / 2 := by
        have : (2 : ℚ) * r = b := by exact_mod_cast h
        rw [div_eq_iff hb'.ne']
        linarith
      rw [Nat.compare_eq_eq.2 h]
      simp only [Stands, ExtendedMantissa.ofMantissaAndAccuracy]
      rw [hr]
    · have hr : 1 / 2 < (r : ℚ) / b := by
        have : (b : ℚ) < 2 * r := by exact_mod_cast h
        rw [lt_div_iff₀ hb']
        linarith
      rw [Nat.compare_eq_gt.2 h]
      simp only [Stands, ExtendedMantissa.ofMantissaAndAccuracy]
      exact ⟨by linarith, by linarith⟩

theorem Canonical.pow_le (hc : Canonical m e) (hr : Rounds q m e) : 2 ^ (e - 1) ≤ q := by
  have hm : (1 : ℚ) ≤ m := by exact_mod_cast hc.pos
  have hgap := halfGap_le (m := m) (e := e)
  have hpos : (0 : ℚ) < 2 ^ e := by positivity
  calc (2 : ℚ) ^ (e - 1) = 1 / 2 * 2 ^ e := by rw [zpow_sub_one₀ two_ne_zero]; ring
    _ ≤ (m - halfGap m e) * 2 ^ e := by gcongr; linarith
    _ ≤ q := hr.low

theorem two_pow_lt_ten_pow : (2 : ℚ) ^ (1024 : Int) < 10 ^ (309 : Int) := by
  have h : 2 ^ 1024 < 10 ^ 309 := by decide +kernel
  exact_mod_cast h

/-- A power of ten that is at most a number that rounds to a double. -/
theorem Canonical.exponent_lt (hc : Canonical m e) (hr : Rounds q m e) (hk : 10 ^ k ≤ q) :
    k < 309 := by
  have hmost := hc.le_most
  have hlt : (10 : ℚ) ^ k < 10 ^ (309 : Int) := by
    calc (10 : ℚ) ^ k ≤ q := hk
      _ < 2 ^ (53 + e) := hc.lt_pow hr
      _ ≤ 2 ^ (1024 : Int) := zpow_le_zpow_right₀ one_le_two (by omega)
      _ < 10 ^ (309 : Int) := two_pow_lt_ten_pow
  exact (zpow_lt_zpow_iff_right₀ (by norm_num)).1 hlt

/-- A power of ten above a number that rounds to a double. -/
theorem Canonical.lt_exponent (hc : Canonical m e) (hr : Rounds q m e) (hk : q < 10 ^ k) :
    -1075 < k := by
  have hleast := hc.least_le
  have hlt : (10 : ℚ) ^ (-1075 : Int) < 10 ^ k := by
    calc (10 : ℚ) ^ (-1075 : Int) ≤ 2 ^ (-1075 : Int) := by
          rw [zpow_neg, zpow_neg]
          exact inv_anti₀ (zpow_pos two_pos _) (zpow_le_zpow_left₀ (by norm_num) zero_le_two (by norm_num))
      _ ≤ 2 ^ (e - 1) := zpow_le_zpow_right₀ one_le_two (by omega)
      _ ≤ q := hc.pow_le hr
      _ < 10 ^ k := hk
  exact (zpow_lt_zpow_iff_right₀ (by norm_num)).1 hlt

/-- The exponent of a decimal that rounds to a double is not so large that it is not computed. -/
theorem Canonical.exponent_le (hc : Canonical m e) (hd : d ≠ 0) (hr : Rounds (d * 10 ^ k) m e) : k ≤ 2 ^ 11 := by
  have hd' : (1 : ℚ) ≤ d := by exact_mod_cast Nat.one_le_iff_ne_zero.2 hd
  have hlt := hc.exponent_lt hr (le_mul_of_one_le_left (by positivity) hd')
  omega

/-- Nor is it so small. -/
theorem Canonical.le_exponent (hc : Canonical m e) (hr : Rounds (d * 10 ^ k) m e) : -(2 ^ 11 + d.log2 : Int) ≤ k := by
  have hd : (d : ℚ) < 10 ^ (d.log2 + 1) := by
    exact_mod_cast Nat.lt_log2_self.trans_le (Nat.pow_le_pow_left (by decide) _)
  have hpow : (d : ℚ) * 10 ^ k < 10 ^ ((d.log2 + 1 : Nat) + k) := by
    rw [zpow_add₀ (by norm_num), zpow_natCast]
    gcongr
  have hlt := hc.lt_exponent hr hpow
  omega

theorem mul_round_eq (hd : d ≠ 0) {n : Nat} (hc : Canonical m e) (hr : Rounds (d * 10 ^ n) m e) (s : Sign) :
    roundWithAccuracy Format.binary64 s (d <<< 53 * 10 ^ n) (-53 + 0) .exact = .finite s m e hc.pos := by
  have hN : d <<< 53 * 10 ^ n ≠ 0 := by rw [Nat.shiftLeft_eq]; positivity
  have hlog : 53 ≤ (d <<< 53 * 10 ^ n).log2 := by
    rw [Nat.le_log2 hN, Nat.shiftLeft_eq, mul_right_comm]
    exact Nat.le_mul_of_pos_left _ (by positivity)
  refine Describes.roundWithAccuracy_eq (.of_exact ?_) ?_ hc hr s
  · rw [Nat.shiftLeft_eq]
    push_cast
    norm_num
    ring
  · rw [totalExponent]
    omega

/-- The quotient of two naturals, with as many bits as rounding needs. -/
theorem div_round_eq (hd : d ≠ 0) {b : Nat} (hb : b ≠ 0) (hc : Canonical m e) (hr : Rounds ((d : ℚ) / b) m e)
    (s : Sign) : roundWithAccuracy Format.binary64 s (divCore Format.binary64 d 0 b 0).1
      (divCore Format.binary64 d 0 b 0).2.1 (divCore Format.binary64 d 0 b 0).2.2 = .finite s m e hc.pos := by
  obtain ⟨t, ht⟩ : ∃ t : Int, t = min (0 - 0) (max (totalExponent d 0 - totalExponent b 0 - 53) (-1074)) :=
    ⟨_, rfl⟩
  have hcore : divCore Format.binary64 d 0 b 0 = (d <<< (0 - 0 - t).toNat / b, t,
      accuracyOfFraction (d <<< (0 - 0 - t).toNat % b) b) := by
    rw [divCore, targetExponent_eq, ← ht]
  have hdesc : Describes (d <<< (0 - 0 - t).toNat / b) t
      (accuracyOfFraction (d <<< (0 - 0 - t).toNat % b) b) ((d : ℚ) / b) := by
    have hshift : ((d <<< (0 - 0 - t).toNat : Nat) : ℚ) / b = (d : ℚ) / b / 2 ^ t := by
      have hpow : (2 : ℚ) ^ t = (2 ^ (0 - 0 - t).toNat)⁻¹ := by
        rw [← zpow_natCast, ← zpow_neg]
        congr 1
        omega
      rw [Nat.shiftLeft_eq, hpow, div_inv_eq_mul]
      push_cast
      ring
    rw [Describes, ← hshift]
    exact stands_div (Nat.pos_of_ne_zero hb)
  have hlow : (2 : ℚ) ^ (totalExponent d 0 - totalExponent b 0 - 1) ≤ d / b := by
    have hd' : (2 : ℚ) ^ d.log2 ≤ d := by exact_mod_cast Nat.log2_self_le hd
    have hb' : (b : ℚ) ≤ 2 ^ (b.log2 + 1) := by exact_mod_cast Nat.lt_log2_self.le
    have hpos : (0 : ℚ) < b := by exact_mod_cast Nat.pos_of_ne_zero hb
    calc (2 : ℚ) ^ (totalExponent d 0 - totalExponent b 0 - 1) = 2 ^ d.log2 / 2 ^ (b.log2 + 1) := by
          rw [← zpow_natCast, ← zpow_natCast, ← zpow_sub₀ two_ne_zero]
          congr 1
          rw [totalExponent, totalExponent]
          push_cast
          ring
      _ ≤ d / b := by gcongr
  have hlt := hdesc.lt_total hlow
  rw [hcore]
  exact hdesc.roundWithAccuracy_eq (by omega) hc hr s

/-- Reading a decimal gives the double that is nearest to it. -/
theorem unpack_ofDecimal (hd : d ≠ 0) (hc : Canonical m e) (hr : Rounds (d * 10 ^ k) m e) :
    (ofDecimal d k).toModel.unpack = .finite .positive m e hc.pos := by
  have hsci : UnpackedFloat.ofScientific Format.binary64 d k = .finite .positive m e hc.pos := by
    have hk := hc.exponent_le hd hr
    have hk' := hc.le_exponent hr
    unfold UnpackedFloat.ofScientific
    rw [dif_neg hd, if_neg (by push_cast; omega), if_neg (by push_cast; omega)]
    split_ifs with h0
    · obtain ⟨n, rfl⟩ := Int.eq_ofNat_of_zero_le h0
      exact mul_round_eq hd hc hr _
    · have hpow : (10 : ℚ) ^ k = (10 ^ (-k).toNat)⁻¹ := by
        rw [← zpow_natCast, ← zpow_neg]
        congr 1
        omega
      rw [hpow, ← div_eq_mul_inv] at hr
      exact div_round_eq hd (pow_ne_zero _ (by decide)) hc (by push_cast; exact hr) .positive
  change (Float.Model.pack (UnpackedFloat.ofScientific Format.binary64 d k)).unpack = _
  rw [hsci]
  exact hc.unpack_pack .positive

end Scriptlet.Number
