import Scriptlet.Proofs.Rounding
import Scriptlet.Value.Operation

/-!
# Words of 32 bits

The word of a number is its integer part modulo `2 ^ 32`. It is computed in floating point, and each step is
exact: the integer part of a double is a double, so is the remainder, and what is added to or taken from it
keeps it within 53 bits; the cast at the end never cuts off. So the bitwise operators and the shifts are
those of integers in two's complement.
-/

namespace Scriptlet.Number

open Float.Model UnpackedFloat

variable {m n N : Nat} {e E k i j : Int} {s : Sign} {p q : ℚ} {x y : Float}

/-- The integer part of a rational number, towards zero. -/
def truncated (q : ℚ) : Int := if 0 ≤ q then ⌊q⌋ else ⌈q⌉

/-- The integer part of what a double denotes; zero if it is not finite. -/
def integerPart (x : Float) : Int := truncated ((value? x).getD 0)

@[simp] theorem truncated_intCast (i : Int) : truncated i = i := by
  unfold truncated
  split_ifs
  · exact Int.floor_intCast i
  · exact Int.ceil_intCast i

theorem truncated_neg (q : ℚ) : truncated (-q) = -truncated q := by
  unfold truncated
  rcases lt_trichotomy q 0 with h | rfl | h
  · rw [if_pos (by linarith), if_neg (by linarith), Int.floor_neg]
  · simp
  · rw [if_neg (by linarith), if_pos h.le, Int.ceil_neg]

theorem truncated_apply_mul (s : Sign) (q : ℚ) : truncated ((s.apply 1 : Int) * q) = s.apply (truncated q) := by
  cases s with
  | positive => simp [Sign.apply]
  | negative => simp [Sign.apply, truncated_neg]

theorem truncated_natCast_div (m d : Nat) : truncated ((m : ℚ) / d) = (m / d : Nat) := by
  rw [truncated, if_pos (by positivity)]
  exact Rat.floor_natCast_div_natCast m d

/-! ### Steps in floating point -/

/-- The integer part of a double is a double. -/
theorem value?_truncate (h : value? x = some q) : value? (truncate x) = some (truncated q : ℚ) := by
  rcases unpack_of_value? h with ⟨s, hu, rfl⟩ | ⟨s, m, e, hc, hu, rfl⟩
  · rw [truncate, hu, h]
    simp [truncated]
  · rw [truncate, hu]
    rcases le_or_gt 0 e with he | he
    · obtain ⟨d, rfl⟩ := Int.eq_ofNat_of_zero_le he
      have hint : (s.apply m : ℚ) * 2 ^ (d : Int) = (s.apply m * 2 ^ d : Int) := by push_cast; rfl
      rw [hint, truncated_intCast, ← hint]
      refine value?_ofBinary_of_canonical hc ?_ s
      simp [twoTo]
    · obtain ⟨d, hd⟩ : ∃ d : Nat, e = -(d : Int) := ⟨(-e).toNat, by omega⟩
      subst hd
      have hval : (s.apply m : ℚ) * 2 ^ (-(d : Int)) = (s.apply 1 : Int) * ((m : ℚ) / (2 ^ d : Nat)) := by
        rw [apply_cast, zpow_neg, zpow_natCast]
        push_cast
        ring
      rw [hval, truncated_apply_mul, truncated_natCast_div]
      refine value?_ofBinary ((Nat.div_le_self _ _).trans_lt hc.lt) ?_ s
      simp [twoTo]

/-- The remainder of two naturals, from mantissas of theirs with a common exponent. -/
theorem mod_mul_pow {a b n d : Nat} (hd : 0 < d) (ha : (a : ℚ) * 2 ^ e = n) (hb : (b : ℚ) * 2 ^ e = d) :
    ((a % b : Nat) : ℚ) * 2 ^ e = (n % d : Nat) := by
  have hpos : (0 : ℚ) < 2 ^ e := by positivity
  have hbpos : 0 < b := by
    have : (0 : ℚ) < b * 2 ^ e := hb ▸ Nat.cast_pos.2 hd
    exact_mod_cast pos_of_mul_pos_left this hpos.le
  have hsum : ((a % b : Nat) : ℚ) * 2 ^ e = n - d * (a / b : Nat) := by
    have hab : (a : ℚ) = b * (a / b : Nat) + (a % b : Nat) := by exact_mod_cast (Nat.div_add_mod a b).symm
    rw [← ha, ← hb, hab]
    ring
  have hnonneg : (0 : ℚ) ≤ (a % b : Nat) * 2 ^ e := by positivity
  have hlt : ((a % b : Nat) : ℚ) * 2 ^ e < d := by
    rw [← hb]
    have : ((a % b : Nat) : ℚ) < b := by exact_mod_cast Nat.mod_lt a hbpos
    gcongr
  have hquot : n / d = a / b := by
    refine Nat.div_eq_of_lt_le ?_ ?_
    · have : ((a / b * d : Nat) : ℚ) ≤ n := by push_cast; linarith
      exact_mod_cast this
    · have : (n : ℚ) < ((a / b + 1) * d : Nat) := by push_cast; linarith
      exact_mod_cast this
  have hmod : (n : ℚ) = d * (n / d : Nat) + (n % d : Nat) := by exact_mod_cast (Nat.div_add_mod n d).symm
  rw [hquot] at hmod
  linarith

theorem natAbs_of_apply (h : (s.apply m : ℚ) * 2 ^ e = i) : (m : ℚ) * 2 ^ e = i.natAbs := by
  have hpos : (0 : ℚ) ≤ m * 2 ^ e := by positivity
  rw [Nat.cast_natAbs, Int.cast_abs, ← h, ← abs_of_nonneg hpos]
  cases s <;> simp [Sign.apply]

theorem eq_apply_natAbs (h : (s.apply m : ℚ) * 2 ^ e = i) : i = s.apply i.natAbs := by
  have habs := natAbs_of_apply h
  rw [apply_cast, mul_assoc, habs, ← apply_cast] at h
  exact_mod_cast h.symm

theorem tmod_apply (s : Sign) (n : Nat) (j : Int) : (s.apply n).tmod j = s.apply (n % j.natAbs : Nat) := by
  have hpos : (n : Int).tmod j = (n % j.natAbs : Nat) := by cases j <;> rfl
  cases s with
  | positive => exact hpos
  | negative => exact (Int.neg_tmod _ _).trans (congrArg Neg.neg hpos)

/-- The remainder of two integers is exact, and has the sign of the first. -/
theorem value?_remainder (hx : value? x = some (i : ℚ)) (hy : value? y = some (j : ℚ)) (hj : j ≠ 0)
    (hlt : j.natAbs < 2 ^ 53) : value? (remainder x y) = some (i.tmod j : ℚ) := by
  rcases unpack_of_value? hy with ⟨s₂, -, h⟩ | ⟨s₂, m₂, e₂, hc₂, hu₂, hj'⟩
  · exact absurd (by exact_mod_cast h) hj
  rcases unpack_of_value? hx with ⟨s₁, hu₁, h⟩ | ⟨s₁, m₁, e₁, hc₁, hu₁, hi'⟩
  · obtain rfl : i = 0 := by exact_mod_cast h
    rw [remainder, hu₁, hu₂]
    simpa using hx
  · rw [remainder, hu₁, hu₂]
    set e := min e₁ e₂
    have halign {m : Nat} {e' : Int} (he : e ≤ e') :
        ((m * twoTo (e' - e).toNat : Nat) : ℚ) * 2 ^ e = m * 2 ^ e' := by
      have : (2 : ℚ) ^ e' = 2 ^ (e' - e).toNat * 2 ^ e := by
        rw [← zpow_natCast, ← zpow_add₀ two_ne_zero]
        congr 1
        omega
      rw [this]
      simp [twoTo, mul_assoc]
    have hmod := mod_mul_pow (Int.natAbs_pos.2 hj) ((halign (min_le_left _ _)).trans (natAbs_of_apply hi'.symm))
      ((halign (min_le_right _ _)).trans (natAbs_of_apply hj'.symm))
    rw [eq_apply_natAbs hi'.symm, tmod_apply]
    exact value?_ofBinary ((Nat.mod_lt _ (Int.natAbs_pos.2 hj)).trans hlt) hmod s₁

theorem value?_normalize {M : Int} (hj : j.natAbs < 2 ^ 53) (h : (M : ℚ) * 2 ^ E = j) :
    value? (.ofModel (Float.Model.pack (UnpackedFloat.normalize Format.binary64 M E .positive))) =
      some (j : ℚ) := by
  have hround (s : Sign) (N : Nat) (hM : M = s.apply N) : value? (ofBinary s N E) = some (j : ℚ) := by
    have hN : (s.apply N : ℚ) * 2 ^ E = j := hM ▸ h
    rw [value?_ofBinary hj (natAbs_of_apply hN), ← eq_apply_natAbs hN]
  unfold UnpackedFloat.normalize
  rcases lt_trichotomy M 0 with hM | rfl | hM
  · rw [compare_lt_iff_lt.2 hM]
    exact hround .negative (-M).toNat (by rw [Sign.apply]; omega)
  · rw [compare_eq_iff_eq.2 rfl, value?_pack_zero, ← h]
    simp
  · rw [compare_gt_iff_gt.2 hM]
    exact hround .positive M.toNat (by rw [Sign.apply]; omega)

/-- A finite double that is not zero, with its mantissa shifted to a smaller exponent. -/
theorem shift_of_value? (hx : value? x = some (i : ℚ)) (hi : i ≠ 0) :
    ∃ s m e, ∃ hm : 0 < m, x.toModel.unpack = .finite s m e hm ∧ ∀ t ≤ e,
      (s.apply (m <<< (e - t).toNat : Nat) : ℚ) * 2 ^ t = i := by
  rcases unpack_of_value? hx with ⟨s, -, h⟩ | ⟨s, m, e, hc, hu, h⟩
  · exact absurd (by exact_mod_cast h) hi
  · refine ⟨s, m, e, hc.pos, hu, fun t ht => ?_⟩
    have hpow : (2 : ℚ) ^ e = 2 ^ (e - t).toNat * 2 ^ t := by
      rw [← zpow_natCast, ← zpow_add₀ two_ne_zero]
      congr 1
      omega
    rw [h, Nat.shiftLeft_eq, apply_cast, apply_cast, hpow]
    push_cast
    ring

/-- The sum of two integers is rounded once. -/
theorem add_eq_normalize (hx : value? x = some (i : ℚ)) (hy : value? y = some (j : ℚ)) (hi : i ≠ 0) (hj : j ≠ 0) :
    ∃ (M : Int) (E : Int), (M : ℚ) * 2 ^ E = (i + j : Int) ∧
      x + y = .ofModel (Float.Model.pack (UnpackedFloat.normalize Format.binary64 M E .positive)) := by
  change ∃ (M : Int) (E : Int), _ ∧
    Float.ofModel (Float.Model.pack (UnpackedFloat.add _ x.toModel.unpack y.toModel.unpack)) = _
  obtain ⟨s₁, m₁, e₁, hm₁, hu₁, h₁⟩ := shift_of_value? hx hi
  obtain ⟨s₂, m₂, e₂, hm₂, hu₂, h₂⟩ := shift_of_value? hy hj
  rw [hu₁, hu₂]
  refine ⟨_, _, ?_, rfl⟩
  rw [Int.cast_add, add_mul, h₁ _ (min_le_left _ _), h₂ _ (min_le_right _ _), Int.cast_add]

theorem value?_add (hx : value? x = some (i : ℚ)) (hy : value? y = some (j : ℚ)) (hi : i ≠ 0) (hj : j ≠ 0)
    (hlt : (i + j).natAbs < 2 ^ 53) : value? (x + y) = some ((i + j : Int) : ℚ) := by
  obtain ⟨M, E, hM, hsum⟩ := add_eq_normalize hx hy hi hj
  rw [hsum]
  exact value?_normalize hlt hM

theorem value?_sub (hx : value? x = some (i : ℚ)) (hy : value? y = some (j : ℚ)) (hi : i ≠ 0) (hj : j ≠ 0)
    (hlt : (i - j).natAbs < 2 ^ 53) : value? (x - y) = some ((i - j : Int) : ℚ) := by
  change value? (.ofModel (Float.Model.pack (UnpackedFloat.sub _ x.toModel.unpack y.toModel.unpack))) = _
  obtain ⟨s₁, m₁, e₁, hm₁, hu₁, h₁⟩ := shift_of_value? hx hi
  obtain ⟨s₂, m₂, e₂, hm₂, hu₂, h₂⟩ := shift_of_value? hy hj
  rw [hu₁, hu₂]
  refine value?_normalize hlt ?_
  rw [Int.cast_sub, sub_mul, h₁ _ (min_le_left _ _), h₂ _ (min_le_right _ _), Int.cast_sub]

/-! ### The integer part modulo `2 ^ 32` -/

theorem value?_zero : value? 0.0 = some 0 := rfl

theorem value?_two_pow_32 : value? 4294967296.0 = some ((2 ^ 32 : Int) : ℚ) := by
  have h : value? 4294967296.0 = some ((Sign.positive.apply (2 ^ 52 : Nat) : ℚ) * 2 ^ (-20 : Int)) := rfl
  rw [h]
  norm_num [Sign.apply]

theorem value?_two_pow_31 : value? 2147483648.0 = some ((2 ^ 31 : Int) : ℚ) := by
  have h : value? 2147483648.0 = some ((Sign.positive.apply (2 ^ 52 : Nat) : ℚ) * 2 ^ (-21 : Int)) := rfl
  rw [h]
  norm_num [Sign.apply]

theorem value?_leastRemainder (hx : value? x = some (i : ℚ)) :
    value? (leastRemainder x 4294967296.0) = some ((i % 2 ^ 32 : Int) : ℚ) := by
  have hr := value?_remainder hx value?_two_pow_32 (by norm_num) (by norm_num)
  have habs : value? (4294967296.0 : Float).abs = some ((2 ^ 32 : Int) : ℚ) := value?_two_pow_32
  have hneg := lt_iff_of_value? hr value?_zero
  have hsum : 2 ^ 32 * i.tdiv (2 ^ 32) + i.tmod (2 ^ 32) = i := Int.mul_tdiv_add_tmod i (2 ^ 32)
  have hlt := Int.tmod_lt_of_pos i (b := 2 ^ 32) (by norm_num)
  have hgt := Int.lt_tmod_of_pos i (b := 2 ^ 32) (by norm_num)
  unfold leastRemainder
  dsimp only
  split_ifs with h
  · have h0 : i.tmod (2 ^ 32) < 0 := by exact_mod_cast hneg.1 h
    rw [value?_add hr habs h0.ne (by norm_num) (by omega)]
    congr 2
    omega
  · have h0 : 0 ≤ i.tmod (2 ^ 32) := by exact_mod_cast not_lt.1 fun hlt => h (hneg.2 hlt)
    rw [hr]
    congr 2
    omega

/-- The integer part modulo `2 ^ 32` is exact. -/
theorem value?_modulo32 (x : Float) : value? (modulo32 x) = some ((integerPart x % 2 ^ 32 : Int) : ℚ) := by
  unfold modulo32 integerPart
  rw [isFinite_eq]
  cases h : value? x with
  | none => simp [truncated, value?_zero]
  | some q =>
    have hzero := beq_iff_of_value? h value?_zero
    simp only [Option.isSome_some, Bool.not_true, Bool.false_or, Option.getD_some]
    split_ifs with h0
    · rw [hzero.1 h0]
      simp [truncated, value?_zero]
    · exact value?_leastRemainder (value?_truncate h)

/-! ### Casts -/

/-- The integer of a double that denotes one. -/
theorem toInt_of_value? (h : value? x = some (i : ℚ)) (lo hi : Int) : x.toModel.unpack.toInt lo hi = i := by
  rcases unpack_of_value? h with ⟨s, hu, h0⟩ | ⟨s, m, e, hc, hu, hi⟩
  · rw [hu]
    exact_mod_cast h0.symm
  · rw [hu]
    have habs := natAbs_of_apply hi.symm
    have hdesc : Describes (m <<< (e - 0).toNat) (e - (e - 0).toNat) .exact i.natAbs := by
      have hpow : (2 : ℚ) ^ e = 2 ^ (e - 0).toNat * 2 ^ (e - (e - 0).toNat) := by
        rw [← zpow_natCast, ← zpow_add₀ two_ne_zero]
        congr 1
        omega
      refine .of_exact ?_
      rw [← habs, hpow, Nat.shiftLeft_eq]
      push_cast
      ring
    obtain ⟨em, hem, hst⟩ := hdesc.shiftToExponent (t := 0) (by omega)
    have hmant : em.mantissa = i.natAbs := by
      have hle := hst.le
      have hlt := hst.lt
      rw [zpow_zero, div_one] at hle hlt
      have : em.mantissa ≤ i.natAbs := by exact_mod_cast hle
      have : i.natAbs < em.mantissa + 1 := by exact_mod_cast hlt
      omega
    change s.apply (UnpackedFloat.shiftToExponent (m <<< (e - 0).toNat) (e - (e - 0).toNat) .exact 0).1.mantissa = i
    rw [hem, hmant, ← eq_apply_natAbs hi.symm]

theorem toNat_toUInt32 (h : value? x = some (i : ℚ)) (h0 : 0 ≤ i) (hlt : i < 2 ^ 32) :
    (x.toUInt32.toBitVec.toNat : Int) = i := by
  have hint := toInt_of_value? h 0 (UInt32.size - 1)
  have hclamp : (UInt32.ofNatClamp i.toNat).toNat = i.toNat := UInt32.toNat_ofNatClamp_of_lt (by
    show i.toNat < 2 ^ 32
    omega)
  change (((UInt32.ofNatClamp (x.toModel.unpack.toInt 0 (UInt32.size - 1)).toNat).toNat : Nat) : Int) = i
  rw [hint, hclamp]
  omega

theorem toInt_toInt32 (h : value? x = some (i : ℚ)) (hle : -2 ^ 31 ≤ i) (hlt : i < 2 ^ 31) :
    x.toModel.toInt32.toBitVec.toInt = i := by
  have hint := toInt_of_value? h Int32.minValue.toInt Int32.maxValue.toInt
  have hmin : Int32.minValue.toInt = -2 ^ 31 := by decide
  have hmax : Int32.maxValue.toInt = 2 ^ 31 - 1 := by decide
  change (Int32.ofIntClamp (x.toModel.unpack.toInt Int32.minValue.toInt Int32.maxValue.toInt)).toInt = i
  rw [hint, Int32.toInt_ofIntClamp (by omega) (by omega)]

/-- The word of a number is its integer part modulo `2 ^ 32`. -/
theorem toNat_word (x : Float) : ((word x).toNat : Int) = integerPart x % 2 ^ 32 :=
  toNat_toUInt32 (value?_modulo32 x) (Int.emod_nonneg _ (by norm_num)) (Int.emod_lt_of_pos _ (by norm_num))

/-- The integer between `-2 ^ 31` and `2 ^ 31` with the bits of a word. -/
def signedReading (n : Nat) : Int := if n < 2 ^ 31 then n else n - 2 ^ 32

theorem toInt_eq_signedReading (w : BitVec 32) : w.toInt = signedReading w.toNat := by
  rw [BitVec.toInt_eq_toNat_cond, signedReading]
  split_ifs <;> omega

/-- With a sign it is the same word. -/
theorem signedWord_eq (x : Float) : signedWord x = word x := by
  refine BitVec.eq_of_toInt_eq ?_
  have hm := value?_modulo32 x
  have hword := toNat_word x
  have hlt := (word x).isLt
  rw [← hword] at hm
  have hge := le_iff_of_value? value?_two_pow_31 hm
  rw [toInt_eq_signedReading (word x), signedReading]
  unfold signedWord
  dsimp only
  split_ifs with h h' h'
  · have : (2 ^ 31 : Int) ≤ (word x).toNat := by exact_mod_cast hge.1 h
    omega
  · have hsub := value?_sub hm value?_two_pow_32 (by omega) (by norm_num) (by omega)
    exact toInt_toInt32 hsub (by omega) (by omega)
  · exact toInt_toInt32 hm (by omega) (by omega)
  · refine absurd (hge.2 ?_) h
    have : (2 ^ 31 : Int) ≤ (word x).toNat := by omega
    exact_mod_cast this

/-! ### Operators -/

theorem value?_ofNat (hn : n < 2 ^ 53) : value? (ofNat n) = some ((n : Int) : ℚ) :=
  value?_ofBinary hn (by rw [zpow_zero, mul_one]) .positive

theorem value?_ofInt (hi : i.natAbs < 2 ^ 53) : value? (ofInt i) = some (i : ℚ) := by
  rw [ofInt, value?_ofBinary hi (by rw [zpow_zero, mul_one])]
  congr 2
  split_ifs <;> rw [Sign.apply] <;> omega

theorem value?_ofUnsigned (w : BitVec 32) : value? (ofUnsigned w) = some ((w.toNat : Int) : ℚ) := by
  have hlt := w.isLt
  exact value?_ofNat (by omega)

theorem value?_ofSigned (w : BitVec 32) : value? (ofSigned w) = some (signedReading w.toNat : ℚ) := by
  have hle := BitVec.le_toInt w
  have hlt := BitVec.toInt_lt (x := w)
  rw [ofSigned, value?_ofInt (by omega), toInt_eq_signedReading]

theorem shiftDistance_eq (w : BitVec 32) : shiftDistance w = w.toNat % 32 := by
  rw [shiftDistance, BitVec.toNat_and]
  exact Nat.and_two_pow_sub_one_eq_mod w.toNat 5

end Number

open Number

/-- The value is a number that denotes the integer exactly. -/
def Value.IsInteger (v : Value) (i : Int) : Prop := ∃ x, v = .number x ∧ value? x = some (i : ℚ)

namespace Value

theorem isInteger_ofSigned (w : BitVec 32) : (number (ofSigned w)).IsInteger (signedReading w.toNat) :=
  ⟨_, rfl, value?_ofSigned w⟩

theorem isInteger_ofUnsigned (w : BitVec 32) : (number (ofUnsigned w)).IsInteger w.toNat :=
  ⟨_, rfl, value?_ofUnsigned w⟩

end Value

theorem Value.toSignedWord_eq (v : Value) : v.toSignedWord = v.toWord := signedWord_eq v.toNumber

namespace BinaryOp

variable (a b : Value)

theorem bitAnd_isInteger : (bitAnd.apply a b).IsInteger (signedReading (a.toWord.toNat &&& b.toWord.toNat)) := by
  rw [apply, a.toSignedWord_eq, b.toSignedWord_eq, ← BitVec.toNat_and]
  exact Value.isInteger_ofSigned _

theorem bitOr_isInteger : (bitOr.apply a b).IsInteger (signedReading (a.toWord.toNat ||| b.toWord.toNat)) := by
  rw [apply, a.toSignedWord_eq, b.toSignedWord_eq, ← BitVec.toNat_or]
  exact Value.isInteger_ofSigned _

theorem bitXor_isInteger : (bitXor.apply a b).IsInteger (signedReading (a.toWord.toNat ^^^ b.toWord.toNat)) := by
  rw [apply, a.toSignedWord_eq, b.toSignedWord_eq, ← BitVec.toNat_xor]
  exact Value.isInteger_ofSigned _

theorem leftShift_isInteger : (leftShift.apply a b).IsInteger
    (signedReading (a.toWord.toNat * 2 ^ (b.toWord.toNat % 32) % 2 ^ 32)) := by
  rw [apply, a.toSignedWord_eq, shiftDistance_eq, ← Nat.shiftLeft_eq, ← BitVec.toNat_shiftLeft]
  exact Value.isInteger_ofSigned _

theorem rightShift_isInteger : (rightShift.apply a b).IsInteger
    ⌊(signedReading a.toWord.toNat : ℚ) / 2 ^ (b.toWord.toNat % 32)⌋ := by
  have hfloor := Rat.floor_intCast_div_natCast (signedReading a.toWord.toNat) (2 ^ (b.toWord.toNat % 32))
  push_cast at hfloor
  have h := Value.isInteger_ofSigned (a.toWord.sshiftRight (b.toWord.toNat % 32))
  rw [← toInt_eq_signedReading, BitVec.toInt_sshiftRight, Int.shiftRight_eq_div_pow, toInt_eq_signedReading] at h
  rw [apply, a.toSignedWord_eq, shiftDistance_eq, hfloor]
  exact_mod_cast h

theorem unsignedRightShift_isInteger : (unsignedRightShift.apply a b).IsInteger
    ⌊(a.toWord.toNat : ℚ) / 2 ^ (b.toWord.toNat % 32)⌋ := by
  have hfloor := Rat.floor_natCast_div_natCast a.toWord.toNat (2 ^ (b.toWord.toNat % 32))
  push_cast at hfloor
  have h := Value.isInteger_ofUnsigned (a.toWord >>> (b.toWord.toNat % 32))
  rw [BitVec.toNat_ushiftRight, Nat.shiftRight_eq_div_pow] at h
  rw [apply, shiftDistance_eq, hfloor]
  exact_mod_cast h

end BinaryOp

theorem signedReading_not {n : Nat} (h : n < 2 ^ 32) : signedReading (2 ^ 32 - 1 - n) = -signedReading n - 1 := by
  unfold signedReading
  split_ifs <;> omega

theorem UnaryOp.bitNot_isInteger (a : Value) :
    (bitNot.apply a).IsInteger (-signedReading a.toWord.toNat - 1) := by
  rw [apply, a.toSignedWord_eq, ← signedReading_not a.toWord.isLt, ← BitVec.toNat_not]
  exact Value.isInteger_ofSigned _

/-- The word of a number is its integer part modulo `2 ^ 32`, zero if it is not finite, and with a sign the
integer of 32 bits that is congruent to it. The bitwise operators and the shifts are those of the words, and
their results are integers that doubles represent exactly. -/
theorem word_operators_exact :
    (∀ x, ((word x).toNat : Int) = integerPart x % 2 ^ 32 ∧
      (signedWord x).toInt = signedReading (word x).toNat ∧
      -2 ^ 31 ≤ (signedWord x).toInt ∧ (signedWord x).toInt < 2 ^ 31 ∧
      (signedWord x).toInt ≡ integerPart x [ZMOD 2 ^ 32]) ∧
    (∀ x, x.isFinite = false → word x = 0 ∧ signedWord x = 0) ∧
    ∀ a b : Value,
      let A := (word a.toNumber).toNat
      let B := (word b.toNumber).toNat
      let c := B % 32
      (BinaryOp.bitAnd.apply a b).IsInteger (signedReading (A &&& B)) ∧
      (BinaryOp.bitOr.apply a b).IsInteger (signedReading (A ||| B)) ∧
      (BinaryOp.bitXor.apply a b).IsInteger (signedReading (A ^^^ B)) ∧
      (BinaryOp.leftShift.apply a b).IsInteger (signedReading (A * 2 ^ c % 2 ^ 32)) ∧
      (BinaryOp.rightShift.apply a b).IsInteger ⌊(signedReading A : ℚ) / 2 ^ c⌋ ∧
      (BinaryOp.unsignedRightShift.apply a b).IsInteger ⌊(A : ℚ) / 2 ^ c⌋ ∧
      (UnaryOp.bitNot.apply a).IsInteger (-signedReading A - 1) := by
  refine ⟨fun x => ?_, fun x hx => ?_, fun a b => ⟨BinaryOp.bitAnd_isInteger a b, BinaryOp.bitOr_isInteger a b,
    BinaryOp.bitXor_isInteger a b, BinaryOp.leftShift_isInteger a b, BinaryOp.rightShift_isInteger a b,
    BinaryOp.unsignedRightShift_isInteger a b, UnaryOp.bitNot_isInteger a⟩⟩
  · have hword := toNat_word x
    have hsigned : (signedWord x).toInt = signedReading (word x).toNat := by
      rw [signedWord_eq, toInt_eq_signedReading]
    refine ⟨hword, hsigned, BitVec.le_toInt _, BitVec.toInt_lt, ?_⟩
    rw [hsigned, signedReading, Int.ModEq]
    split_ifs <;> omega
  · have hnone : value? x = none := by
      rw [← Option.not_isSome_iff_eq_none, ← isFinite_eq, hx]
      exact Bool.false_ne_true
    have hword : word x = 0 := by
      have h := toNat_word x
      rw [integerPart, hnone, Option.getD_none, ← Int.cast_zero, truncated_intCast] at h
      exact BitVec.eq_of_toNat_eq (by exact_mod_cast h)
    exact ⟨hword, (signedWord_eq x).trans hword⟩

/-- One shifted to the place of the sign. -/
theorem word_operators_exact_sign :
    (BinaryOp.leftShift.apply (.number 1.0) (.number 31.0)).IsInteger (-2 ^ 31) ∧
      word (0.0 / 0.0) = 0 ∧ signedWord (0.0 / 0.0) = 0 :=
  ⟨(word_operators_exact.2.2 (.number 1.0) (.number 31.0)).2.2.2.1, word_operators_exact.2.1 (0.0 / 0.0) rfl⟩

end Scriptlet
