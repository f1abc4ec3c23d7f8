import Mathlib
import Scriptlet.Number.Binary

/-!
# Doubles as rational numbers

A finite double denotes `± m · 2 ^ e`, where `m` has 53 bits or `e` is the least exponent (`Canonical`).
This form is unique, doubles are compared as the rational numbers that they denote, and packing such a form
loses nothing.
-/

namespace Scriptlet.Number

open Float.Model UnpackedFloat

variable {m m' : Nat} {e e' : Int} {s : Sign} {x y : Float} {p q : ℚ}

/-- The mantissas and exponents of finite doubles. -/
structure Canonical (m : Nat) (e : Int) : Prop where
  pos : 0 < m
  lt : m < 2 ^ 53
  least_le : -1074 ≤ e
  le_most : e ≤ 971
  normal : -1074 < e → 2 ^ 52 ≤ m

/-- The rational number `± m · 2 ^ e`; none for infinities and what is not a number. -/
def rational? : UnpackedFloat → Option ℚ
  | .finite s m e _ => some (s.apply m * 2 ^ e)
  | .zero _ => some 0
  | _ => none

/-- The rational number that a double denotes, if it is finite. -/
def value? (x : Float) : Option ℚ := rational? x.toModel.unpack

/-! ### Packing -/

theorem toNat_one_append (b : BitVec 52) : (1#1 ++ b).toNat = 2 ^ 52 + b.toNat := by
  have h := Nat.two_pow_add_eq_or_of_lt b.isLt 1
  rw [BitVec.toNat_append, Nat.shiftLeft_eq, Nat.mul_comm]
  exact h.symm

theorem canonical_of_unpack {hm : 0 < m} (h : x.toModel.unpack = .finite s m e hm) : Canonical m e := by
  unfold Float.Model.unpack UnpackedFloat.unpack at h
  set mant : BitVec 52 := @unpackMantissa Format.binary64 x.toModel.toBits.toBitVec
  set expo : BitVec 11 := @unpackExponent Format.binary64 x.toModel.toBits.toBitVec
  have hmant := mant.isLt
  have hexpo := expo.isLt
  have hbias : (Format.binary64.exponentBias : Int) = 1023 := rfl
  simp only [hbias] at h
  split_ifs at h with h₁ h₂ h₃ h₄
  · cases h
    have he : expo.toNat = 0 := by rw [h₃]; rfl
    exact ⟨hm, by omega, by omega, by omega, by omega⟩
  · have he₁ : expo.toNat ≠ 2047 := fun h => h₁ (BitVec.eq_of_toNat_eq h)
    have he₂ : expo.toNat ≠ 0 := fun h => h₃ (BitVec.eq_of_toNat_eq h)
    injection h with _ hmant' he
    rw [toNat_one_append mant] at hmant'
    exact ⟨hm, by omega, by omega, by omega, by omega⟩

/-- A finite double is a zero, or has a mantissa and an exponent of the format. -/
theorem unpack_of_value? (h : value? x = some q) :
    (∃ s, x.toModel.unpack = .zero s ∧ q = 0) ∨
      ∃ s m e, ∃ hc : Canonical m e, x.toModel.unpack = .finite s m e hc.pos ∧ q = (s.apply m : ℚ) * 2 ^ e := by
  unfold value? at h
  cases hu : x.toModel.unpack with
  | notANumber | infinity _ => rw [hu] at h; cases h
  | zero s => rw [hu] at h; cases h; exact .inl ⟨s, rfl, rfl⟩
  | finite s m e hm =>
    rw [hu] at h
    cases h
    exact .inr ⟨s, m, e, canonical_of_unpack hu, rfl, rfl⟩

theorem finite_congr {hm : 0 < m} {hm' : 0 < m'} (h : m = m') (h' : e = e') :
    UnpackedFloat.finite s m e hm = .finite s m' e' hm' := by
  subst h h'
  rfl

theorem unpack_normal {b : BitVec 11} {t : BitVec 52} (hb : b.toNat ≠ 2047) (hb' : b.toNat ≠ 0) :
    UnpackedFloat.unpack Format.binary64 (packComponents Format.binary64 s b t) =
      .finite s (1#1 ++ t).toNat (b.toNat - 1075) (by rw [toNat_one_append]; positivity) := by
  have h₁ : b ≠ -1#11 := fun h => hb (by rw [h]; rfl)
  have h₂ : b ≠ 0#11 := fun h => hb' (by rw [h]; rfl)
  simp only [UnpackedFloat.unpack, unpackExponent_packComponents, unpackMantissa_packComponents,
    unpackSign_packComponents, Sign.ofBitVec_toBitVec]
  rw [if_neg h₁, if_neg h₂]
  exact finite_congr rfl rfl

theorem unpack_subnormal {t : BitVec 52} (ht : 0 < t.toNat) :
    UnpackedFloat.unpack Format.binary64 (packComponents Format.binary64 s 0#11 t) =
      .finite s t.toNat (-1074) ht := by
  have h : t ≠ 0#52 := fun h => by rw [h] at ht; exact absurd ht (by decide)
  simp only [UnpackedFloat.unpack, unpackExponent_packComponents, unpackMantissa_packComponents,
    unpackSign_packComponents, Sign.ofBitVec_toBitVec]
  rw [if_neg (by decide), if_pos trivial, dif_neg h]
  exact finite_congr rfl rfl

theorem Canonical.log2_eq (h : Canonical m e) (hm : 2 ^ 52 ≤ m) : m.log2 = 52 :=
  (Nat.log2_eq_iff h.pos.ne').2 ⟨hm, h.lt⟩

/-- Packing a mantissa and an exponent of the format loses nothing. -/
theorem Canonical.unpack_pack (h : Canonical m e) (s : Sign) :
    (Float.Model.pack (.finite s m e h.pos)).unpack = .finite s m e h.pos := by
  have hbias : (Format.binary64.exponentBias : Int) = 1023 := rfl
  have hbits : Format.binary64.mantissaBits = 53 := rfl
  obtain ⟨hpos, hlt, hleast, hmost, hnorm⟩ := h
  obtain ⟨b, hb⟩ : ∃ b : Nat, (b : Int) = e + 1075 := ⟨(e + 1075).toNat, by omega⟩
  have hbiased : (e + (1023 : Int) + ((52 : Nat) : Int)).toNat = b := by omega
  unfold Float.Model.pack Float.Model.unpack UnpackedFloat.pack
  simp only [hbias, hbits, hbiased]
  rw [if_neg (by omega)]
  by_cases hnormal : 2 ^ 52 ≤ m
  · have hexpo : (BitVec.ofNat 11 b).toNat = b := by rw [BitVec.toNat_ofNat]; omega
    have hmant : (1#1 ++ BitVec.ofNat 52 m).toNat = m := by
      rw [toNat_one_append, BitVec.toNat_ofNat]
      omega
    rw [if_pos (by rw [Canonical.log2_eq ⟨hpos, hlt, hleast, hmost, hnorm⟩ hnormal])]
    exact (unpack_normal (by omega) (by omega)).trans (finite_congr hmant (by omega))
  · have hmant : (BitVec.ofNat 52 m).toNat = m := by rw [BitVec.toNat_ofNat]; omega
    have hlog : m.log2 < 52 := (Nat.log2_lt hpos.ne').2 (by omega)
    rw [if_neg (by omega)]
    exact (unpack_subnormal (hmant.symm ▸ hpos)).trans (finite_congr hmant (by omega))

/-! ### Order -/

theorem Canonical.pos_rational (h : Canonical m e) : (0 : ℚ) < m * 2 ^ e := by
  have hm : (0 : ℚ) < m := Nat.cast_pos.2 h.pos
  positivity

/-- A larger exponent makes a larger number: the mantissa that goes with it has all its bits. -/
theorem Canonical.lt_of_exponent_lt (h : Canonical m e) (h' : Canonical m' e') (he : e < e') :
    (m : ℚ) * 2 ^ e < m' * 2 ^ e' := by
  have hm : (m : ℚ) < 2 ^ 53 := by exact_mod_cast h.lt
  have hm' : (2 : ℚ) ^ 52 ≤ m' := by exact_mod_cast h'.normal (h.least_le.trans_lt he)
  calc (m : ℚ) * 2 ^ e < 2 ^ 53 * 2 ^ e := by gcongr
    _ = 2 ^ 52 * 2 ^ (e + 1) := by rw [zpow_add_one₀ two_ne_zero]; ring
    _ ≤ 2 ^ 52 * 2 ^ e' :=
      mul_le_mul_of_nonneg_left (zpow_le_zpow_right₀ one_le_two (Int.add_one_le_iff.2 he)) (by positivity)
    _ ≤ m' * 2 ^ e' := by gcongr

theorem Canonical.compare_eq (h : Canonical m e) (h' : Canonical m' e') :
    (compare e e').then (compare m m') = compare ((m : ℚ) * 2 ^ e) (m' * 2 ^ e') := by
  rcases lt_trichotomy e e' with he | rfl | he
  · rw [compare_lt_iff_lt.2 he, compare_lt_iff_lt.2 (h.lt_of_exponent_lt h' he)]
    rfl
  · have hpos : (0 : ℚ) < 2 ^ e := by positivity
    rw [compare_eq_iff_eq.2 rfl, Ordering.eq_then]
    rcases lt_trichotomy m m' with hm | rfl | hm
    · rw [compare_lt_iff_lt.2 hm, eq_comm, compare_lt_iff_lt]
      gcongr
    · rw [compare_eq_iff_eq.2 rfl, compare_eq_iff_eq.2 rfl]
    · rw [compare_gt_iff_gt.2 hm, eq_comm, compare_gt_iff_gt]
      show (m' : ℚ) * 2 ^ e < m * 2 ^ e
      gcongr
  · rw [compare_gt_iff_gt.2 he, compare_gt_iff_gt.2 (h'.lt_of_exponent_lt h he)]
    rfl

/-- A finite double of the format and the number that it denotes. -/
inductive Denotes : UnpackedFloat → ℚ → Prop where
  | zero (s : Sign) : Denotes (.zero s) 0
  | positive {m : Nat} {e : Int} (h : Canonical m e) : Denotes (.finite .positive m e h.pos) (m * 2 ^ e)
  | negative {m : Nat} {e : Int} (h : Canonical m e) : Denotes (.finite .negative m e h.pos) (-(m * 2 ^ e))

theorem denotes_of_value? (hx : value? x = some q) : Denotes x.toModel.unpack q := by
  rcases unpack_of_value? hx with ⟨s, hu, rfl⟩ | ⟨s, m, e, hc, hu, rfl⟩
  · exact hu ▸ .zero s
  · rw [hu]
    cases s with
    | positive => exact .positive hc
    | negative =>
      rw [Sign.apply, Int.cast_neg, Int.cast_natCast, neg_mul]
      exact .negative hc

theorem compare_neg_neg (p q : ℚ) : compare (-p) (-q) = (compare p q).swap := by
  rcases lt_trichotomy p q with h | h | h
  · rw [compare_lt_iff_lt.2 h, compare_gt_iff_gt.2 (neg_lt_neg h)]
    rfl
  · rw [compare_eq_iff_eq.2 h, compare_eq_iff_eq.2 (congrArg Neg.neg h)]
    rfl
  · rw [compare_gt_iff_gt.2 h, compare_lt_iff_lt.2 (neg_lt_neg h)]
    rfl

/-- Numbers of the format are compared as what they denote. -/
theorem Denotes.compare_eq {u v : UnpackedFloat} (hu : Denotes u p) (hv : Denotes v q) :
    u.compare v = some (compare p q) := by
  cases hu with
  | zero s =>
    cases hv with
    | zero => exact congrArg some (compare_eq_iff_eq.2 rfl).symm
    | positive h' => exact congrArg some (compare_lt_iff_lt.2 h'.pos_rational).symm
    | negative h' => exact congrArg some (compare_gt_iff_gt.2 (neg_lt_zero.2 h'.pos_rational)).symm
  | positive h =>
    cases hv with
    | zero => exact congrArg some (compare_gt_iff_gt.2 h.pos_rational).symm
    | positive h' => exact congrArg some (h.compare_eq h')
    | negative h' =>
      exact congrArg some (compare_gt_iff_gt.2 ((neg_lt_zero.2 h'.pos_rational).trans h.pos_rational)).symm
  | negative h =>
    have hneg := neg_lt_zero.2 h.pos_rational
    cases hv with
    | zero => exact congrArg some (compare_lt_iff_lt.2 hneg).symm
    | positive h' => exact congrArg some (compare_lt_iff_lt.2 (hneg.trans h'.pos_rational)).symm
    | negative h' =>
      rw [compare_neg_neg, ← h.compare_eq h']
      rfl

theorem lt_iff_of_value? (hx : value? x = some p) (hy : value? y = some q) : x < y ↔ p < q := by
  change decide (x.toModel.unpack.lt y.toModel.unpack = true) = true ↔ _
  rw [decide_eq_true_iff, UnpackedFloat.lt, (denotes_of_value? hx).compare_eq (denotes_of_value? hy),
    ← compare_lt_iff_lt, beq_iff_eq, Option.some_inj]

theorem le_iff_of_value? (hx : value? x = some p) (hy : value? y = some q) : x ≤ y ↔ p ≤ q := by
  change decide (x.toModel.unpack.le y.toModel.unpack = true) = true ↔ _
  rw [decide_eq_true_iff, UnpackedFloat.le, (denotes_of_value? hx).compare_eq (denotes_of_value? hy),
    Option.any_some, ← compare_le_iff_le, Ordering.isLE_iff_ne_gt]

theorem beq_iff_of_value? (hx : value? x = some p) (hy : value? y = some q) : (x == y) = true ↔ p = q := by
  change x.toModel.unpack.beq y.toModel.unpack = true ↔ _
  rw [UnpackedFloat.beq, (denotes_of_value? hx).compare_eq (denotes_of_value? hy), beq_iff_eq,
    Option.some_inj]
  exact compare_eq_iff_eq

theorem isFinite_eq (x : Float) : x.isFinite = (value? x).isSome := by
  change x.toModel.unpack.isFinite = (rational? x.toModel.unpack).isSome
  cases x.toModel.unpack <;> rfl

end Scriptlet.Number
