import Scriptlet.Proofs.NearestDouble
import Scriptlet.Proofs.NumericGrammar
import Scriptlet.Proofs.Words

/-!
# Hexadecimal digits folded into a double

The digits of a hexadecimal numeral are folded into a double one by one, and each step rounds. Up to the digit with
which the number leaves the range of exact integers nothing is lost (`ofNat_step`), there it is rounded to the
nearest double, and every further digit is too small to be seen (`scaled_step`). So a number is rounded as its first
digits are, which is right unless these are half way between two doubles: then the other digits should have decided
(`LosesTie`).
-/

namespace Scriptlet

open Text Token

namespace Number

open Float.Model UnpackedFloat

variable {m m' n d H : Nat} {e e' : Int} {q : ℚ} {x : Float}

/-! ### Steps in floating point -/

/-- The double `m · 2 ^ e`, infinity if the exponent is too large. -/
def scaled (m : Nat) (e : Int) (hm : 0 < m) : Float := .ofModel (Float.Model.pack (.finite .positive m e hm))

theorem scaled_of_lt (he : 971 < e) (hm : 0 < m) : scaled m e hm = 1.0 / 0.0 := by
  have hbiased : 2 ^ 11 ≤ (e + 1023 + 52).toNat + 1 := by omega
  have hpack : Float.Model.pack (.finite .positive m e hm) = Float.Model.pack (.infinity .positive) := by
    unfold Float.Model.pack UnpackedFloat.pack
    simp only
    congr 2
    exact if_pos hbiased
  rw [scaled, hpack]
  rfl

theorem unpack_scaled (hc : Canonical m e) : (scaled m e hc.pos).toModel.unpack = .finite .positive m e hc.pos :=
  hc.unpack_pack .positive

theorem ofNat_eq_scaled (hn : n ≠ 0) (hc : Canonical m e) (hr : Rounds n m e) : ofNat n = scaled m e hc.pos := by
  rw [ofNat, ofBinary, round_eq hn hc (by rwa [zpow_zero, mul_one])]
  rfl

/-- A product with a power of two is exact, up to the range of doubles. -/
theorem mul_sixteen {hm : 0 < m} (hx : x.toModel.unpack = .finite .positive m e hm) (hge : 2 ^ 52 ≤ m) :
    x * 16.0 = scaled m (e + 4) hm := by
  have hc := canonical_of_unpack hx
  have hlog := hc.log2_eq hge
  have hleast := hc.least_le
  have hdesc : Describes (m * 2 ^ 52) (e + -48) .exact (m * 2 ^ (e + 4)) := by
    refine .of_exact ?_
    rw [zpow_add₀ two_ne_zero, zpow_add₀ two_ne_zero]
    push_cast
    norm_num
    ring
  obtain ⟨em, hem, hst⟩ := hdesc.shiftToExponent (t := e + 4) (by omega)
  have hround : em.roundedMantissa = m := hst.nearest.eq (rounds_self m (e + 4)).nearest
  have hshift : shiftToTargetExponent Format.binary64 (m * 2 ^ 52) (e + -48) .exact = (em, e + 4) := by
    rw [shiftToTargetExponent, targetExponent_eq, totalExponent, log2_mul_two_pow hm.ne', hlog, ← hem]
    congr 1
    push_cast
    omega
  change Float.ofModel (Float.Model.pack (UnpackedFloat.mul _ x.toModel.unpack (16.0 : Float).toModel.unpack)) = _
  have hsixteen : (16.0 : Float).toModel.unpack = .finite .positive (2 ^ 52) (-48) (by norm_num) := rfl
  rw [hx, hsixteen, scaled]
  congr 2
  refine roundWithAccuracy_of_shifts ⟨m, false, false⟩ hm hshift ?_
  rw [hround]
  exact shiftToTargetExponent_of_le (by omega)

/-- A sum of naturals is rounded once. -/
theorem add_ofNat {hm : 0 < m} (hx : x.toModel.unpack = .finite .positive m e hm) (hn : (m : ℚ) * 2 ^ e = n)
    (hd : d < 2 ^ 53) (hc : Canonical m' e') (hr : Rounds (n + d : Nat) m' e') :
    x + ofNat d = scaled m' e' hc.pos := by
  have hc₀ := canonical_of_unpack hx
  rcases eq_or_ne d 0 with rfl | hd0
  · have hzero : (ofNat 0).toModel.unpack = .zero .positive := rfl
    have hsame : UnpackedFloat.finite .positive m e hm = .finite .positive m' e' hc.pos := by
      rw [← round_eq hm.ne' hc₀ (rounds_self m e), round_eq hm.ne' hc (by rwa [hn])]
    change Float.ofModel (Float.Model.pack (UnpackedFloat.add _ x.toModel.unpack (ofNat 0).toModel.unpack)) = _
    rw [hx, hzero, scaled, ← hsame]
    rfl
  · have hvalue : value? x = some ((n : Int) : ℚ) := by simp [value?, hx, rational?, Sign.apply, hn]
    have hn0 : n ≠ 0 := by
      rintro rfl
      exact hc₀.pos_rational.ne' (by rw [hn, Nat.cast_zero])
    obtain ⟨M, E, hM, hsum⟩ := add_eq_normalize hvalue (value?_ofNat hd) (by omega) (by omega)
    have hMpos : 0 < M := by
      have hpos : (0 : ℚ) < 2 ^ E := by positivity
      have : (0 : ℚ) < M * 2 ^ E := by rw [hM]; exact_mod_cast (by omega : 0 < n + d)
      exact_mod_cast pos_of_mul_pos_left this hpos.le
    have hround : UnpackedFloat.normalize Format.binary64 M E .positive = .finite .positive m' e' hc.pos := by
      have hMnat : ((M.toNat : Nat) : ℚ) = M := by exact_mod_cast Int.toNat_of_nonneg hMpos.le
      unfold UnpackedFloat.normalize
      rw [compare_gt_iff_gt.2 hMpos]
      refine round_eq (by omega) hc ?_ .positive
      rw [hMnat, hM]
      exact_mod_cast hr
    rw [hsum, hround, scaled]

/-- A digit behind an exact number is taken into account, and rounded once. -/
theorem ofNat_step (hn : n < 2 ^ 53) (hd : d < 16) : ofNat n * 16.0 + ofNat d = ofNat (16 * n + d) := by
  rcases eq_or_ne n 0 with rfl | hn0
  · interval_cases d <;> rfl
  · obtain ⟨m, e, hc, hm⟩ := exists_canonical hn0 hn
    have hunpack : (ofNat n).toModel.unpack = .finite .positive m e hc.pos := by
      rw [ofNat_eq_scaled hn0 hc (hm ▸ rounds_self m e), unpack_scaled hc]
    have he : -53 < e ∧ e < 53 := by
      have hn1 : (1 : ℚ) ≤ n := by exact_mod_cast Nat.one_le_iff_ne_zero.2 hn0
      have hn53 : (n : ℚ) < 2 ^ (53 : Int) := by exact_mod_cast hn
      have hm1 : (1 : ℚ) ≤ m := by exact_mod_cast hc.pos
      have hm53 : (m : ℚ) < 2 ^ (53 : Int) := by exact_mod_cast hc.lt
      have hpos : (0 : ℚ) < 2 ^ e := by positivity
      constructor
      · have hone : (2 : ℚ) ^ (0 : Int) < 2 ^ (53 + e) := by
          rw [zpow_zero, zpow_add₀ two_ne_zero]
          calc (1 : ℚ) ≤ m * 2 ^ e := hm ▸ hn1
            _ < 2 ^ (53 : Int) * 2 ^ e := by gcongr
        have := (zpow_lt_zpow_iff_right₀ one_lt_two).1 hone
        omega
      · refine (zpow_lt_zpow_iff_right₀ one_lt_two).1 (lt_of_le_of_lt ?_ hn53)
        rw [← hm]
        exact le_mul_of_one_le_left hpos.le hm1
    have hge : 2 ^ 52 ≤ m := hc.normal (by omega)
    have hc' : Canonical m (e + 4) := ⟨hc.pos, hc.lt, by omega, by omega, fun _ => hge⟩
    obtain ⟨m', e', hc₁, hr⟩ := exists_rounds (n := 16 * n + d) (by omega) (by omega)
    rw [mul_sixteen hunpack hge, add_ofNat (unpack_scaled hc') (n := 16 * n) ?_ (by omega) hc₁ hr,
      ofNat_eq_scaled (by omega) hc₁ hr]
    push_cast
    rw [zpow_add₀ two_ne_zero, ← hm]
    ring

theorem rounds_add (hnonneg : 0 ≤ q) (hlt : q < 1 / 2 * 2 ^ e) : Rounds (m * 2 ^ e + q) m e := by
  have hpos : (0 : ℚ) < 2 ^ e := by positivity
  have hself := rounds_self m e
  have hgap := halfGap_pos m e
  exact ⟨by linarith, by linarith, fun _ => ⟨by linarith, by linarith⟩⟩

theorem infinity_step (hd : d < 16) : (1.0 / 0.0 : Float) + ofNat d = 1.0 / 0.0 := by
  interval_cases d <;> rfl

/-- A digit behind a number that has been rounded is lost. -/
theorem scaled_step (hge : 2 ^ 52 ≤ m) (hlt : m < 2 ^ 53) (he : 1 ≤ e) (hd : d < 16) (hm : 0 < m) :
    scaled m e hm * 16.0 + ofNat d = scaled m (e + 4) hm := by
  have hcanonical : ∀ t : Int, 1 ≤ t → t ≤ 971 → Canonical m t := fun t h1 hmost =>
    ⟨hm, hlt, by omega, hmost, fun _ => hge⟩
  by_cases hmost : e ≤ 971
  · rw [mul_sixteen (unpack_scaled (hcanonical e he hmost)) hge]
    by_cases hmost' : e + 4 ≤ 971
    · have hc := hcanonical (e + 4) (by omega) hmost'
      obtain ⟨k, hk⟩ : ∃ k : Nat, e + 4 = k := ⟨(e + 4).toNat, by omega⟩
      refine add_ofNat (unpack_scaled hc) (n := m * 2 ^ k) (by rw [hk]; push_cast; rfl) (by omega) hc ?_
      push_cast
      rw [← zpow_natCast, ← hk]
      refine rounds_add (Nat.cast_nonneg d) ?_
      calc (d : ℚ) < 16 := by exact_mod_cast hd
        _ = 1 / 2 * 2 ^ (5 : Int) := by norm_num
        _ ≤ 1 / 2 * 2 ^ (e + 4) :=
          mul_le_mul_of_nonneg_left (zpow_le_zpow_right₀ one_le_two (by omega)) (by norm_num)
    · rw [scaled_of_lt (by omega), infinity_step hd]
  · rw [scaled_of_lt (by omega), scaled_of_lt (by omega)]
    exact infinity_step hd

/-! ### The fold over the digits -/

/-- The number that a run of hexadecimal digits denotes. -/
def natOfHex (ds : List Char) : Nat := ds.foldl (fun n c => 16 * n + (hexDigit? c).getD 0) 0

theorem hexDigit?_lt (c : Char) : (hexDigit? c).getD 0 < 16 := by
  have hle : ∀ d : Char, c ≤ d → c.toNat ≤ d.toNat := fun _ h => UInt32.le_iff_toNat_le.1 h
  unfold hexDigit?
  split_ifs with hdigit hlower hupper
  · have hnine : c ≤ '9' := by
      simp only [Char.isDigit, Bool.and_eq_true, decide_eq_true_eq] at hdigit
      exact hdigit.2
    have : c.toNat ≤ 57 := hle '9' hnine
    show c.toNat - 48 < 16
    omega
  · have : c.toNat ≤ 102 := hle 'f' (by simpa using (Bool.and_eq_true_iff.1 hlower).2)
    show c.toNat - 97 + 10 < 16
    omega
  · have : c.toNat ≤ 70 := hle 'F' (by simpa using (Bool.and_eq_true_iff.1 hupper).2)
    show c.toNat - 65 + 10 < 16
    omega
  · decide

theorem natOfHex_concat (ds : List Char) (c : Char) :
    natOfHex (ds ++ [c]) = 16 * natOfHex ds + (hexDigit? c).getD 0 := by
  simp [natOfHex]

theorem hexValue_concat (ds : List Char) (c : Char) :
    hexValue (ds ++ [c]) = hexValue ds * 16.0 + ofNat ((hexDigit? c).getD 0) := by
  simp [hexValue]

theorem natOfHex_append (a b : List Char) : natOfHex (a ++ b) = natOfHex a * 16 ^ b.length + natOfHex b := by
  induction b using List.reverseRecOn with
  | nil => simp [natOfHex]
  | append_singleton b c ih =>
    rw [← List.append_assoc, natOfHex_concat, natOfHex_concat, ih, List.length_append, List.length_singleton]
    ring

theorem natOfHex_lt (ds : List Char) : natOfHex ds < 16 ^ ds.length := by
  induction ds using List.reverseRecOn with
  | nil => simp [natOfHex]
  | append_singleton ds c ih =>
    have hc := hexDigit?_lt c
    rw [natOfHex_concat, List.length_append, List.length_singleton, pow_succ]
    omega

/-- Up to the digit with which a number leaves the range of exact integers, nothing is rounded. -/
theorem hexValue_of_lt {ds : List Char} (h : natOfHex ds < 2 ^ 57) : hexValue ds = ofNat (natOfHex ds) := by
  induction ds using List.reverseRecOn with
  | nil => rfl
  | append_singleton ds c ih =>
    rw [natOfHex_concat] at h
    rw [hexValue_concat, natOfHex_concat, ih (by omega), ofNat_step (by omega) (hexDigit?_lt c)]

/-- Behind it, no digit counts. -/
theorem hexValue_append {head : List Char} (hlt : natOfHex head < 2 ^ 57) (hc : Canonical m e)
    (hr : Rounds (natOfHex head) m e) (he : 1 ≤ e) (tail : List Char) :
    hexValue (head ++ tail) = scaled m (e + 4 * tail.length) hc.pos := by
  have hne : natOfHex head ≠ 0 := by
    intro h0
    have hpow := hc.pow_lt_of_normal (by omega) hr
    rw [h0, Nat.cast_zero] at hpow
    exact absurd hpow (not_lt.2 (by positivity))
  induction tail using List.reverseRecOn with
  | nil => simp [hexValue_of_lt hlt, ofNat_eq_scaled hne hc hr]
  | append_singleton tail c ih =>
    rw [← List.append_assoc, hexValue_concat, ih,
      scaled_step (hc.normal (by omega)) hc.lt (by omega) (hexDigit?_lt c)]
    congr 1
    rw [List.length_append, List.length_singleton]
    push_cast
    ring

/-- The digits are the ones up to that digit, and the others. -/
theorem exists_head (ds : List Char) : ∃ head tail, ds = head ++ tail ∧ natOfHex head < 2 ^ 57 ∧
    (tail = [] ∨ 2 ^ 53 ≤ natOfHex head) := by
  induction ds using List.reverseRecOn with
  | nil => exact ⟨[], [], rfl, by decide, .inl rfl⟩
  | append_singleton ds c ih =>
    by_cases hlt : natOfHex (ds ++ [c]) < 2 ^ 57
    · exact ⟨ds ++ [c], [], (List.append_nil _).symm, hlt, .inl rfl⟩
    · obtain ⟨head, tail, rfl, hhead, rfl | hge⟩ := ih
      · refine ⟨head, [c], by rw [List.append_nil], hhead, .inr ?_⟩
        have hc := hexDigit?_lt c
        rw [natOfHex_concat, List.append_nil] at hlt
        omega
      · exact ⟨head, tail ++ [c], List.append_assoc .., hhead, .inr hge⟩

/-! ### One rounding for many -/

theorem scaled_nearest (hge : 2 ^ 52 ≤ m) (hlt : m < 2 ^ 53) (he : 1 ≤ e) (hm : 0 < m) (hr : Rounds n m e) :
    NearestDouble n (scaled m e hm) := by
  by_cases hmost : e ≤ 971
  · exact .of_rounds (unpack_scaled ⟨hm, hlt, by omega, hmost, fun _ => hge⟩) hr
  · rw [scaled_of_lt (by omega)]
    refine .infinity (le_trans ?_ hr.low)
    have hgap : (2 : ℚ) ^ 52 - 1 / 4 ≤ m - halfGap m e := by
      unfold halfGap
      split_ifs with hpow
      · rw [hpow.1]
        norm_num
      · have hm' : (2 : ℚ) ^ 52 + 1 ≤ m := by
          have hne : m ≠ 2 ^ 52 := fun hm => hpow ⟨hm, by omega⟩
          exact_mod_cast lt_of_le_of_ne hge hne.symm
        linarith
    calc overflow = (2 ^ 52 - 1 / 4) * (2 * 2 ^ (971 : Int)) := by rw [overflow]; ring
      _ = (2 ^ 52 - 1 / 4) * 2 ^ (972 : Int) := by rw [← zpow_one_add₀ two_ne_zero]; norm_num
      _ ≤ (m - halfGap m e) * 2 ^ e := by
        have hexp : (2 : ℚ) ^ (972 : Int) ≤ 2 ^ e := zpow_le_zpow_right₀ one_le_two (by omega)
        gcongr

/-- The number half way between a double and the one above it. -/
theorem half_way (m j : Nat) : (((2 * m + 1) * 2 ^ j : Nat) : ℚ) = (m + 1 / 2) * 2 ^ ((j : Int) + 1) := by
  rw [zpow_add_one₀ two_ne_zero, zpow_natCast]
  push_cast
  ring

theorem zpow_shift (j k : Nat) : (2 : ℚ) ^ ((j : Int) + 1 + 4 * k) = 2 ^ ((j : Int) + 1) * 16 ^ k := by
  rw [zpow_add₀ two_ne_zero, zpow_mul, zpow_natCast]
  norm_num

/-- A number rounds as its first digits do, unless these are half way between two doubles and the others decide. -/
theorem Rounds.shift {j k T : Nat} (hr : Rounds H m (j + 1)) (hT : T < 16 ^ k) (hH : T = 0 ∨ H ≠ (2 * m + 1) * 2 ^ j) :
    Rounds (H * 16 ^ k + T : Nat) m (j + 1 + 4 * k) := by
  have hpos : (0 : ℚ) < 16 ^ k := by positivity
  have hgap : halfGap m (j + 1 + 4 * k) = halfGap m (j + 1) := by
    have hleast : -1074 < (j : Int) + 1 := by omega
    have hleast' : -1074 < (j : Int) + 1 + 4 * k := by omega
    simp only [halfGap, hleast, hleast']
  have hT0 : (0 : ℚ) ≤ T := Nat.cast_nonneg T
  -- below the half way there is room for the other digits
  have hroom : H ≠ (2 * m + 1) * 2 ^ j → (H : ℚ) * 16 ^ k + T < (m + 1 / 2) * (2 ^ ((j : Int) + 1) * 16 ^ k) := by
    intro hne
    have hle : H ≤ (2 * m + 1) * 2 ^ j := by exact_mod_cast (half_way m j).symm ▸ hr.high
    have hsucc : ((H : ℚ) + 1) ≤ (m + 1 / 2) * 2 ^ ((j : Int) + 1) := by
      rw [← half_way]
      exact_mod_cast lt_of_le_of_ne hle hne
    calc (H : ℚ) * 16 ^ k + T < (H + 1) * 16 ^ k := by
          have : (T : ℚ) < 16 ^ k := by exact_mod_cast hT
          linarith
      _ ≤ (m + 1 / 2) * 2 ^ ((j : Int) + 1) * 16 ^ k := by gcongr
      _ = (m + 1 / 2) * (2 ^ ((j : Int) + 1) * 16 ^ k) := mul_assoc ..
  refine ⟨?_, ?_, fun hodd => ?_⟩
  · rw [hgap, zpow_shift, ← mul_assoc]
    push_cast
    linarith [mul_le_mul_of_nonneg_right hr.low hpos.le]
  · rw [zpow_shift]
    push_cast
    rcases hH with rfl | hne
    · rw [Nat.cast_zero, add_zero, ← mul_assoc]
      exact mul_le_mul_of_nonneg_right hr.high hpos.le
    · exact (hroom hne).le
  · obtain ⟨hlow, hhigh⟩ := hr.inside hodd
    rw [hgap, zpow_shift]
    push_cast
    refine ⟨?_, hroom fun heq => ?_⟩
    · rw [← mul_assoc]
      linarith [mul_lt_mul_of_pos_right hlow hpos]
    · rw [← half_way, heq] at hhigh
      exact lt_irrefl _ hhigh

/-- The digits that a number loses a tie by: the first ones are half way between two doubles, the even one below,
and not all others are zero. -/
def LosesTie (ds : List Char) : Prop :=
  natOfHex ds < 2 ^ 1024 ∧ ∃ head tail m j, ds = head ++ tail ∧ natOfHex head = (2 * m + 1) * 2 ^ j ∧ j < 4 ∧
    2 ^ 52 ≤ m ∧ m < 2 ^ 53 ∧ m % 2 = 0 ∧ natOfHex tail ≠ 0

theorem sixteen_pow (k : Nat) : 16 ^ k = 2 ^ (4 * k) := by
  rw [pow_mul]
  norm_num

/-- A number whose first digits are half way between two doubles has as many bits as these and the other digits. -/
theorem pow_le_of_tie {j k T : Nat} (hge : 2 ^ 52 ≤ m) : 2 ^ (53 + j + 4 * k) ≤ (2 * m + 1) * 2 ^ j * 16 ^ k + T := by
  rw [sixteen_pow, pow_add, pow_add]
  refine le_add_right (Nat.mul_le_mul_right _ (Nat.mul_le_mul_right _ ?_))
  omega

theorem lt_pow_of_tie {j k T : Nat} (hlt : m < 2 ^ 53) (hT : T < 16 ^ k) :
    (2 * m + 1) * 2 ^ j * 16 ^ k + T < 2 ^ (54 + j + 4 * k) := by
  have hj : 0 < 2 ^ j := by positivity
  have hhead : (2 * m + 1) * 2 ^ j + 1 ≤ 2 ^ 54 * 2 ^ j := by
    calc (2 * m + 1) * 2 ^ j + 1 ≤ (2 * m + 1) * 2 ^ j + 2 ^ j := by omega
      _ = (2 * m + 2) * 2 ^ j := by ring
      _ ≤ 2 ^ 54 * 2 ^ j := Nat.mul_le_mul_right _ (by omega)
  calc (2 * m + 1) * 2 ^ j * 16 ^ k + T < (2 * m + 1) * 2 ^ j * 16 ^ k + 16 ^ k := by omega
    _ = ((2 * m + 1) * 2 ^ j + 1) * 16 ^ k := by ring
    _ ≤ 2 ^ 54 * 2 ^ j * 16 ^ k := Nat.mul_le_mul_right _ hhead
    _ = 2 ^ (54 + j + 4 * k) := by rw [sixteen_pow, pow_add, pow_add]

theorem rounds_half_way {j : Nat} (hm : m % 2 = 0) : Rounds ((2 * m + 1) * 2 ^ j : Nat) m (j + 1) := by
  have hpos : (0 : ℚ) < 2 ^ ((j : Int) + 1) := by positivity
  rw [half_way]
  refine ⟨?_, le_rfl, fun hodd => by omega⟩
  gcongr
  linarith [quarter_le_halfGap (m := m) (e := j + 1)]

theorem even_of_rounds_half_way {j : Nat} (hr : Rounds ((2 * m + 1) * 2 ^ j : Nat) m (j + 1)) : m % 2 = 0 := by
  by_contra hodd
  have hlt := (hr.inside (Nat.mod_two_ne_zero.1 hodd)).2
  rw [half_way] at hlt
  exact lt_irrefl _ hlt

theorem overflow_le (hn : 2 ^ 1024 ≤ n) : overflow ≤ n := by
  have hn' : (2 : ℚ) ^ (1024 : Int) ≤ n := by exact_mod_cast hn
  refine le_trans ?_ hn'
  rw [overflow, show (1024 : Int) = 53 + 971 by norm_num, zpow_add₀ two_ne_zero]
  gcongr
  norm_num

/-- A run of digits is folded into the nearest double, or into the nearest double of its first digits, scaled. -/
theorem hexValue_cases (ds : List Char) : natOfHex ds < 2 ^ 57 ∧ NearestDouble (natOfHex ds) (hexValue ds) ∨
    ∃ head tail m j, ∃ hc : Canonical m ((j : Nat) + 1), ds = head ++ tail ∧ 2 ^ 53 ≤ natOfHex head ∧
      natOfHex head < 2 ^ 57 ∧ Rounds (natOfHex head) m (j + 1) ∧
      hexValue ds = scaled m (j + 1 + 4 * tail.length) hc.pos := by
  obtain ⟨head, tail, rfl, hlt, rfl | hge⟩ := exists_head ds
  · left
    rw [List.append_nil, hexValue_of_lt hlt]
    refine ⟨hlt, ?_⟩
    rcases eq_or_ne (natOfHex head) 0 with h0 | hne
    · rw [h0]
      exact .zero rfl
    · obtain ⟨m, e, hc, hr⟩ := exists_rounds hne hlt
      exact .of_rounds (ofNat_eq_scaled hne hc hr ▸ unpack_scaled hc) hr
  · right
    obtain ⟨m, e, hc, hr, he⟩ := exists_rounds_of_le hge hlt
    obtain ⟨j, rfl⟩ : ∃ j : Nat, e = j + 1 := ⟨(e - 1).toNat, by omega⟩
    exact ⟨head, tail, m, j, hc, rfl, hge, hlt, hr, hexValue_append hlt hc hr he tail⟩

theorem nearest_head (ds : List Char) : ∃ head tail, ds = head ++ tail ∧ (tail = [] ∨ 2 ^ 53 ≤ natOfHex head) ∧
    natOfHex head < 2 ^ 57 ∧ NearestDouble (natOfHex head * 16 ^ tail.length) (hexValue ds) := by
  rcases hexValue_cases ds with ⟨hlt, hnear⟩ | ⟨head, tail, m, j, hc, rfl, hge, hlt, hr, hvalue⟩
  · exact ⟨ds, [], (List.append_nil _).symm, .inl rfl, hlt, by simpa using hnear⟩
  · refine ⟨head, tail, rfl, .inr hge, hlt, ?_⟩
    rw [hvalue]
    exact scaled_nearest (hc.normal (by omega)) hc.lt (by omega) hc.pos (hr.shift (by positivity) (.inl rfl))

theorem nearest_of_not_losesTie {ds : List Char} (h : ¬ LosesTie ds) : NearestDouble (natOfHex ds) (hexValue ds) := by
  rcases hexValue_cases ds with ⟨-, hnear⟩ | ⟨head, tail, m, j, hc, rfl, hge, hlt, hr, hvalue⟩
  · exact hnear
  have hm := hc.normal (by omega)
  have hT := natOfHex_lt tail
  rw [hvalue, natOfHex_append]
  by_cases htie : natOfHex tail = 0 ∨ natOfHex head ≠ (2 * m + 1) * 2 ^ j
  · exact scaled_nearest hm hc.lt (by omega) hc.pos (hr.shift hT htie)
  · simp only [ne_eq, not_or, not_not] at htie
    obtain ⟨htail, hhead⟩ := htie
    rw [hhead] at hr hlt ⊢
    have hj : 53 + j < 57 := by
      have hle : 2 ^ (53 + j) ≤ (2 * m + 1) * 2 ^ j := by simpa using pow_le_of_tie (j := j) (k := 0) (T := 0) hm
      exact (pow_lt_pow_iff_right₀ one_lt_two).1 (hle.trans_lt hlt)
    -- the digits lose no tie, so they are beyond the range of doubles
    have hlarge : 2 ^ 1024 ≤ (2 * m + 1) * 2 ^ j * 16 ^ tail.length + natOfHex tail := by
      by_contra hsmall
      refine h ⟨?_, head, tail, m, j, rfl, hhead, by omega, hm, hc.lt, even_of_rounds_half_way hr, htail⟩
      rw [natOfHex_append, hhead]
      exact not_le.1 hsmall
    have hexp : 1024 < 54 + j + 4 * tail.length :=
      (pow_lt_pow_iff_right₀ one_lt_two).1 (hlarge.trans_lt (lt_pow_of_tie hc.lt hT))
    rw [scaled_of_lt (by omega)]
    exact .infinity (overflow_le hlarge)

theorem not_nearest_of_losesTie {ds : List Char} (h : LosesTie ds) :
    ¬ NearestDouble (natOfHex ds) (hexValue ds) := by
  obtain ⟨hlt, head, tail, m, j, rfl, hhead, hj, hge, hm, heven, htail⟩ := h
  have hT := natOfHex_lt tail
  have hhead57 : natOfHex head < 2 ^ 57 := by
    have hlt54 : (2 * m + 1) * 2 ^ j < 2 ^ (54 + j) := by simpa using lt_pow_of_tie (k := 0) (T := 0) hm (by norm_num)
    rw [hhead]
    exact hlt54.trans_le (Nat.pow_le_pow_right (by norm_num) (by omega))
  have hc : Canonical m (j + 1) := ⟨by omega, hm, by omega, by omega, fun _ => hge⟩
  rw [hexValue_append hhead57 hc (hhead ▸ rounds_half_way heven) (by omega), natOfHex_append, hhead]
  rw [natOfHex_append, hhead] at hlt
  have hexp : 53 + j + 4 * tail.length < 1024 :=
    (pow_lt_pow_iff_right₀ one_lt_two).1 ((pow_le_of_tie hge).trans_lt hlt)
  have hcanonical : ∀ n, 2 ^ 52 ≤ n → n < 2 ^ 53 → Canonical n (j + 1 + 4 * tail.length) := fun n hn hn' =>
    ⟨by omega, hn', by omega, by omega, fun _ => hn⟩
  have hx := unpack_scaled (hcanonical m hge hm)
  generalize scaled m (j + 1 + 4 * tail.length) hc.pos = x at hx
  intro hnear
  cases hnear with
  | zero h0 => omega
  | infinity =>
    have hinf : (1.0 / 0.0 : Float).toModel.unpack = .infinity .positive := rfl
    rw [hinf] at hx
    cases hx
  | @finite _ m' e' hm' hx' hover hnear heven' =>
    rw [hx] at hx'
    injection hx' with _ hm' he'
    subst hm' he'
    -- the double above is nearer
    have hy := (hcanonical (m + 1) (by omega) (by omega)).value?_pack .positive
    have hle := hnear _ _ hy
    have hN : (((2 * m + 1) * 2 ^ j * 16 ^ tail.length + natOfHex tail : Nat) : ℚ) =
        (m + 1 / 2) * 2 ^ ((j : Int) + 1 + 4 * tail.length) + natOfHex tail := by
      rw [Nat.cast_add, Nat.cast_mul, half_way, zpow_shift]
      push_cast
      ring
    have hT0 : (0 : ℚ) < natOfHex tail := by exact_mod_cast Nat.pos_of_ne_zero htail
    have hT1 : (natOfHex tail : ℚ) < 1 / 2 * 2 ^ ((j : Int) + 1 + 4 * tail.length) := by
      calc (natOfHex tail : ℚ) < 16 ^ tail.length := by exact_mod_cast hT
        _ ≤ 2 ^ j * 16 ^ tail.length := le_mul_of_one_le_left (by positivity) (one_le_pow₀ one_le_two)
        _ = 1 / 2 * 2 ^ ((j : Int) + 1 + 4 * tail.length) := by
          rw [zpow_shift, zpow_add_one₀ two_ne_zero, zpow_natCast]
          ring
    rw [hN, Sign.apply, Int.cast_natCast] at hle
    push_cast at hle
    rw [abs_of_neg (by linarith), abs_of_pos (by linarith)] at hle
    linarith

end Number

open Number

/-- The digits behind `0x` are scanned as the double into which they are folded. -/
theorem next?_hexadecimal {source ds rest : List Char} {c : Char} {i : Nat} (hc : c = 'x' ∨ c = 'X') (hne : ds ≠ [])
    (hds : ∀ d ∈ ds, isHexDigit d = true) (hi : StandsAt source i ('0' :: c :: (ds ++ rest)))
    (hrest : ∀ d ∈ rest.head?, isNamePart d = false) (mode : Mode) :
    next? source i mode = some (.ok (⟨.number (hexValue ds), i, i + byteLength ('0' :: c :: ds)⟩,
      i + byteLength ('0' :: c :: ds))) := by
  have hrun : (ds ++ rest).takeWhile isHexDigit = ds := takeWhile_append_stop hds fun d hd => by
    refine Bool.eq_false_iff.2 fun hhex => ?_
    have hname := isNamePart_of_isHexDigit hhex
    rw [hrest d hd] at hname
    cases hname
  have hrule : rule? mode ('0' :: c :: (ds ++ rest)) = some (.number (hexValue ds), ds.length + 2) := by
    have hany : rest.head?.any isNamePart = false := by
      rw [Option.any_eq_false]
      exact fun d hd => by simp [hrest d hd]
    rw [rule?_of_startsNumber rfl, number?, numeral?_zero_letter hc, hrun, if_neg (by simpa using hne)]
    simp [hany]
  have hnext := next?_of_rule? hi (by rintro d ⟨⟩; decide) hrule
  simpa using hnext

/-- Hexadecimal literals and strings. The digits are rounded once, where the number leaves the range of exact
integers; the digits behind that place are not seen again, so the result is the nearest double of the number unless
its first digits are half way between two doubles. -/
theorem hexadecimal_rounding {c : Char} {ds : List Char} (hc : c = 'x' ∨ c = 'X') (hne : ds ≠ [])
    (hds : ∀ d ∈ ds, isHexDigit d = true) :
    ofText ('0' :: c :: ds) = hexValue ds ∧
    (∀ source i rest mode, StandsAt source i ('0' :: c :: (ds ++ rest)) →
      (∀ d ∈ rest.head?, isNamePart d = false) → next? source i mode =
        some (.ok (⟨.number (hexValue ds), i, i + byteLength ('0' :: c :: ds)⟩, i + byteLength ('0' :: c :: ds)))) ∧
    (∃ head tail, ds = head ++ tail ∧ (tail = [] ∨ 2 ^ 53 ≤ natOfHex head) ∧ natOfHex head < 2 ^ 57 ∧
      NearestDouble (natOfHex head * 16 ^ tail.length) (hexValue ds)) ∧
    (NearestDouble (natOfHex ds) (hexValue ds) ↔ ¬ LosesTie ds) := by
  refine ⟨(Numeral.of_isHexDigit hc hne hds).ofText, fun source i rest mode hi hrest => ?_, nearest_head ds, ?_⟩
  · exact next?_hexadecimal hc hne hds hi hrest mode
  · exact ⟨fun hnear htie => not_nearest_of_losesTie htie hnear, nearest_of_not_losesTie⟩

/-- Two digits, in a string and between other tokens. -/
theorem hexadecimal_rounding_byte :
    ofText "0xfF".toList = 255.0 ∧ next? "y=0xfF;".toList 2 .operand = some (.ok (⟨.number 255.0, 2, 6⟩, 6)) := by
  have hne : "fF".toList ≠ [] := by decide
  have hvalue : hexValue "fF".toList = 255.0 := by decide +kernel
  obtain ⟨htext, hnext, -⟩ := hexadecimal_rounding (c := 'x') (.inl rfl) hne (List.all_eq_true.1 (by decide +kernel))
  rw [hvalue] at htext hnext
  exact ⟨htext, hnext "y=0xfF;".toList 2 [';'] .operand ⟨['y', '='], by decide, by decide⟩ (by rintro d ⟨⟩; decide)⟩

/-- One bit too many, and a digit behind it: the nearest double is the one above. -/
theorem hexadecimal_rounding_tie :
    natOfHex "200000000000018".toList = 2 ^ 57 + 24 ∧
    next? "0x200000000000018".toList 0 .operand = some (.ok (⟨.number 144115188075855872.0, 0, 17⟩, 17)) ∧
    ofText "0x200000000000018".toList = 144115188075855872.0 ∧
    ¬ NearestDouble (2 ^ 57 + 24) 144115188075855872.0 ∧ NearestDouble (2 ^ 57 + 24) 144115188075855904.0 := by
  have hn : natOfHex "200000000000018".toList = 2 ^ 57 + 24 := by decide +kernel
  have hvalue : hexValue "200000000000018".toList = 144115188075855872.0 := by decide +kernel
  have htie : LosesTie "200000000000018".toList := by
    refine ⟨?_, "20000000000001".toList, "8".toList, 2 ^ 52, 0, by decide, by decide +kernel, by decide, le_rfl,
      by norm_num, by norm_num, by decide⟩
    rw [hn]
    calc 2 ^ 57 + 24 < 2 ^ 58 := by norm_num
      _ ≤ 2 ^ 1024 := pow_le_pow_right₀ one_le_two (by norm_num)
  refine ⟨hn, by decide +kernel, by decide +kernel, ?_, ?_⟩
  · rw [← hn, ← hvalue]
    exact not_nearest_of_losesTie htie
  · have hunpack : (144115188075855904.0 : Float).toModel.unpack = .finite .positive (2 ^ 52 + 1) 5 (by norm_num) := rfl
    refine .of_rounds hunpack ⟨?_, ?_, fun _ => ⟨?_, ?_⟩⟩ <;> norm_num [halfGap]

end Scriptlet
