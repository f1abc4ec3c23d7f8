import Scriptlet.Proofs.HexRounding
import Scriptlet.Proofs.NumberRoundTrip
import Scriptlet.Number.Steps

/-!
# Strings as numbers

A string is read as a number if, without the blanks around it, it is empty, a hexadecimal literal, or a decimal
literal or `Infinity` behind at most one sign (`Form.numericText`); `NumericText` adds the value. The second way of
reading it, `ofTextSteps?`, goes by the bytes of the string: it looks at the first byte for a sign, cuts it off, and
measures the literal by indices. These stay within the string and never fall inside a character, since all that is
skipped is of one byte (`Begins`).
-/

namespace Scriptlet

open Text Number Token

variable {c d : Char} {r t ds : List Char} {bs : List UInt8} {i : Nat}

/-! ### Bytes -/

namespace Text

theorem toNat_byte (hc : c.toNat < 128) : (byte c).toNat = c.toNat := by
  rw [byte, UInt8.toNat_ofNat']
  omega

theorem utf8_cons_of_lt (hc : c.toNat < 128) (r : List Char) : utf8 (c :: r) = byte c :: utf8 r := by
  have hone : c.val.toNat ≤ 127 := Nat.le_of_lt_succ hc
  rw [utf8, List.flatMap_cons, String.utf8EncodeChar]
  simp only [hone, if_true]
  rfl

/-- A character from 128 on starts with a byte from 128 on. -/
theorem utf8_cons_of_le (hc : 128 ≤ c.toNat) (r : List Char) : ∃ b bs, utf8 (c :: r) = b :: bs ∧ 128 ≤ b.toNat := by
  have hone : ¬ c.val.toNat ≤ 127 := Nat.not_le.2 hc
  rw [utf8, List.flatMap_cons, String.utf8EncodeChar]
  simp only [hone, if_false]
  split_ifs
  all_goals
    refine ⟨_, _, rfl, ?_⟩
    rw [UInt8.toNat_ofNat']
    omega

theorem isDigitByte_byte (hc : c.toNat < 128) : isDigitByte (byte c) = c.isDigit := by
  rw [isDigitByte, toNat_byte hc]
  rfl

theorem lt_of_isDigit (hc : c.isDigit = true) : c.toNat < 128 := by
  simp only [Char.isDigit, Bool.and_eq_true, decide_eq_true_eq] at hc
  have hle : c.toNat ≤ 57 := UInt32.le_iff_toNat_le.1 hc.2
  omega

/-- Digits are counted in the bytes as in the text. -/
theorem length_takeWhile_utf8 (r : List Char) : ((utf8 r).takeWhile isDigitByte).length = (digitRun r).length := by
  induction r with
  | nil => rfl
  | cons c r ih =>
    by_cases hc : c.toNat < 128
    · rw [utf8_cons_of_lt hc]
      by_cases hd : c.isDigit = true
      · simpa [digitRun, isDigitByte_byte hc, hd] using ih
      · simp [digitRun, isDigitByte_byte hc, hd]
    · obtain ⟨b, bs, hbs, hb⟩ := utf8_cons_of_le (not_lt.1 hc) r
      have hd : c.isDigit = false := Bool.eq_false_iff.2 fun hd => hc (lt_of_isDigit hd)
      have hb' : isDigitByte b = false := by simp [isDigitByte]; omega
      simp [hbs, digitRun, hd, hb']

theorem head?_utf8 (hd : d.toNat < 128) : (utf8 r).head? = some (byte d) ↔ r.head? = some d := by
  cases r with
  | nil => simp [utf8]
  | cons c r =>
    by_cases hc : c.toNat < 128
    · rw [utf8_cons_of_lt hc, List.head?_cons, List.head?_cons, Option.some_inj, Option.some_inj]
      refine ⟨fun h => Char.toNat_inj.1 ?_, fun h => by rw [h]⟩
      rw [← toNat_byte hc, h, toNat_byte hd]
    · obtain ⟨b, bs, hbs, hb⟩ := utf8_cons_of_le (not_lt.1 hc) r
      rw [hbs, List.head?_cons, List.head?_cons, Option.some_inj, Option.some_inj]
      constructor
      · rintro rfl
        rw [toNat_byte hd] at hb
        omega
      · rintro rfl
        exact absurd hd hc

/-- The text begins at a byte. -/
structure Begins (bs : List UInt8) (i : Nat) (r : List Char) : Prop where
  le : i ≤ bs.length
  drop : bs.drop i = utf8 r

namespace Begins

theorem start (t : List Char) : Begins (utf8 t) 0 t := ⟨Nat.zero_le _, rfl⟩

theorem getElem? (h : Begins bs i r) (hd : d.toNat < 128) : bs[i]? = some (byte d) ↔ r.head? = some d := by
  rw [← head?_utf8 hd, ← h.drop, List.head?_drop]

theorem getElem?_or (h : Begins bs i r) (hc : c.toNat < 128) (hd : d.toNat < 128) :
    bs[i]? = some (byte c) ∨ bs[i]? = some (byte d) ↔ ∃ e rest, r = e :: rest ∧ (e = c ∨ e = d) := by
  rw [h.getElem? hc, h.getElem? hd]
  cases r with
  | nil => simp
  | cons e r => simp

theorem next (h : Begins bs i (c :: r)) (hc : c.toNat < 128) : Begins bs (i + 1) r := by
  have hdrop := h.drop
  rw [utf8_cons_of_lt hc] at hdrop
  have hlen := congrArg List.length hdrop
  rw [List.length_drop, List.length_cons] at hlen
  refine ⟨by omega, ?_⟩
  rw [← List.drop_drop, hdrop]
  rfl

theorem eq_length_iff (h : Begins bs i r) : i = bs.length ↔ r = [] := by
  have hle := h.le
  have hnil : utf8 r = [] ↔ r = [] := by
    cases r with
    | nil => simp [utf8]
    | cons c r => simp [utf8]
  rw [← hnil, ← h.drop, List.drop_eq_nil_iff]
  omega

end Begins

end Text

/-! ### The scan of a literal by bytes -/

namespace Text.Begins

theorem countDigits? (h : Begins bs i r) : countDigits? bs i = some (digitRun r).length := by
  rw [Number.countDigits?, if_pos h.le, h.drop, length_takeWhile_utf8]

theorem skipDigits (h : Begins bs i r) : Begins bs (i + (digitRun r).length) (r.drop (digitRun r).length) := by
  induction r generalizing i with
  | nil => simpa [digitRun] using h
  | cons c r ih =>
    by_cases hc : c.isDigit = true
    · have hnext := ih (h.next (lt_of_isDigit hc))
      simpa [digitRun, hc, Nat.add_assoc, Nat.add_comm 1] using hnext
    · simpa [digitRun, hc] using h

theorem fractionEnd? (h : Begins bs i r) : fractionEnd? bs i = some (i + fractionLength r, fractionLength r - 1) ∧
    Begins bs (i + fractionLength r) (r.drop (fractionLength r)) := by
  rw [Number.fractionEnd?]
  by_cases hpoint : r.head? = some '.'
  · obtain ⟨cs, rfl⟩ := List.head?_eq_some_iff.1 hpoint
    have hnext := h.next (by decide)
    have hskip := hnext.skipDigits
    rw [if_pos ((h.getElem? (by decide)).2 hpoint), hnext.countDigits?]
    rw [fractionLength, Nat.add_comm 1, List.drop_succ_cons, Nat.add_sub_cancel, ← Nat.add_assoc, Nat.add_right_comm]
    exact ⟨rfl, hskip⟩
  · have hzero : fractionLength r = 0 := by
      cases r with
      | nil => rfl
      | cons c r => exact fractionLength_of_ne (fun hc => hpoint (by rw [hc]; rfl)) r
    rw [if_neg (mt (h.getElem? (by decide)).1 hpoint), hzero]
    exact ⟨rfl, h⟩

theorem skipSign (h : Begins bs i r) :
    (if bs[i]? = some (byte '+') ∨ bs[i]? = some (byte '-') then i + 1 else i) = i + signLength r ∧
      Begins bs (i + signLength r) (r.drop (signLength r)) := by
  have hor := h.getElem?_or (c := '+') (d := '-') (by decide) (by decide)
  by_cases hsign : ∃ e rest, r = e :: rest ∧ (e = '+' ∨ e = '-')
  · rw [if_pos (hor.2 hsign)]
    obtain ⟨e, rest, rfl, rfl | rfl⟩ := hsign
    · exact ⟨rfl, h.next (by decide)⟩
    · exact ⟨rfl, h.next (by decide)⟩
  · have hzero : signLength r = 0 := by
      cases r with
      | nil => rfl
      | cons c r =>
        exact signLength_of_ne (fun hc => hsign ⟨c, r, rfl, .inl hc⟩) (fun hc => hsign ⟨c, r, rfl, .inr hc⟩) r
    rw [if_neg (mt hor.1 hsign), hzero]
    exact ⟨rfl, h⟩

theorem endsLiteral? (h : Begins bs i r) : endsLiteral? bs i = some (exponentLength r == r.length) := by
  have hor := h.getElem?_or (c := 'e') (d := 'E') (by decide) (by decide)
  rw [Number.endsLiteral?]
  by_cases hmark : ∃ c cs, r = c :: cs ∧ (c = 'e' ∨ c = 'E')
  · rw [if_pos (hor.2 hmark)]
    obtain ⟨c, cs, rfl, hc⟩ := hmark
    obtain ⟨hj, hsign⟩ := (h.next (by rcases hc with rfl | rfl <;> decide)).skipSign
    have hend := hsign.skipDigits.eq_length_iff
    have hmark : (c == 'e' || c == 'E') = true := by simpa using hc
    have hle := signLength_le cs
    have hrun := digitRun_length_le (cs.drop (signLength cs))
    simp only [hj, hsign.countDigits?, Option.map_some, exponentLength, hmark, if_true]
    rw [List.drop_drop, List.drop_eq_nil_iff] at hend
    rw [List.length_drop] at hrun
    congr 1
    split
    next hn => simp [hn]
    next n hn =>
      rw [hn] at hend hrun ⊢
      rw [Bool.eq_iff_iff]
      simp
      omega
  · have hzero : exponentLength r = 0 := by
      cases r with
      | nil => rfl
      | cons c r =>
        exact exponentLength_of_ne (fun hc => hmark ⟨c, r, rfl, .inl hc⟩) (fun hc => hmark ⟨c, r, rfl, .inr hc⟩) r
    rw [if_neg (mt hor.1 hmark), hzero, Option.some_inj, Bool.eq_iff_iff, beq_iff_eq, beq_iff_eq, h.eq_length_iff,
      @eq_comm _ 0, List.length_eq_zero_iff]

end Text.Begins

namespace Number

/-- No index is past the end, and the answer is right. -/
theorem isLiteral?_utf8 (t : List Char) : isLiteral? (utf8 t) = some (literal? t).isSome := by
  have hstart := Begins.start t
  have hwhole := hstart.skipDigits
  rw [Nat.zero_add] at hwhole
  obtain ⟨hfraction, hbehind⟩ := hwhole.fractionEnd?
  have hle := fractionLength_le (t.drop (digitRun t).length)
  rw [isLiteral?, hstart.countDigits?, Option.bind_some, hfraction, Option.bind_some]
  simp only [hbehind.endsLiteral?, literal?]
  have hempty : ((digitRun t).length = 0 ∧ fractionLength (t.drop (digitRun t).length) - 1 = 0) ↔
      ((digitRun t).isEmpty && (List.drop 1 (List.take (fractionLength (t.drop (digitRun t).length))
        (t.drop (digitRun t).length))).isEmpty) = true := by
    rw [Bool.and_eq_true, List.isEmpty_iff_length_eq_zero, List.isEmpty_iff_length_eq_zero, List.length_drop,
      List.length_take_of_le hle]
  by_cases hnone : (digitRun t).length = 0 ∧ fractionLength (t.drop (digitRun t).length) - 1 = 0
  · rw [if_pos hnone, if_pos (hempty.1 hnone)]
    rfl
  · rw [if_neg hnone, if_neg (mt hempty.2 hnone)]
    split_ifs with hexponent
    · simpa using hexponent
    · simpa using hexponent

/-! ### The steps of reading a string -/

theorem unsignedSteps?_eq (cs : List Char) : unsignedSteps? cs = some (unsigned cs) := by
  rw [unsignedSteps?, unsigned, isLiteral?_utf8]
  split_ifs
  · rfl
  · cases literal? cs with
    | none => rfl
    | some l => rfl

theorem sliceFrom?_one (hc : c.toNat < 128) (r : List Char) : sliceFrom? 1 (c :: r) = some r := by
  have hsize : c.utf8Size = 1 := Char.utf8Size_eq_one_iff.2 (UInt32.le_iff_toNat_le.2 (Nat.le_of_lt_succ hc))
  have hdrop := dropBytes?_append [c] r
  rw [byteLength_cons, hsize, byteLength_nil] at hdrop
  rw [sliceFrom?, byteLength_cons, hsize, if_pos (Nat.le_add_right _ _)]
  exact hdrop

/-- No index and no slice fails. -/
theorem ofTextSteps?_eq (cs : List Char) : ofTextSteps? cs = some (ofText cs) := by
  rw [ofTextSteps?, ofText]
  generalize trim isBlank cs = t
  split
  · rfl
  · rfl
  · rfl
  next hne hx hX =>
    split
    · exact absurd rfl hne
    next ds => exact absurd rfl (hx ds)
    next ds => exact absurd rfl (hX ds)
    next rest =>
      simp [utf8_cons_of_lt (c := '-') (by decide), sliceFrom?_one (c := '-') (by decide), unsignedSteps?_eq]
    next rest =>
      have hplus : byte '+' ≠ byte '-' := by decide
      simp [utf8_cons_of_lt (c := '+') (by decide), sliceFrom?_one (c := '+') (by decide), unsignedSteps?_eq, hplus]
    next hminus hplus =>
      have hstart := Begins.start t
      have hlen : 0 < (utf8 t).length := Nat.pos_of_ne_zero fun h0 => hne (hstart.eq_length_iff.1 h0.symm)
      have hfirst := List.getElem?_eq_getElem hlen
      have hnot : ∀ d : Char, d.toNat < 128 → t.head? ≠ some d → (utf8 t)[0] ≠ byte d := by
        intro d hd hhead heq
        rw [heq] at hfirst
        exact hhead ((hstart.getElem? hd).1 hfirst)
      have hhead : ∀ d : Char, (∀ rest, t ≠ d :: rest) → t.head? ≠ some d := by
        intro d hd heq
        obtain ⟨rest, hrest⟩ := List.head?_eq_some_iff.1 heq
        exact hd rest hrest
      rw [hfirst, Option.bind_some, if_neg (hnot '-' (by decide) (hhead '-' hminus)),
        if_neg (hnot '+' (by decide) (hhead '+' hplus)), unsignedSteps?_eq]

/-! ### What is a number -/

open Float.Model UnpackedFloat in
/-- A packed double is not a number only if what is packed is not. -/
theorem isNaN_pack {u : UnpackedFloat} (hu : u ≠ .notANumber) :
    (Float.ofModel (Float.Model.pack u)).isNaN = false := by
  change (UnpackedFloat.unpack Format.binary64 (UnpackedFloat.pack Format.binary64 u)).isNaN = false
  have hunpack : ∀ (s : Sign) (b : BitVec 11) (t : BitVec 52), (b = -1#11 → t = 0#52) →
      (UnpackedFloat.unpack Format.binary64 (packComponents Format.binary64 s b t)).isNaN = false := by
    intro s b t hbt
    simp only [UnpackedFloat.unpack, unpackExponent_packComponents, unpackMantissa_packComponents]
    split_ifs with hb ht
    · rfl
    · exact absurd (hbt hb) ht
    · rfl
    · rfl
    · rfl
  cases u with
  | notANumber => exact absurd rfl hu
  | infinity s => exact hunpack s _ _ fun _ => rfl
  | zero s => exact hunpack s _ _ fun _ => rfl
  | finite s m e hm =>
    unfold UnpackedFloat.pack
    dsimp only
    split_ifs with hinf hnormal
    · exact hunpack s _ _ fun _ => rfl
    · generalize (e + Format.binary64.exponentBias + Format.binary64.mantissaBitsWithoutImplicit).toNat = b at hinf ⊢
      have hlt : ¬ 2 ^ 11 ≤ b + 1 := hinf
      refine hunpack s _ _ fun hb => absurd (congrArg BitVec.toNat hb) ?_
      show (BitVec.ofNat 11 b).toNat ≠ 2047
      rw [BitVec.toNat_ofNat]
      omega
    · exact hunpack s _ _ fun hb => absurd hb (by decide)

open Float.Model UnpackedFloat in
theorem isNaN_ofDecimal (m : Nat) (e : Int) : (ofDecimal m e).isNaN = false := by
  have hround : ∀ (s : Sign) (N : Nat) (E : Int) (acc : Accuracy),
      roundWithAccuracy Format.binary64 s N E acc ≠ .notANumber := by
    intro s N E acc
    unfold roundWithAccuracy
    dsimp only
    split_ifs <;> nofun
  refine isNaN_pack ?_
  unfold UnpackedFloat.ofScientific
  split_ifs
  · nofun
  · nofun
  · nofun
  · exact hround _ _ _ _
  · exact hround _ _ _ _

theorem isNaN_toFloat (l : Literal) : l.toFloat.isNaN = false := by
  unfold Literal.toFloat
  dsimp only
  split_ifs
  · decide
  · exact isNaN_ofDecimal _ _

theorem isNaN_neg (x : Float) : (-x).isNaN = x.isNaN := by
  change (Float.ofModel (Float.Model.pack x.toModel.unpack.neg)).isNaN = x.toModel.unpack.isNaN
  cases x.toModel.unpack with
  | notANumber => rfl
  | infinity s => exact isNaN_pack nofun
  | zero s => exact isNaN_pack nofun
  | finite s m e hm => exact isNaN_pack nofun

theorem isNaN_hexValue (ds : List Char) : (hexValue ds).isNaN = false := by
  obtain ⟨_, _, -, -, -, hnear⟩ := nearest_head ds
  generalize hexValue ds = x at hnear
  cases hnear with
  | zero => decide
  | infinity => decide
  | finite hx =>
    change x.toModel.unpack.isNaN = false
    rw [hx]
    rfl

end Number

/-! ### The grammar of strings -/

/-- Nothing, a hexadecimal literal, or a sign before infinity or a decimal literal. -/
def Form.numericText : Language Char :=
  1 + hexadecimal + sign * ({"Infinity".toList} + decimal digits)

namespace Number

/-- A number behind a sign. -/
def withSign (s : List Char) (x : Float) : Float := if s = ['-'] then -x else x

/-- The text is a number as a whole, of the given value. -/
inductive NumericText : List Char → Float → Prop where
  | empty : NumericText [] 0.0
  | hexadecimal {c : Char} {ds : List Char} {vs : List Nat} : c = 'x' ∨ c = 'X' → ds ≠ [] →
      List.Forall₂ HexDigit ds vs → NumericText ('0' :: c :: ds) (hexFold vs)
  | infinity {s : List Char} : s ∈ Form.sign → NumericText (s ++ "Infinity".toList) (withSign s (1.0 / 0.0))
  | decimal {s u : List Char} {l : Literal} : s ∈ Form.sign → literal? u = some l →
      NumericText (s ++ u) (withSign s l.toFloat)

theorem exists_numericText_iff : (∃ x, NumericText t x) ↔ t ∈ Form.numericText := by
  simp only [Form.numericText, Language.mem_add, Language.mem_one, Form.mem_hexadecimal, Language.mem_mul,
    ← exists_literal?_iff]
  constructor
  · rintro ⟨_, _ | ⟨hc, hne, hvs⟩ | hs | ⟨hs, hl⟩⟩
    · exact .inl (.inl rfl)
    · exact .inl (.inr ⟨_, _, rfl, hc, hne, forall_isHexDigit_iff.2 ⟨_, hvs⟩⟩)
    · exact .inr ⟨_, hs, _, .inl rfl, rfl⟩
    · exact .inr ⟨_, hs, _, .inr ⟨_, hl⟩, rfl⟩
  · rintro ((rfl | ⟨c, ds, rfl, hc, hne, hds⟩) | ⟨s, hs, u, rfl | ⟨l, hl⟩, rfl⟩)
    · exact ⟨_, .empty⟩
    · obtain ⟨vs, hvs⟩ := forall_isHexDigit_iff.1 hds
      exact ⟨_, .hexadecimal hc hne hvs⟩
    · exact ⟨_, .infinity hs⟩
    · exact ⟨_, .decimal hs hl⟩

theorem isNaN_withSign (s : List Char) (x : Float) : (withSign s x).isNaN = x.isNaN := by
  unfold withSign
  split_ifs
  · exact isNaN_neg x
  · rfl

theorem NumericText.isNaN {x : Float} (h : NumericText t x) : x.isNaN = false := by
  cases h with
  | empty => decide
  | hexadecimal _ _ hvs => exact hexValue_eq_hexFold hvs ▸ isNaN_hexValue _
  | infinity => exact (isNaN_withSign _ _).trans (by decide)
  | decimal => exact (isNaN_withSign _ _).trans (isNaN_toFloat _)

theorem ofText_of_numericText {s : List Char} {x : Float} (h : NumericText (trim isBlank s) x) : ofText s = x := by
  rw [ofText]
  generalize trim isBlank s = t at h
  cases h with
  | empty => rfl
  | hexadecimal hc hne hvs =>
    rcases hc with rfl | rfl
    · exact hexadecimal_of_digits hne hvs
    · exact hexadecimal_of_digits hne hvs
  | infinity hs =>
    rcases Form.mem_sign.1 hs with rfl | rfl | rfl
    · rfl
    · rfl
    · rfl
  | @decimal sign u l hs hl =>
    have hvalue := unsigned_of_literal? hl
    rcases Form.mem_sign.1 hs with rfl | rfl | rfl
    · -- a literal starts like none of the other texts
      obtain ⟨c, rest, hcons, hc⟩ := exists_cons_of_startsNumber (startsNumber_of_literal? hl)
      rw [List.nil_append]
      split
      · cases hcons
      · rw [literal?_hexadecimal (.inl rfl)] at hl
        cases hl
      · rw [literal?_hexadecimal (.inr rfl)] at hl
        cases hl
      · exact absurd (List.cons.inj hcons).1.symm (ne_of_starts hc (by decide))
      · exact absurd (List.cons.inj hcons).1.symm (ne_of_starts hc (by decide))
      · exact hvalue
    · exact hvalue
    · exact congrArg Neg.neg hvalue

theorem numericText_of_unsigned {s u : List Char} (hs : s ∈ Form.sign) (h : (unsigned u).isNaN = false) :
    NumericText (s ++ u) (withSign s (unsigned u)) := by
  unfold unsigned at h ⊢
  split_ifs at h ⊢ with hinf
  · rw [hinf]
    exact .infinity hs
  · cases hl : literal? u with
    | some l => exact .decimal hs hl
    | none =>
      rw [hl, nan_isNaN] at h
      cases h

theorem numericText_of_hexadecimal (hc : c = 'x' ∨ c = 'X') (h : (Number.hexadecimal ds).isNaN = false) :
    NumericText ('0' :: c :: ds) (Number.hexadecimal ds) := by
  by_cases hds : ds ≠ [] ∧ ∀ d ∈ ds, isHexDigit d = true
  · obtain ⟨vs, hvs⟩ := forall_isHexDigit_iff.1 hds.2
    rw [hexadecimal_of_digits hds.1 hvs]
    exact .hexadecimal hc hds.1 hvs
  · have hnan : Number.hexadecimal ds = nan := if_pos (by simpa [or_iff_not_imp_left] using hds)
    rw [hnan, nan_isNaN] at h
    cases h

/-- What a string that denotes a number looks like. -/
theorem numericText_of_ofText {s : List Char} (h : (ofText s).isNaN = false) :
    NumericText (trim isBlank s) (ofText s) := by
  rw [ofText] at h ⊢
  generalize trim isBlank s = t at h ⊢
  revert h
  split
  · exact fun _ => .empty
  · exact numericText_of_hexadecimal (.inl rfl)
  · exact numericText_of_hexadecimal (.inr rfl)
  next rest =>
    intro h
    rw [isNaN_neg] at h
    exact numericText_of_unsigned (Form.mem_sign.2 (.inr (.inr rfl))) h
  · exact numericText_of_unsigned (Form.mem_sign.2 (.inr (.inl rfl)))
  · exact numericText_of_unsigned (Form.mem_sign.2 (.inl rfl))

end Number

theorem nearest_of_literal? {u : List Char} {l : Literal} {m : Nat} {e : Int} (h : literal? u = some l)
    (hc : Canonical m e) (hr : Rounds l.value m e) : l.toFloat.toModel.unpack = .finite .positive m e hc.pos := by
  obtain ⟨f, x, -, hw, hf, -, -, hfraction, -⟩ := parts_of_literal? h
  refine l.unpack_toFloat (fun c hc => ?_) hc hr
  rcases List.mem_append.1 hc with hc | hc
  · exact hw c hc
  · rw [hfraction] at hc
    rcases Form.mem_fraction.1 hf with rfl | ⟨ds, rfl, hds⟩
    · cases hc
    · exact hds c hc

/-- The number that a string denotes. It is one exactly if the string without the blanks around it is of the grammar,
and then it is zero, the digits behind `0x` folded into a double, or infinity or the value of the literal behind its
sign, which is the double that the literal rounds to. No index and no slice fails on the way, and blanks around the
string do not count. -/
theorem strings_as_numbers (s : List Char) :
    ((ofText s).isNaN = false ↔ trim isBlank s ∈ Form.numericText) ∧
    (∀ x, NumericText (trim isBlank s) x ↔ (ofText s).isNaN = false ∧ ofText s = x) ∧
    ofTextSteps? s = some (ofText s) ∧
    (∀ w w', (∀ c ∈ w, isBlank c = true) → (∀ c ∈ w', isBlank c = true) → ofText (w ++ s ++ w') = ofText s) ∧
    ∀ u l, literal? u = some l → ∀ m e, (hc : Canonical m e) → Rounds l.value m e →
      l.toFloat.toModel.unpack = .finite .positive m e hc.pos := by
  have hvalue : ∀ x, NumericText (trim isBlank s) x ↔ (ofText s).isNaN = false ∧ ofText s = x := by
    intro x
    constructor
    · intro h
      have hx := ofText_of_numericText h
      exact ⟨hx ▸ h.isNaN, hx⟩
    · rintro ⟨h, rfl⟩
      exact numericText_of_ofText h
  refine ⟨?_, hvalue, ofTextSteps?_eq s, fun w w' hw hw' => ?_, fun u l hl m e hc => nearest_of_literal? hl hc⟩
  · rw [← exists_numericText_iff]
    exact ⟨fun h => ⟨_, numericText_of_ofText h⟩, fun ⟨x, hx⟩ => ((hvalue x).1 hx).1⟩
  · rw [ofText, trim_append hw hw', ofText]

/-- Blanks of two sorts around a signed literal, and a hexadecimal literal behind a sign. -/
theorem strings_as_numbers_signs :
    ofText ("\ufeff\n".toList ++ "-.5E+1".toList ++ " ".toList) = ofText "-.5E+1".toList ∧
      trim isBlank "-0x10".toList ∉ Form.numericText := by
  refine ⟨(strings_as_numbers _).2.2.2.1 _ _ (List.all_eq_true.1 (by decide)) (List.all_eq_true.1 (by decide)), ?_⟩
  intro h
  exact absurd ((strings_as_numbers "-0x10".toList).1.2 h) (by decide +kernel)

end Scriptlet
