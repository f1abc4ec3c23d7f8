import Scriptlet.Proofs.Places

/-!
# Numbers in sources and in strings

A number is read from a source by `numeral?`, which measures how far a numeral reaches, and from a string by
`ofText`, which asks whether the whole text is one. `Numeral t x` says what the two have in common: the text `t`
is a numeral of value `x`, from its first character to its last. Only a source minds a digit behind a leading
zero, and only a string may have blanks and a sign around the number. The values of hexadecimal digits are their
places in the order of the digits (`HexDigit`), and the number is what they are folded into (`hexFold`).
-/

namespace Scriptlet

open Text Number Token

/-! ### Hexadecimal digits -/

/-- The value of a hexadecimal digit: its place among the sixteen, with small letters or with capitals. -/
def HexDigit (d : Char) (v : Nat) : Prop :=
  "0123456789abcdef".toList[v]? = some d ∨ "0123456789ABCDEF".toList[v]? = some d

instance (d : Char) (v : Nat) : Decidable (HexDigit d v) := inferInstanceAs (Decidable (_ ∨ _))

/-- The values of digits folded into a double: each is added to sixteen times the double so far. -/
def hexFold (vs : List Nat) : Float := vs.foldl (fun x v => x * 16.0 + ofNat v) 0.0

section HexDigits

variable {c d : Char} {v : Nat} {ds : List Char} {vs : List Nat}

theorem hexDigit?_eq_some_iff : hexDigit? d = some v ↔ HexDigit d v := by
  constructor
  · intro h
    have hdigit : isHexDigit d = true := by rw [isHexDigit, h, Option.isSome_some]
    have hlt : d.toNat < 0x85 := (isNamePart_toNat (isNamePart_of_isHexDigit hdigit)).2
    have hall : ∀ n : Fin 0x85, ∀ v ∈ hexDigit? (Char.ofNat n), HexDigit (Char.ofNat n) v := by decide +kernel
    have hd := hall ⟨d.toNat, hlt⟩ v
    rw [Char.ofNat_toNat] at hd
    exact hd h
  · intro h
    have hv : v < 16 := by rcases h with h | h <;> exact (List.getElem?_eq_some_iff.1 h).1
    rcases h with h | h <;> interval_cases v <;> cases h <;> rfl

theorem isHexDigit_iff : isHexDigit d = true ↔ ∃ v, HexDigit d v := by
  simp only [isHexDigit, Option.isSome_iff_exists, hexDigit?_eq_some_iff]

/-- Digits have values, one by one. -/
theorem forall_isHexDigit_iff : (∀ d ∈ ds, isHexDigit d = true) ↔ ∃ vs, List.Forall₂ HexDigit ds vs := by
  induction ds with
  | nil => exact ⟨fun _ => ⟨[], .nil⟩, fun _ => by simp⟩
  | cons d ds ih =>
    rw [List.forall_mem_cons, ih, isHexDigit_iff]
    constructor
    · rintro ⟨⟨v, hv⟩, vs, hvs⟩
      exact ⟨v :: vs, .cons hv hvs⟩
    · rintro ⟨_, _ | ⟨hv, hvs⟩⟩
      exact ⟨⟨_, hv⟩, _, hvs⟩

theorem hexValue_eq_hexFold (h : List.Forall₂ HexDigit ds vs) : hexValue ds = hexFold vs := by
  rw [hexValue, hexFold]
  generalize (0.0 : Float) = x
  induction h generalizing x with
  | nil => rfl
  | cons hv _ ih => rw [List.foldl_cons, List.foldl_cons, hexDigit?_eq_some_iff.2 hv, Option.getD_some, ih]

end HexDigits

/-- The text is a numeral of the given value. No digit follows a leading zero. -/
inductive Numeral : List Char → Float → Prop where
  | hexadecimal {c : Char} {ds : List Char} {vs : List Nat} : c = 'x' ∨ c = 'X' → ds ≠ [] →
      List.Forall₂ HexDigit ds vs → Numeral ('0' :: c :: ds) (hexFold vs)
  | decimal {t : List Char} {l : Literal} : literal? t = some l → decimalLength t = t.length →
      Numeral t l.toFloat

theorem Text.trim_eq_self {p : Char → Bool} {cs : List Char} (hhead : ∀ c ∈ cs.head?, p c = false)
    (hlast : ∀ c ∈ cs.getLast?, p c = false) : trim p cs = cs := by
  have hkeep : ∀ ds : List Char, (∀ c ∈ ds.head?, p c = false) → ds.dropWhile p = ds := by
    intro ds hds
    cases ds with
    | nil => rfl
    | cons c ds => simp [hds c (by simp)]
  rw [trim, trimStart, hkeep cs hhead, trimEnd, hkeep cs.reverse (by simpa using hlast), List.reverse_reverse]

theorem Text.trimEnd_append {p : Char → Bool} {s t : List Char} (h : ∀ c ∈ t, p c = true) :
    trimEnd p (s ++ t) = trimEnd p s := by
  have hrev : ∀ c ∈ t.reverse, p c = true := fun c hc => h c (List.mem_reverse.1 hc)
  rw [trimEnd, List.reverse_append, List.dropWhile_append_of_pos hrev, trimEnd]

/-- What is trimmed off is not missed around a text. -/
theorem Text.trim_append {p : Char → Bool} {w w' : List Char} (hw : ∀ c ∈ w, p c = true)
    (hw' : ∀ c ∈ w', p c = true) (s : List Char) : trim p (w ++ s ++ w') = trim p s := by
  have hstart : trimStart p (w ++ s ++ w') = if trimStart p s = [] then [] else trimStart p s ++ w' := by
    have hnil : w'.dropWhile p = [] := List.dropWhile_eq_nil_iff.2 hw'
    rw [trimStart, List.append_assoc, List.dropWhile_append_of_pos hw, List.dropWhile_append, hnil, trimStart]
    simp only [List.isEmpty_iff]
  rw [trim, hstart, trim]
  split_ifs with hnil
  · rw [hnil]
  · exact trimEnd_append hw'

/-! ### Decimal literals -/

section Literals

variable {t : List Char} {l : Literal}

/-- A literal is made of its digits, its fraction and its exponent. -/
theorem length_of_literal? (h : literal? t = some l) :
    (digitRun t).length + fractionLength (t.drop (digitRun t).length) +
      exponentLength (t.drop ((digitRun t).length + fractionLength (t.drop (digitRun t).length))) = t.length := by
  simp only [literal?, List.drop_drop] at h
  split at h
  · cases h
  split at h
  next hexp =>
    have hwhole := digitRun_length_le t
    have hfraction := fractionLength_le (t.drop (digitRun t).length)
    rw [List.length_drop] at hfraction hexp
    omega
  · cases h

theorem wholeLength_eq (hzero : ∀ c rest, t = '0' :: c :: rest → c.isDigit = false) :
    wholeLength t = (digitRun t).length := by
  unfold wholeLength
  split
  next rest =>
    cases rest with
    | nil => rfl
    | cons c rest =>
      have hdigit : '0'.isDigit = true := by decide
      simp [digitRun, hdigit, hzero c rest rfl]
  · rfl

theorem decimalLength_of_literal? (h : literal? t = some l)
    (hzero : ∀ c rest, t = '0' :: c :: rest → c.isDigit = false) : decimalLength t = t.length := by
  simp only [decimalLength, wholeLength_eq hzero]
  exact length_of_literal? h

theorem startsNumber_of_literal? (h : literal? t = some l) : startsNumber t = true := by
  cases t with
  | nil => cases h
  | cons c rest =>
    by_cases hc : c = '.'
    · subst hc
      -- no digit stands before the point, so one stands behind it
      cases rest with
      | nil => cases h
      | cons d rest =>
        cases hd : d.isDigit with
        | true => exact hd
        | false =>
          have hpoint : '.'.isDigit = false := by decide
          simp [literal?, digitRun, hpoint, fractionLength, hd] at h
    · cases hd : c.isDigit with
      | true =>
        rw [startsNumber]
        · exact hd
        · intro _ _ heq
          exact absurd heq hc
      | false =>
        have hfraction : fractionLength (c :: rest) = 0 := by
          rw [fractionLength]
          intro _ heq
          exact hc (List.cons.inj heq).1
        simp [literal?, digitRun, hd, hfraction] at h

theorem exists_cons_of_startsNumber (h : startsNumber t = true) :
    ∃ c rest, t = c :: rest ∧ (c.isDigit = true ∨ c = '.') := by
  unfold startsNumber at h
  split at h
  · exact ⟨_, _, rfl, .inr rfl⟩
  · exact ⟨_, _, rfl, .inl h⟩
  · cases h

/-- No literal starts like a hexadecimal one. -/
theorem literal?_hexadecimal {c : Char} {ds : List Char} (hc : c = 'x' ∨ c = 'X') :
    literal? ('0' :: c :: ds) = none := by
  have hzero : '0'.isDigit = true := by decide
  rcases hc with rfl | rfl
  · have hx : 'x'.isDigit = false := by decide
    simp [literal?, digitRun, hzero, hx, fractionLength, exponentLength]
  · have hX : 'X'.isDigit = false := by decide
    simp [literal?, digitRun, hzero, hX, fractionLength, exponentLength]

theorem isBlank_of_isNamePart {c : Char} (h : isNamePart c = true) : isBlank c = false := by
  have hbreak := isBreak_eq_false_of_isNamePart h
  simp only [isBreak, Bool.or_eq_false_iff] at hbreak
  exact hbreak.1

theorem isBlank_of_starts {c : Char} (hc : c.isDigit = true ∨ c = '.') : isBlank c = false := by
  rcases hc with hc | rfl
  · exact isBlank_of_isNamePart (isNamePart_of_isDigit hc)
  · decide

/-- What starts a number is no other character. -/
theorem ne_of_starts {c d : Char} (hc : c.isDigit = true ∨ c = '.') (hd : ¬ (d.isDigit = true ∨ d = '.')) :
    c ≠ d := by
  rintro rfl
  exact hd hc

theorem ne_infinity_of_starts {c : Char} {rest : List Char} (hc : c.isDigit = true ∨ c = '.') :
    c :: rest ≠ "Infinity".toList := by
  intro heq
  have hletters : "Infinity".toList = 'I' :: "nfinity".toList := by decide
  exact ne_of_starts hc (by decide) (List.cons.inj (heq.trans hletters)).1

/-- A decimal reaches no blank. -/
theorem isBlank_getLast_of_decimalLength (hstart : startsNumber t = true) (h : decimalLength t = t.length) :
    ∀ c ∈ t.getLast?, isBlank c = false := by
  intro d hd
  obtain ⟨front, rfl⟩ := List.getLast?_eq_some_iff.1 hd
  by_cases hfront : front = []
  · subst hfront
    obtain ⟨c, rest, heq, hc⟩ := exists_cons_of_startsNumber hstart
    cases heq
    exact isBlank_of_starts hc
  · by_contra hblank
    have hbreak : isBreak d = true := by simp [isBreak, Bool.eq_true_of_not_eq_false hblank]
    obtain ⟨hlen, hle⟩ := decimalLength_append (detached_cons [] hbreak) hfront
    rw [hlen, List.length_append, List.length_singleton] at h
    omega

end Literals

/-! ### Numerals -/

namespace Numeral

variable {t : List Char} {x : Float}

theorem of_isHexDigit {c : Char} {ds : List Char} (hc : c = 'x' ∨ c = 'X') (hne : ds ≠ [])
    (hds : ∀ d ∈ ds, isHexDigit d = true) : Numeral ('0' :: c :: ds) (hexValue ds) := by
  obtain ⟨vs, hvs⟩ := forall_isHexDigit_iff.1 hds
  rw [hexValue_eq_hexFold hvs]
  exact .hexadecimal hc hne hvs

theorem startsNumber (h : Numeral t x) : startsNumber t = true := by
  cases h with
  | hexadecimal => rfl
  | decimal hl => exact startsNumber_of_literal? hl

theorem isBlank_head (h : Numeral t x) : ∀ c ∈ t.head?, isBlank c = false := by
  obtain ⟨c, rest, rfl, hc⟩ := exists_cons_of_startsNumber h.startsNumber
  intro d hd
  cases hd
  exact isBlank_of_starts hc

theorem isBlank_getLast (h : Numeral t x) : ∀ c ∈ t.getLast?, isBlank c = false := by
  have hstart := h.startsNumber
  cases h with
  | hexadecimal _ hne hhex =>
    intro d hd
    obtain ⟨e, ds, rfl⟩ := List.exists_cons_of_ne_nil hne
    rw [List.getLast?_cons_cons, List.getLast?_cons_cons] at hd
    have hdigit := forall_isHexDigit_iff.2 ⟨_, hhex⟩ d (List.mem_of_getLast? hd)
    exact isBlank_of_isNamePart (isNamePart_of_isHexDigit hdigit)
  | decimal _ hlen => exact isBlank_getLast_of_decimalLength hstart hlen

end Numeral

/-- A source reads a text as one number exactly if it is a numeral. -/
theorem numeral?_eq_length_iff {t : List Char} {x : Float} : numeral? t = some (x, t.length) ↔ Numeral t x := by
  have hhex : ∀ {c : Char} {ds : List Char}, c = 'x' ∨ c = 'X' →
      (if (ds.takeWhile isHexDigit).isEmpty then none
        else some (hexValue (ds.takeWhile isHexDigit), (ds.takeWhile isHexDigit).length + 2)) =
        some (x, ds.length + 2) → Numeral ('0' :: c :: ds) x := by
    intro c ds hc h
    split at h
    · cases h
    next hne =>
      simp only [Option.some.injEq, Prod.mk.injEq, Nat.add_right_cancel_iff] at h
      have hall : ds.takeWhile isHexDigit = ds := (List.takeWhile_prefix isHexDigit).eq_of_length h.2
      rw [hall] at hne h
      rw [← h.1]
      refine .of_isHexDigit hc (by simpa using hne) fun d hd => ?_
      rw [← hall] at hd
      exact List.mem_takeWhile_imp hd
  constructor
  · intro h
    simp only [numeral?] at h
    split at h
    next ds => exact hhex (.inl rfl) h
    next ds => exact hhex (.inr rfl) h
    next =>
      obtain ⟨l, hl, he⟩ := Option.map_eq_some_iff.1 h
      simp only [Prod.mk.injEq] at he
      rw [he.2, List.take_length] at hl
      exact he.1 ▸ .decimal hl he.2
  · intro h
    cases h with
    | @hexadecimal c ds vs hc hne hvs =>
      have hrun : ds.takeWhile isHexDigit = ds :=
        List.takeWhile_eq_self_iff.2 (forall_isHexDigit_iff.2 ⟨vs, hvs⟩)
      rcases hc with rfl | rfl
      · simp [numeral?, hrun, hne, hexValue_eq_hexFold hvs]
      · simp [numeral?, hrun, hne, hexValue_eq_hexFold hvs]
    | @decimal t l hl hlen =>
      unfold numeral?
      simp only
      split
      · rw [literal?_hexadecimal (.inl rfl)] at hl
        cases hl
      · rw [literal?_hexadecimal (.inr rfl)] at hl
        cases hl
      · rw [hlen, List.take_length, hl]
        rfl

theorem hexadecimal_of_digits {ds : List Char} {vs : List Nat} (hne : ds ≠ []) (hvs : List.Forall₂ HexDigit ds vs) :
    hexadecimal ds = hexFold vs := by
  simp [hexadecimal, hne, List.all_eq_true.2 (forall_isHexDigit_iff.2 ⟨vs, hvs⟩), hexValue_eq_hexFold hvs]

/-- A string that is a numeral denotes the number of the numeral. -/
theorem Numeral.ofText {t : List Char} {x : Float} (h : Numeral t x) : ofText t = x := by
  have htrim : trim isBlank t = t := trim_eq_self h.isBlank_head h.isBlank_getLast
  obtain ⟨c, rest, hcons, hc⟩ := exists_cons_of_startsNumber h.startsNumber
  rw [Number.ofText, htrim]
  cases h with
  | hexadecimal hc hne hvs =>
    rcases hc with rfl | rfl
    · exact hexadecimal_of_digits hne hvs
    · exact hexadecimal_of_digits hne hvs
  | @decimal t l hl hlen =>
    have hunsigned : unsigned t = l.toFloat := by
      have hinfinity : t ≠ "Infinity".toList := hcons ▸ ne_infinity_of_starts hc
      simp only [unsigned, if_neg hinfinity, hl]
    split
    · cases hcons
    · rw [literal?_hexadecimal (.inl rfl)] at hl
      cases hl
    · rw [literal?_hexadecimal (.inr rfl)] at hl
      cases hl
    · exact absurd (List.cons.inj hcons).1.symm (ne_of_starts hc (by decide))
    · exact absurd (List.cons.inj hcons).1.symm (ne_of_starts hc (by decide))
    · exact hunsigned

theorem nan_isNaN : nan.isNaN = true := by decide

/-- A string that denotes a number and looks like the start of one is a numeral. -/
theorem numeral_of_ofText {t : List Char} (hnan : (ofText t).isNaN = false)
    (hhead : ∃ c ∈ t.head?, c.isDigit = true ∨ c = '.') (hlast : ∀ c ∈ t.getLast?, isBlank c = false)
    (hzero : ∀ c rest, t = '0' :: c :: rest → c.isDigit = false) : Numeral t (ofText t) := by
  have hhex : ∀ {c : Char} {ds : List Char}, c = 'x' ∨ c = 'X' → (hexadecimal ds).isNaN = false →
      Numeral ('0' :: c :: ds) (hexadecimal ds) := by
    intro c ds hc hds
    unfold Number.hexadecimal at hds ⊢
    split at hds
    · rw [nan_isNaN] at hds
      cases hds
    next hall =>
      rw [if_neg hall]
      simp only [Bool.or_eq_true, List.isEmpty_iff, Bool.not_eq_true', not_or, Bool.not_eq_false] at hall
      exact .of_isHexDigit hc hall.1 (List.all_eq_true.1 hall.2)
  obtain ⟨c, hmem, hc⟩ := hhead
  obtain ⟨rest, hcons⟩ : ∃ rest, t = c :: rest := by
    cases t with
    | nil => cases hmem
    | cons d rest => cases hmem; exact ⟨rest, rfl⟩
  have htrim : trim isBlank t = t := by
    refine trim_eq_self (fun d hd => ?_) hlast
    rw [hcons] at hd
    cases hd
    exact isBlank_of_starts hc
  rw [Number.ofText, htrim] at hnan ⊢
  split at hnan
  · cases hcons
  · exact hhex (.inl rfl) hnan
  · exact hhex (.inr rfl) hnan
  · exact absurd (List.cons.inj hcons).1.symm (ne_of_starts hc (by decide))
  · exact absurd (List.cons.inj hcons).1.symm (ne_of_starts hc (by decide))
  · have hinfinity : t ≠ "Infinity".toList := hcons ▸ ne_infinity_of_starts hc
    simp only [unsigned, if_neg hinfinity] at hnan ⊢
    cases hl : literal? t with
    | some l => exact .decimal hl (decimalLength_of_literal? hl hzero)
    | none =>
      rw [hl, nan_isNaN] at hnan
      cases hnan

/-! ### Tokens -/

theorem rule?_of_startsNumber {r : List Char} (h : startsNumber r = true) (mode : Mode) : rule? mode r = number? r := by
  obtain ⟨c, rest, rfl, hc⟩ := exists_cons_of_startsNumber h
  have hdouble : c ≠ '"' := ne_of_starts hc (by decide)
  have hsingle : c ≠ '\'' := ne_of_starts hc (by decide)
  have hslash : c ≠ '/' := ne_of_starts hc (by decide)
  simp [rule?, hdouble, hsingle, hslash, h]

/-- A numeral is scanned as one number, whatever is expected. -/
theorem Numeral.scan {t : List Char} {x : Float} (h : Numeral t x) (mode : Mode) :
    scan mode t = .lexeme [] ⟨.number x, t, []⟩ := by
  have hrule : rule? mode t = some (.number x, t.length) := by
    simp [rule?_of_startsNumber h.startsNumber, number?, numeral?_eq_length_iff.2 h]
  obtain ⟨c, rest, rfl, hc⟩ := exists_cons_of_startsNumber h.startsNumber
  have hblank : isBlank c = false := isBlank_of_starts hc
  simp [Token.scan, hblank, hrule]

/-- A text is one number where it stands in a source exactly if it is a numeral of that value. -/
theorem next?_number_iff {t : List Char} {x : Float} {mode : Mode} :
    (∃ next, next? t 0 mode = some (.ok (⟨.number x, 0, byteLength t⟩, next))) ↔ Numeral t x := by
  have hstart : StandsAt t 0 t := ⟨[], rfl, rfl⟩
  rw [next?_standsAt hstart]
  constructor
  · rintro ⟨next, h⟩
    cases hs : scanAt 0 mode t with
    | error place => rw [hs] at h; cases h
    | ok result =>
      obtain ⟨token, rest⟩ := result
      rw [hs] at h
      cases h
      obtain ⟨gap, text, hscan, hgap, hstop⟩ := scanAt_ok_iff.1 hs
      have hcuts := scan_cuts hscan
      have hgap0 : gap = [] := by
        by_contra hne
        have hpos := byteLength_pos hne
        simp only at hgap
        omega
      have hrest0 : rest = [] := by
        by_contra hne
        have hpos := byteLength_pos hne
        have hlen := congrArg byteLength hcuts.append
        simp only [byteLength_append] at hlen hstop
        omega
      have htext : text = t := by simpa [hgap0, hrest0] using hcuts.append
      have hwritten : numeral? text = some (x, text.length) := hcuts.written
      rw [htext] at hwritten
      exact numeral?_eq_length_iff.1 hwritten
  · intro h
    exact ⟨byteLength t, by simp [scanAt, h.scan mode, Except.map]⟩

/-- A number means the same in a source and in a string: a text that is scanned as one number denotes this
number as a string, and a string that denotes a number is scanned as one, if it starts with a digit or a point,
ends with no blank and has no digit behind a leading zero. -/
theorem number_in_source_and_string (t : List Char) (mode : Mode) :
    (∀ x next, next? t 0 mode = some (.ok (⟨.number x, 0, byteLength t⟩, next)) → ofText t = x) ∧
    ((ofText t).isNaN = false → (∃ c ∈ t.head?, c.isDigit = true ∨ c = '.') →
      (∀ c ∈ t.getLast?, isBlank c = false) → (∀ c rest, t = '0' :: c :: rest → c.isDigit = false) →
      ∃ next, next? t 0 mode = some (.ok (⟨.number (ofText t), 0, byteLength t⟩, next))) := by
  refine ⟨fun x next h => ?_, fun hnan hhead hlast hzero => ?_⟩
  · exact (next?_number_iff.1 ⟨next, h⟩).ofText
  · exact next?_number_iff.2 (numeral_of_ofText hnan hhead hlast hzero)

/-- A point without digits before it, an exponent with a sign, and a hexadecimal numeral. -/
theorem number_in_source_and_string_five :
    ofText ".5E+1".toList = 5.0 ∧
      ∃ next, next? "0X1f".toList 0 .operator = some (.ok (⟨.number (ofText "0X1f".toList), 0, 4⟩, next)) :=
  ⟨(number_in_source_and_string ".5E+1".toList .operand).1 5.0 5 (by decide +kernel),
    (number_in_source_and_string "0X1f".toList .operator).2 (by decide +kernel) ⟨'0', rfl, .inl (by decide)⟩
      (by rintro c ⟨⟩; decide) (by rintro c rest ⟨⟩; decide)⟩

end Scriptlet
