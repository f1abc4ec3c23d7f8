import Scriptlet.Proofs.LongestMatch

/-!
# The grammar of numbers

The languages of numeric literals, and the readers of numbers measured against them. `literal?` reads exactly the
texts `digits[.digits*][e[±]digits]` and `.digits[e[±]digits]` (`exists_literal?_iff`), and a source takes the
longest prefix that is a numeric literal: each part of a literal is as long as it can be (`longest_decimal`), and
hexadecimal digits behind `0x` reach further than the zero (`longest_zero_letter`).
-/

namespace Scriptlet

open Text Number Token
open scoped Computability

variable {t w f x r m rest : List Char} {l : Literal}

/-! ### Languages -/

namespace Form

/-- `p+` -/
def run (p : Char → Bool) : Language Char := oneOf p * (oneOf p)∗

/-- `[0-9]+` -/
def digits : Language Char := run Char.isDigit

/-- `[+-]?` -/
def sign : Language Char := 1 + oneOf fun c => c == '+' || c == '-'

/-- `(\.[0-9]*)?` -/
def fraction : Language Char := 1 + oneOf (· == '.') * (oneOf Char.isDigit)∗

/-- `([eE][+-]?[0-9]+)?` -/
def exponent : Language Char := 1 + oneOf (fun c => c == 'e' || c == 'E') * sign * digits

/-- `whole(\.[0-9]*)?([eE][+-]?[0-9]+)?` or `\.[0-9]+([eE][+-]?[0-9]+)?` -/
def decimal (whole : Language Char) : Language Char :=
  whole * fraction * exponent + oneOf (· == '.') * digits * exponent

/-- `0|[1-9][0-9]*` -/
def whole : Language Char :=
  oneOf (· == '0') + oneOf (fun c => c.isDigit && c != '0') * (oneOf Char.isDigit)∗

/-- `0[xX][0-9a-fA-F]+` -/
def hexadecimal : Language Char := oneOf (· == '0') * oneOf (fun c => c == 'x' || c == 'X') * run isHexDigit

/-- The numeric literals of a source. -/
def numeric : Language Char := hexadecimal + decimal whole

theorem mem_run {p : Char → Bool} : t ∈ run p ↔ t ≠ [] ∧ ∀ c ∈ t, p c = true := by
  rw [run, Language.mem_mul]
  constructor
  · rintro ⟨_, ⟨c, hc, rfl⟩, ds, hds, rfl⟩
    refine ⟨List.cons_ne_nil _ _, ?_⟩
    simpa [hc] using mem_kstar_oneOf.1 hds
  · rintro ⟨hne, ht⟩
    obtain ⟨c, ds, rfl⟩ := List.exists_cons_of_ne_nil hne
    rw [List.forall_mem_cons] at ht
    exact ⟨[c], ⟨c, ht.1, rfl⟩, ds, mem_kstar_oneOf.2 ht.2, rfl⟩

theorem mem_sign : t ∈ sign ↔ t = [] ∨ t = ['+'] ∨ t = ['-'] := by
  simp only [sign, Language.mem_add, Language.mem_one, mem_oneOf, Bool.or_eq_true, beq_iff_eq]
  constructor
  · rintro (h | ⟨c, rfl | rfl, rfl⟩)
    · exact .inl h
    · exact .inr (.inl rfl)
    · exact .inr (.inr rfl)
  · rintro (h | rfl | rfl)
    · exact .inl h
    · exact .inr ⟨'+', .inl rfl, rfl⟩
    · exact .inr ⟨'-', .inr rfl, rfl⟩

theorem mem_fraction : f ∈ fraction ↔ f = [] ∨ ∃ ds, f = '.' :: ds ∧ ∀ c ∈ ds, c.isDigit = true := by
  simp only [fraction, Language.mem_add, Language.mem_one, Language.mem_mul, mem_oneOf, mem_kstar_oneOf, beq_iff_eq]
  constructor
  · rintro (h | ⟨_, ⟨_, rfl, rfl⟩, ds, hds, rfl⟩)
    · exact .inl h
    · exact .inr ⟨ds, rfl, hds⟩
  · rintro (h | ⟨ds, rfl, hds⟩)
    · exact .inl h
    · exact .inr ⟨_, ⟨_, rfl, rfl⟩, ds, hds, rfl⟩

theorem mem_exponent : x ∈ exponent ↔ x = [] ∨ ∃ c s ds, x = c :: (s ++ ds) ∧ (c = 'e' ∨ c = 'E') ∧ s ∈ sign ∧
    ds ≠ [] ∧ ∀ d ∈ ds, d.isDigit = true := by
  simp only [exponent, Language.mem_add, Language.mem_one, Language.mem_mul, mem_oneOf, digits, mem_run,
    Bool.or_eq_true, beq_iff_eq]
  constructor
  · rintro (h | ⟨_, ⟨_, ⟨c, hc, rfl⟩, s, hs, rfl⟩, ds, hds, rfl⟩)
    · exact .inl h
    · exact .inr ⟨c, s, ds, by simp, hc, hs, hds⟩
  · rintro (h | ⟨c, s, ds, rfl, hc, hs, hds⟩)
    · exact .inl h
    · exact .inr ⟨_, ⟨_, ⟨c, hc, rfl⟩, s, hs, rfl⟩, ds, hds, by simp⟩

theorem mem_hexadecimal : t ∈ hexadecimal ↔ ∃ c ds, t = '0' :: c :: ds ∧ (c = 'x' ∨ c = 'X') ∧ ds ≠ [] ∧
    ∀ d ∈ ds, isHexDigit d = true := by
  simp only [hexadecimal, Language.mem_mul, mem_oneOf, mem_run, Bool.or_eq_true, beq_iff_eq]
  constructor
  · rintro ⟨_, ⟨_, ⟨_, rfl, rfl⟩, _, ⟨c, hc, rfl⟩, rfl⟩, ds, hds, rfl⟩
    exact ⟨c, ds, rfl, hc, hds⟩
  · rintro ⟨c, ds, rfl, hc, hds⟩
    exact ⟨_, ⟨_, ⟨_, rfl, rfl⟩, _, ⟨c, hc, rfl⟩, rfl⟩, ds, hds, rfl⟩

/-- A decimal is made of its digits, its fraction and its exponent, and has a digit. -/
theorem mem_decimal {W : Language Char} : t ∈ decimal W ↔ ∃ w f x, t = w ++ (f ++ x) ∧ f ∈ fraction ∧ x ∈ exponent ∧
    (w ∈ W ∨ w = [] ∧ f.drop 1 ≠ []) := by
  simp only [decimal, Language.mem_add, Language.mem_mul]
  constructor
  · rintro (⟨_, ⟨w, hw, f, hf, rfl⟩, x, hx, rfl⟩ | ⟨_, ⟨_, ⟨_, hc, rfl⟩, ds, hds, rfl⟩, x, hx, rfl⟩)
    · exact ⟨w, f, x, List.append_assoc .., hf, hx, .inl hw⟩
    · obtain rfl := beq_iff_eq.1 hc
      obtain ⟨hne, hds⟩ := mem_run.1 hds
      exact ⟨[], '.' :: ds, x, rfl, mem_fraction.2 (.inr ⟨ds, rfl, hds⟩), hx, .inr ⟨rfl, hne⟩⟩
  · rintro ⟨w, f, x, rfl, hf, hx, hw | ⟨rfl, hne⟩⟩
    · exact .inl ⟨_, ⟨w, hw, f, hf, rfl⟩, x, hx, List.append_assoc ..⟩
    · rcases mem_fraction.1 hf with rfl | ⟨ds, rfl, hds⟩
      · exact absurd rfl hne
      · exact .inr ⟨_, ⟨_, ⟨'.', rfl, rfl⟩, ds, mem_run.2 ⟨hne, hds⟩, rfl⟩, x, hx, rfl⟩

theorem mem_whole : w ∈ whole ↔ w ≠ [] ∧ (∀ c ∈ w, c.isDigit = true) ∧ ∀ ds, w = '0' :: ds → ds = [] := by
  simp only [whole, Language.mem_add, Language.mem_mul, mem_oneOf, mem_kstar_oneOf, beq_iff_eq, Bool.and_eq_true,
    bne_iff_ne, ne_eq]
  constructor
  · rintro (⟨_, rfl, rfl⟩ | ⟨_, ⟨c, ⟨hc, hne⟩, rfl⟩, ds, hds, rfl⟩)
    · exact ⟨List.cons_ne_nil _ _, by simp, fun ds h => (List.cons.inj h).2.symm⟩
    · exact ⟨List.cons_ne_nil _ _, by simpa [hc] using hds, fun _ h => absurd (List.cons.inj h).1 hne⟩
  · rintro ⟨hne, hw, hzero⟩
    obtain ⟨c, ds, rfl⟩ := List.exists_cons_of_ne_nil hne
    rw [List.forall_mem_cons] at hw
    by_cases hc : c = '0'
    · subst hc
      rw [hzero ds rfl]
      exact .inl ⟨_, rfl, rfl⟩
    · exact .inr ⟨_, ⟨c, ⟨hw.1, hc⟩, rfl⟩, ds, hw.2, rfl⟩

end Form

/-! ### The parts of a literal -/

theorem digitRun_eq_self : digitRun t = t ↔ ∀ c ∈ t, c.isDigit = true := List.takeWhile_eq_self_iff

theorem digitRun_length_eq : (digitRun t).length = t.length ↔ ∀ c ∈ t, c.isDigit = true := by
  rw [← digitRun_eq_self]
  exact ⟨fun h => (List.takeWhile_prefix _).eq_of_length h, fun h => by rw [h]⟩

theorem digitRun_append_drop (t : List Char) : digitRun t ++ t.drop (digitRun t).length = t := by
  conv_rhs => rw [← List.take_append_drop (digitRun t).length t]
  rw [digitRun, take_takeWhile_length]

theorem fractionLength_of_ne {c : Char} (hc : c ≠ '.') (cs : List Char) : fractionLength (c :: cs) = 0 := by
  rw [fractionLength]
  intro _ h
  exact hc (List.cons.inj h).1

theorem signLength_of_ne {c : Char} (hplus : c ≠ '+') (hminus : c ≠ '-') (cs : List Char) :
    signLength (c :: cs) = 0 := by
  rw [signLength]
  · intro _ h
    exact hplus (List.cons.inj h).1
  · intro _ h
    exact hminus (List.cons.inj h).1

theorem exponentLength_of_ne {c : Char} (he : c ≠ 'e') (hE : c ≠ 'E') (cs : List Char) :
    exponentLength (c :: cs) = 0 := by
  simp [exponentLength, he, hE]

theorem ne_of_isDigit {c d : Char} (hc : c.isDigit = true) (hd : d.isDigit = false) : c ≠ d := by
  rintro rfl
  rw [hc] at hd
  cases hd

theorem fractionLength_eq_length : fractionLength f = f.length ↔ f ∈ Form.fraction := by
  rw [Form.mem_fraction]
  cases f with
  | nil => simp [fractionLength]
  | cons c cs =>
    by_cases hc : c = '.'
    · subst hc
      simp [fractionLength, ← digitRun_length_eq, Nat.add_comm 1]
    · simp [fractionLength_of_ne hc, hc]

theorem take_signLength_mem (cs : List Char) : cs.take (signLength cs) ∈ Form.sign := by
  rw [Form.mem_sign]
  unfold signLength
  split <;> simp

theorem signLength_append_digits {s ds : List Char} (hs : s ∈ Form.sign) (hds : ∀ c ∈ ds, c.isDigit = true) :
    signLength (s ++ ds) = s.length := by
  rcases Form.mem_sign.1 hs with rfl | rfl | rfl
  · cases ds with
    | nil => rfl
    | cons d ds =>
      have hd := hds d List.mem_cons_self
      exact signLength_of_ne (ne_of_isDigit hd (by decide)) (ne_of_isDigit hd (by decide)) ds
  · rfl
  · rfl

theorem exponentLength_eq_length : exponentLength x = x.length ↔ x ∈ Form.exponent := by
  rw [Form.mem_exponent]
  constructor
  · intro h
    cases x with
    | nil => exact .inl rfl
    | cons c cs =>
      by_cases hc : (c == 'e' || c == 'E') = true
      · have hle := signLength_le cs
        simp only [exponentLength, hc, if_true] at h
        split at h
        · cases h
        next n hn =>
          have hall : (digitRun (cs.drop (signLength cs))).length = (cs.drop (signLength cs)).length := by
            simp only [List.length_cons, List.length_drop] at h ⊢
            omega
          refine .inr ⟨c, _, _, by rw [List.take_append_drop], by simpa using hc, take_signLength_mem cs, ?_,
            digitRun_length_eq.1 hall⟩
          intro h0
          rw [h0] at hn
          cases hn
      · simp [exponentLength, hc] at h
  · rintro (rfl | ⟨c, s, ds, rfl, hc, hs, hne, hds⟩)
    · rfl
    · have hc' : (c == 'e' || c == 'E') = true := by simpa using hc
      obtain ⟨d, ds, rfl⟩ := List.exists_cons_of_ne_nil hne
      simp only [exponentLength, hc', if_true, signLength_append_digits hs hds, List.drop_left,
        digitRun_eq_self.2 hds, List.length_cons, List.length_append]
      omega

/-! ### Literals -/

theorem head_exponent (hx : x ∈ Form.exponent) : ∀ c ∈ x.head?, c = 'e' ∨ c = 'E' := by
  rcases Form.mem_exponent.1 hx with rfl | ⟨c, s, ds, rfl, hc, -⟩
  · simp
  · simpa using hc

/-- No digit stands behind the digits of a literal. -/
theorem head_behind_digits (hf : f ∈ Form.fraction) (hx : x ∈ Form.exponent) :
    ∀ c ∈ (f ++ x).head?, c.isDigit = false := by
  rcases Form.mem_fraction.1 hf with rfl | ⟨ds, rfl, -⟩
  · intro c hc
    rcases head_exponent hx c hc with rfl | rfl <;> decide
  · rintro c ⟨⟩
    decide

theorem fractionLength_append_exponent (hf : f ∈ Form.fraction) (hx : x ∈ Form.exponent) :
    fractionLength (f ++ x) = f.length := by
  have hhead := head_exponent hx
  rcases Form.mem_fraction.1 hf with rfl | ⟨ds, rfl, hds⟩
  · cases x with
    | nil => rfl
    | cons c x =>
      refine fractionLength_of_ne ?_ x
      rintro rfl
      simpa using hhead '.' rfl
  · have hrun : digitRun (ds ++ x) = ds := takeWhile_append_stop hds fun c hc => by
      rcases hhead c hc with rfl | rfl <;> decide
    rw [List.cons_append, fractionLength, hrun, List.length_cons, Nat.add_comm]

/-- What is read of the parts of a literal. -/
theorem literal?_append (hw : ∀ c ∈ w, c.isDigit = true) (hf : f ∈ Form.fraction) (hx : x ∈ Form.exponent)
    (hne : w ≠ [] ∨ f.drop 1 ≠ []) : literal? (w ++ (f ++ x)) = some ⟨w, f.drop 1, exponentValue x⟩ := by
  have hrun : digitRun (w ++ (f ++ x)) = w := takeWhile_append_stop hw (head_behind_digits hf hx)
  have hempty : (w.isEmpty && (f.drop 1).isEmpty) = false := by
    rw [Bool.and_eq_false_iff, List.isEmpty_eq_false_iff, List.isEmpty_eq_false_iff]
    exact hne
  simp only [literal?, hrun, List.drop_left, fractionLength_append_exponent hf hx, List.take_left, hempty,
    exponentLength_eq_length.2 hx, if_true, Bool.false_eq_true, if_false]

/-- A literal has the parts that are read of it. -/
theorem parts_of_literal? (h : literal? t = some l) : ∃ f x, t = l.whole ++ (f ++ x) ∧
    (∀ c ∈ l.whole, c.isDigit = true) ∧ f ∈ Form.fraction ∧ x ∈ Form.exponent ∧ (l.whole ≠ [] ∨ f.drop 1 ≠ []) ∧
    l.fraction = f.drop 1 ∧ l.exponent = exponentValue x := by
  unfold literal? at h
  extract_lets whole afterWhole fraction exponent at h
  split at h
  · cases h
  next hne =>
    split at h
    next hexponent =>
      cases h
      have hlen := fractionLength_le afterWhole
      refine ⟨afterWhole.take (fractionLength afterWhole), exponent, ?_, fun c hc => List.mem_takeWhile_imp hc, ?_,
        exponentLength_eq_length.1 hexponent, ?_, rfl, rfl⟩
      · rw [List.take_append_drop]
        exact (digitRun_append_drop t).symm
      · rw [← fractionLength_eq_length, fractionLength_take le_rfl, List.length_take_of_le hlen]
      · rw [Bool.and_eq_true, List.isEmpty_iff, List.isEmpty_iff, not_and_or] at hne
        exact hne
    · cases h

/-- The texts that are read as literals. -/
theorem exists_literal?_iff : (∃ l, literal? t = some l) ↔ t ∈ Form.decimal Form.digits := by
  rw [Form.mem_decimal]
  constructor
  · rintro ⟨l, h⟩
    obtain ⟨f, x, rfl, hw, hf, hx, hne, -⟩ := parts_of_literal? h
    refine ⟨l.whole, f, x, rfl, hf, hx, ?_⟩
    by_cases hw0 : l.whole = []
    · exact .inr ⟨hw0, hne.resolve_left (not_not_intro hw0)⟩
    · exact .inl (Form.mem_run.2 ⟨hw0, hw⟩)
  · rintro ⟨w, f, x, rfl, hf, hx, hw | ⟨rfl, hne⟩⟩
    · obtain ⟨hne, hw⟩ := Form.mem_run.1 hw
      exact ⟨_, literal?_append hw hf hx (.inl hne)⟩
    · exact ⟨_, literal?_append (by simp) hf hx (.inr hne)⟩

/-- A digit behind a leading zero is not reached. -/
theorem decimalLength_zero_digit {d : Char} (hd : d.isDigit = true) (rest : List Char) :
    decimalLength ('0' :: d :: rest) = 1 := by
  have hpoint := fractionLength_of_ne (ne_of_isDigit hd (by decide)) rest
  have hexponent := exponentLength_of_ne (ne_of_isDigit hd (by decide)) (ne_of_isDigit hd (by decide)) rest
  simp [decimalLength, wholeLength, hpoint, hexponent]

/-- The literals that a source reads to their ends have no digit behind a leading zero. -/
theorem mem_decimal_whole_iff :
    t ∈ Form.decimal Form.whole ↔ (∃ l, literal? t = some l) ∧ decimalLength t = t.length := by
  rw [Form.mem_decimal]
  constructor
  · rintro ⟨w, f, x, rfl, hf, hx, hw⟩
    have hdigits : ∀ c ∈ w, c.isDigit = true := by
      rcases hw with hw | ⟨rfl, -⟩
      · exact (Form.mem_whole.1 hw).2.1
      · simp
    have hne : w ≠ [] ∨ f.drop 1 ≠ [] := hw.imp (fun h => (Form.mem_whole.1 h).1) (·.2)
    have hl := literal?_append hdigits hf hx hne
    refine ⟨⟨_, hl⟩, decimalLength_of_literal? hl fun c rest heq => ?_⟩
    rcases hw with hw | ⟨rfl, hne⟩
    · obtain ⟨hne, -, hzero⟩ := Form.mem_whole.1 hw
      obtain ⟨d, ds, rfl⟩ := List.exists_cons_of_ne_nil hne
      obtain ⟨rfl, hbehind⟩ := List.cons.inj heq
      obtain rfl := hzero ds rfl
      have hbehind : f ++ x = c :: rest := hbehind
      exact head_behind_digits hf hx c (by rw [hbehind]; rfl)
    · rw [List.nil_append] at heq
      have hhead := head_behind_digits hf hx '0' (by rw [heq]; rfl)
      cases hhead
  · rintro ⟨⟨l, h⟩, hlen⟩
    obtain ⟨f, x, rfl, hw, hf, hx, hne, -⟩ := parts_of_literal? h
    refine ⟨l.whole, f, x, rfl, hf, hx, ?_⟩
    by_cases hw0 : l.whole = []
    · exact .inr ⟨hw0, hne.resolve_left (not_not_intro hw0)⟩
    · refine .inl (Form.mem_whole.2 ⟨hw0, hw, fun ds hds => ?_⟩)
      rw [hds] at hw hlen
      cases ds with
      | nil => rfl
      | cons d ds =>
        rw [List.cons_append, List.cons_append, decimalLength_zero_digit (hw d (by simp))] at hlen
        simp only [List.length_cons] at hlen
        omega

/-! ### The longest numeral -/

theorem take_fractionLength_mem (cs : List Char) : cs.take (fractionLength cs) ∈ Form.fraction := by
  rw [← fractionLength_eq_length, fractionLength_take le_rfl, List.length_take_of_le (fractionLength_le cs)]

theorem take_exponentLength_mem (cs : List Char) : cs.take (exponentLength cs) ∈ Form.exponent := by
  rw [← exponentLength_eq_length, exponentLength_take le_rfl, List.length_take_of_le (exponentLength_le cs)]

theorem take_wholeLength_mem {c : Char} (hc : c.isDigit = true) (rest : List Char) :
    (c :: rest).take (wholeLength (c :: rest)) ∈ Form.whole := by
  rw [Form.mem_whole]
  by_cases hzero : c = '0'
  · subst hzero
    simp [wholeLength]
  · have hlen : wholeLength (c :: rest) = (digitRun (c :: rest)).length := by
      rw [wholeLength]
      intro _ h
      exact hzero (List.cons.inj h).1
    rw [hlen, digitRun, take_takeWhile_length, List.takeWhile_cons_of_pos hc]
    refine ⟨List.cons_ne_nil _ _, ?_, fun _ h => absurd (List.cons.inj h).1 hzero⟩
    rw [List.forall_mem_cons]
    exact ⟨hc, fun _ hd => List.mem_takeWhile_imp hd⟩

/-- What a scanner takes as a decimal is one. -/
theorem take_decimalLength_mem (h : startsNumber r = true) : r.take (decimalLength r) ∈ Form.decimal Form.whole := by
  rw [Form.mem_decimal]
  refine ⟨r.take (wholeLength r), _, _, ?_, take_fractionLength_mem (r.drop (wholeLength r)),
    take_exponentLength_mem (r.drop (wholeLength r + fractionLength (r.drop (wholeLength r)))), ?_⟩
  · simp only [decimalLength, List.take_add, List.append_assoc]
  · unfold startsNumber at h
    split at h
    next c rest =>
      have hpoint : '.'.isDigit = false := by decide
      refine .inr ⟨by simp [wholeLength, digitRun, hpoint], ?_⟩
      simp [wholeLength, digitRun, fractionLength, hpoint, h, Nat.add_comm 1]
    next c rest _ => exact .inl (take_wholeLength_mem h rest)
    · cases h

/-- What a scanner takes as a decimal is the longest one that the text starts with: if it were shorter than `m`,
it would be all that it takes of `m`. -/
theorem longest_decimal (h : startsNumber r = true) :
    Longest (Form.decimal Form.whole) r (r.take (decimalLength r)) where
  mem := take_decimalLength_mem h
  isPrefix := List.take_prefix _ _
  le m hm hprefix := by
    rw [List.length_take]
    refine le_min ?_ hprefix.length_le
    by_contra hlt
    have hsame := decimalLength_take (not_le.1 hlt).le
    rw [← List.prefix_iff_eq_take.1 hprefix, (mem_decimal_whole_iff.1 hm).2] at hsame
    omega

theorem decimalLength_zero_letter {c : Char} (hc : c = 'x' ∨ c = 'X') (ds : List Char) :
    decimalLength ('0' :: c :: ds) = 1 := by
  rcases hc with rfl | rfl
  · simp [decimalLength, wholeLength, fractionLength, exponentLength]
  · simp [decimalLength, wholeLength, fractionLength, exponentLength]

theorem numeral?_zero_letter {c : Char} (hc : c = 'x' ∨ c = 'X') (ds : List Char) : numeral? ('0' :: c :: ds) =
    if (ds.takeWhile isHexDigit).isEmpty then none
    else some (hexValue (ds.takeWhile isHexDigit), (ds.takeWhile isHexDigit).length + 2) := by
  rcases hc with rfl | rfl <;> rfl

theorem numeral?_of_not_letter (h : ∀ c ds, r = '0' :: c :: ds → ¬ (c = 'x' ∨ c = 'X')) :
    numeral? r = (literal? (r.take (decimalLength r))).map fun l => (l.toFloat, decimalLength r) := by
  unfold numeral?
  dsimp only
  split
  · exact absurd (.inl rfl) (h _ _ rfl)
  · exact absurd (.inr rfl) (h _ _ rfl)
  · rfl

theorem length_le_of_hexadecimal {c : Char} {ds : List Char} (hm : m ∈ Form.hexadecimal)
    (h : m <+: '0' :: c :: ds) : m.length ≤ (ds.takeWhile isHexDigit).length + 2 ∧ ds.takeWhile isHexDigit ≠ [] := by
  obtain ⟨d, run, rfl, -, hne, hrun⟩ := Form.mem_hexadecimal.1 hm
  have hds : run <+: ds := (List.cons_prefix_cons.1 (List.cons_prefix_cons.1 h).2).2
  have hle := length_le_takeWhile hrun hds
  have hpos := List.length_pos_of_ne_nil hne
  exact ⟨by simpa using hle, List.ne_nil_of_length_pos (by omega)⟩

/-- Behind `0x` the longest numeral ends with the hexadecimal digits; without digits it is the zero. -/
theorem longest_zero_letter {c : Char} (hc : c = 'x' ∨ c = 'X') (ds : List Char) :
    Longest Form.numeric ('0' :: c :: ds)
      (if ds.takeWhile isHexDigit = [] then ['0'] else '0' :: c :: ds.takeWhile isHexDigit) := by
  have hdecimal := longest_decimal (r := '0' :: c :: ds) rfl
  rw [decimalLength_zero_letter hc] at hdecimal
  split
  next hrun =>
    refine ⟨.inr hdecimal.mem, hdecimal.isPrefix, ?_⟩
    rintro m (hm | hm) hprefix
    · exact absurd hrun (length_le_of_hexadecimal hm hprefix).2
    · exact hdecimal.le m hm hprefix
  next hrun =>
    refine ⟨.inl (Form.mem_hexadecimal.2 ⟨c, _, rfl, hc, hrun, fun _ hd => List.mem_takeWhile_imp hd⟩), ?_, ?_⟩
    · simpa using List.takeWhile_prefix isHexDigit
    · rintro m (hm | hm) hprefix
      · exact (length_le_of_hexadecimal hm hprefix).1
      · exact (hdecimal.le m hm hprefix).trans (by simp)

/-- The longest numeral that a text starts with is what a scanner takes. Only where the digits behind `0x` are
missing does it take none: there the longest numeral is the zero, and a letter stands behind it. -/
theorem longest_numeric (h : startsNumber r = true) : ∃ n, Longest Form.numeric r (r.take n) ∧
    ((∃ x, numeral? r = some (x, n) ∧ Numeral (r.take n) x) ∨
      numeral? r = none ∧ (r.drop n).head?.any isNamePart = true) := by
  by_cases hletter : ∃ c ds, r = '0' :: c :: ds ∧ (c = 'x' ∨ c = 'X')
  · obtain ⟨c, ds, rfl, hc⟩ := hletter
    have hlongest := longest_zero_letter hc ds
    rw [numeral?_zero_letter hc]
    by_cases hrun : ds.takeWhile isHexDigit = []
    · rw [if_pos hrun] at hlongest
      refine ⟨1, hlongest, .inr ⟨by simp [hrun], ?_⟩⟩
      rcases hc with rfl | rfl <;> rfl
    · rw [if_neg hrun] at hlongest
      refine ⟨(ds.takeWhile isHexDigit).length + 2, ?_, .inl ⟨_, if_neg (by simpa using hrun), ?_⟩⟩
      · simpa [take_takeWhile_length] using hlongest
      · simp only [List.take_succ_cons, take_takeWhile_length]
        exact .of_isHexDigit hc hrun fun _ hd => List.mem_takeWhile_imp hd
  · have hnot : ∀ c ds, r = '0' :: c :: ds → ¬ (c = 'x' ∨ c = 'X') := fun c ds hr hc => hletter ⟨c, ds, hr, hc⟩
    have hlongest := longest_decimal h
    refine ⟨decimalLength r, ⟨.inr hlongest.mem, hlongest.isPrefix, ?_⟩, .inl ?_⟩
    · rintro m (hm | hm) hprefix
      · obtain ⟨c, ds, rfl, hc, -⟩ := Form.mem_hexadecimal.1 hm
        obtain ⟨t, rfl⟩ := hprefix
        exact absurd hc (hnot c _ rfl)
      · exact hlongest.le m hm hprefix
    · obtain ⟨⟨l, hl⟩, hlen⟩ := mem_decimal_whole_iff.1 hlongest.mem
      exact ⟨l.toFloat, by rw [numeral?_of_not_letter hnot, hl]; rfl, .decimal hl hlen⟩

theorem startsNumber_iff : startsNumber r = true ↔
    ∃ c rest, c.isDigit = true ∧ (r = c :: rest ∨ r = '.' :: c :: rest) := by
  constructor
  · intro h
    unfold startsNumber at h
    split at h
    · exact ⟨_, _, h, .inr rfl⟩
    · exact ⟨_, _, h, .inl rfl⟩
    · cases h
  · rintro ⟨c, rest, hc, rfl | rfl⟩
    · rw [startsNumber]
      · exact hc
      · rintro _ _ rfl
        cases hc
    · exact hc

/-- Numbers at a place of a source. Where a digit stands, or a point and a digit, the longest numeric literal that
the text starts with is scanned as a number of its value, whatever is expected, unless a character of a name stands
behind it: then nothing is. What a scanner takes as a decimal can always be read. -/
theorem numeric_literals_longest {source r : List Char} {i : Nat} (hi : StandsAt source i r)
    (hr : ∃ c rest, c.isDigit = true ∧ (r = c :: rest ∨ r = '.' :: c :: rest)) :
    (∃ m rest, Longest Form.numeric r m ∧ m ++ rest = r ∧
      ((∃ c ∈ rest.head?, isNamePart c = true) → ∀ mode, next? source i mode = some (.error i)) ∧
      ((∀ c ∈ rest.head?, isNamePart c = false) → ∃ x, Numeral m x ∧ ∀ mode,
        next? source i mode = some (.ok (⟨.number x, i, i + byteLength m⟩, i + byteLength m)))) ∧
    ∃ l, literal? (r.take (decimalLength r)) = some l := by
  have hstart := startsNumber_iff.2 hr
  obtain ⟨c, cs, hcs, hc⟩ := exists_cons_of_startsNumber hstart
  have hblank : ∀ d ∈ r.head?, isBlank d = false := by
    rw [hcs]
    rintro d ⟨⟩
    exact isBlank_of_starts hc
  refine ⟨?_, (mem_decimal_whole_iff.1 (take_decimalLength_mem hstart)).1⟩
  obtain ⟨n, hlongest, hscan⟩ := longest_numeric hstart
  refine ⟨r.take n, r.drop n, hlongest, List.take_append_drop n r, ?_, ?_⟩
  · rintro ⟨d, hd, hname⟩ mode
    refine next?_of_rule?_none hi (by simp [hcs]) hblank ?_
    rw [rule?_of_startsNumber hstart, number?]
    rcases hscan with ⟨x, hx, -⟩ | ⟨hnone, -⟩
    · simp [hx, Option.mem_def.1 hd, hname]
    · rw [hnone]
  · intro hstop
    have hany : ¬ (r.drop n).head?.any isNamePart = true := by
      rw [Option.any_eq_true]
      rintro ⟨d, hd, hname⟩
      rw [hstop d hd] at hname
      cases hname
    obtain ⟨x, hx, hnumeral⟩ := hscan.resolve_right fun h => hany h.2
    refine ⟨x, hnumeral, fun mode => next?_of_rule? hi hblank ?_⟩
    rw [rule?_of_startsNumber hstart, number?, hx]
    exact if_neg hany

/-- A point without digits behind it, an exponent, and no second exponent. -/
theorem numeric_literals_longest_exponent :
    ∃ m rest, Longest Form.numeric "1.e5e".toList m ∧ m ++ rest = "1.e5e".toList ∧
      ((∃ c ∈ rest.head?, isNamePart c = true) → ∀ mode, next? "x=1.e5e".toList 2 mode = some (.error 2)) ∧
      ((∀ c ∈ rest.head?, isNamePart c = false) → ∃ x, Numeral m x ∧ ∀ mode,
        next? "x=1.e5e".toList 2 mode = some (.ok (⟨.number x, 2, 2 + byteLength m⟩, 2 + byteLength m))) := by
  have hstands : StandsAt "x=1.e5e".toList 2 "1.e5e".toList := ⟨['x', '='], by decide, by decide⟩
  exact (numeric_literals_longest hstands ⟨'1', ".e5e".toList, by decide, .inl (by decide)⟩).1

example : next? "x=1.e5e".toList 2 .operand = some (.error 2) ∧
    next? "x=08".toList 2 .operand = some (.error 2) ∧ next? "x=0xg".toList 2 .operand = some (.error 2) ∧
    next? "x=1..y".toList 2 .operand = some (.ok (⟨.number 1.0, 2, 4⟩, 4)) := by decide +kernel

end Scriptlet
