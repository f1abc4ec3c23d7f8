import Scriptlet.Proofs.NumericGrammar
import Scriptlet.Proofs.WordStarts
import Scriptlet.Token.Steps

/-!
# The scanner that moves by positions

The scanner that moves through a source by byte positions goes on only behind characters that it has seen, so
whole characters stand before each of its positions (`StandsAt`) and none of its slices fails. What its loops and
rules find is what the lexical rules find at the start of the text that stands there, and where they end is counted
in characters (`behind`). Each rule has its lemma; together they say that both scanners give the same answer at all
positions (`nextSteps?_eq`).
-/

namespace Scriptlet

open Text Number Token

variable {source r t rest : List Char} {c : Char} {i start n : Nat}

/-! ### Positions -/

namespace Text

/-- The position behind the first `n` characters of a text that stands at byte `i`. -/
def behind (i : Nat) (r : List Char) (n : Nat) : Nat := i + byteLength (r.take n)

@[simp] theorem behind_zero : behind i r 0 = i := by simp [behind]

@[simp] theorem behind_cons (n : Nat) : behind i (c :: r) (n + 1) = behind (i + c.utf8Size) r n := by
  simp [behind, Nat.add_assoc]

theorem behind_add (m n : Nat) : behind i r (m + n) = behind (behind i r m) (r.drop m) n := by
  rw [behind, behind, behind, List.take_add, byteLength_append, Nat.add_assoc]

theorem isBlank_of_isLineEnd (h : isLineEnd c = true) : isBlank c = true := by
  simp only [isLineEnd, Bool.or_eq_true, beq_iff_eq] at h
  rcases h with ((rfl | rfl) | rfl) | rfl <;> rfl

namespace StandsAt

theorem next (h : StandsAt source i (c :: r)) : StandsAt source (i + c.utf8Size) r :=
  Text.StandsAt.behind (show StandsAt source i ([c] ++ r) from h)

theorem skip (h : StandsAt source i r) (n : Nat) : StandsAt source (Text.behind i r n) (r.drop n) := by
  rw [← List.take_append_drop n r] at h
  exact h.behind

theorem sliceFrom? (h : StandsAt source i r) : sliceFrom? i source = some r := by
  obtain ⟨before, rfl, rfl⟩ := h
  rw [Text.sliceFrom?, if_pos (by simp), dropBytes?_append]

theorem slice? (h : StandsAt source i r) (n : Nat) : slice? i (Text.behind i r n) source = some (r.take n) := by
  have htake := takeBytes?_append (r.take n) (r.drop n)
  rw [List.take_append_drop] at htake
  rw [Text.slice?, Text.behind, if_pos (Nat.le_add_right ..), h.sliceFrom?, Option.bind_some, Nat.add_sub_cancel_left,
    htake]

theorem peek? (h : StandsAt source i r) : peek? source i = some r.head? := by
  rw [Text.peek?, h.sliceFrom?, Option.map_some]

theorem peekNext? (h : StandsAt source i r) : peekNext? source i = some r[1]? := by
  rw [Text.peekNext?, h.sliceFrom?, Option.map_some]

theorem eat?_of_pos (h : StandsAt source i (c :: r)) {p : Char → Bool} (hc : p c = true) :
    eat? source p i = some (some (i + c.utf8Size)) := by
  rw [Token.eat?, h.peek?]
  simp [hc]

theorem eat?_of_neg (h : StandsAt source i r) {p : Char → Bool} (hr : ∀ c ∈ r.head?, p c = false) :
    eat? source p i = some none := by
  rw [Token.eat?, h.peek?]
  cases r with
  | nil => rfl
  | cons c r => simp [hr c rfl]

/-! ### Loops -/

theorem skipWhile? (h : StandsAt source i r) (p : Char → Bool) :
    skipWhile? source p i = some (Text.behind i r (r.takeWhile p).length) := by
  induction r generalizing i with
  | nil =>
    rw [Token.skipWhile?, h.peek?]
    simp
  | cons c r ih =>
    rw [Token.skipWhile?, h.peek?, List.takeWhile_cons]
    simp only [List.head?_cons, ih h.next]
    split
    · rw [List.length_cons, behind_cons]
    · rw [List.length_nil, behind_zero]

theorem skipBlanks? (h : StandsAt source i r) (crossed : Bool) : skipBlanks? source crossed i =
    some (crossed || (r.takeWhile isBlank).any isLineEnd, Text.behind i r (r.takeWhile isBlank).length) := by
  induction r generalizing i crossed with
  | nil =>
    rw [Token.skipBlanks?, h.peek?]
    simp
  | cons c r ih =>
    rw [Token.skipBlanks?, h.peek?, List.takeWhile_cons]
    simp only [List.head?_cons, ih h.next]
    split_ifs with hline hblank hblank
    · simp [hline]
    · rw [isBlank_of_isLineEnd hline] at hblank
      cases hblank rfl
    · simp [hline]
    · simp

theorem closing? (h : StandsAt source i r) (quote : Char) : closing? source quote i =
    some (if (r.takeWhile (· != quote)).length < r.length
      then some (Text.behind i r ((r.takeWhile (· != quote)).length + 1)) else none) := by
  induction r generalizing i with
  | nil =>
    rw [Token.closing?, h.peek?]
    simp
  | cons c r ih =>
    rw [Token.closing?, h.peek?]
    simp only [List.head?_cons, ih h.next]
    by_cases hc : c = quote
    · simp [hc]
    · simp [hc]

theorem patternEnd? (h : StandsAt source i r) (inClass : Bool) : patternEnd? source inClass i =
    some ((patternLength? inClass r).map fun n => Text.behind i r (n + 1)) := by
  fun_induction patternLength? inClass r generalizing i with
  | case1 inClass =>
    rw [Token.patternEnd?, h.peek?]
    rfl
  | case2 inClass =>
    rw [Token.patternEnd?, h.peek?]
    simp only [List.head?_cons, h.next.peek?]
    rfl
  | case3 inClass c cs hl =>
    rw [Token.patternEnd?, h.peek?]
    simp only [List.head?_cons, h.next.peek?, hl]
    rfl
  | case4 inClass c cs hl ih =>
    rw [Token.patternEnd?, h.peek?]
    have hslash : isLineEnd '\\' = false := rfl
    simp only [List.head?_cons, h.next.peek?, ih h.next.next, hslash, hl]
    simp [Function.comp_def]
  | case5 inClass c cs _ _ hl =>
    rw [Token.patternEnd?, h.peek?]
    simp only [List.head?_cons, hl]
    rfl
  | case6 inClass c cs h1 h2 hl hs =>
    obtain ⟨rfl, rfl⟩ : c = '/' ∧ inClass = false := by simpa using hs
    rw [Token.patternEnd?, h.peek?]
    simp [isLineEnd]
  | case7 inClass c cs h1 h2 hl hs ih =>
    have hb := ne_backslash h1 h2
    rw [Token.patternEnd?, h.peek?]
    have hclass : (c == '[' || (inClass && c != ']')) =
        if c = '[' then true else if c = ']' then false else inClass := by
      grind
    have hnext := ih h.next
    rw [hclass] at hnext ⊢
    simp only [List.head?_cons, eq_false_of_ne_true hl, eq_false_of_ne_true hs, beq_iff_eq, hb, Bool.false_eq_true,
      if_false, Option.map_map, Function.comp_def, behind_cons]
    split_ifs at hnext ⊢ <;> exact hnext

theorem foldHex? (h : StandsAt source i r) (value : Float) (found : Bool) : foldHex? source value found i =
    some ((r.takeWhile isHexDigit).foldl (fun x c => x * 16.0 + ofNat ((hexDigit? c).getD 0)) value,
      found || !(r.takeWhile isHexDigit).isEmpty, Text.behind i r (r.takeWhile isHexDigit).length) := by
  induction r generalizing i value found with
  | nil =>
    rw [Token.foldHex?, h.peek?]
    simp
  | cons c r ih =>
    rw [Token.foldHex?, h.peek?, List.takeWhile_cons]
    simp only [List.head?_cons, isHexDigit]
    split
    next d hd =>
      rw [ih h.next]
      simp [hd]
    next hd => simp [hd]

end StandsAt

end Text

/-! ### Numbers -/

namespace Token

/-- What a rule finds at the start of a text that stands at byte `start`, with its length as a position. -/
def measured {α : Type} (start : Nat) (r : List Char) : Option (α × Nat) → Except Nat (α × Nat)
  | some (a, n) => .ok (a, behind start r n)
  | none => .error start

theorem exponentLength_cons (hc : c = 'e' ∨ c = 'E') (r : List Char) : exponentLength (c :: r) =
    if (r.drop (signLength r)).head?.any Char.isDigit
      then 1 + signLength r + (digitRun (r.drop (signLength r))).length else 0 := by
  have hmark : (c == 'e' || c == 'E') = true := by simpa using hc
  simp only [exponentLength, hmark, if_true]
  cases r.drop (signLength r) with
  | nil => rfl
  | cons d ds =>
    by_cases hd : d.isDigit = true
    · simp [digitRun, hd]
    · simp [digitRun, hd]

theorem decimalLength_eq (r : List Char) : decimalLength r = wholeLength r +
    (fractionLength (r.drop (wholeLength r)) +
      exponentLength ((r.drop (wholeLength r)).drop (fractionLength (r.drop (wholeLength r))))) := by
  rw [decimalLength, Nat.add_assoc, List.drop_drop]

theorem wholeLength_of_ne (hc : c ≠ '0') (r : List Char) : wholeLength (c :: r) = (digitRun (c :: r)).length := by
  rw [wholeLength]
  rintro _ h
  exact hc (List.cons.inj h).1

end Token

namespace Text.StandsAt

theorem digitsFollow? (h : StandsAt source i (c :: r)) (hc : c.utf8Size = 1) :
    digitsFollow? source i = some ((r.drop (signLength r)).head?.any Char.isDigit) := by
  rw [Token.digitsFollow?, h.peekNext?]
  cases r with
  | nil => rfl
  | cons d r =>
    by_cases hd : d = '+' ∨ d = '-'
    · have hsize : d.utf8Size = 1 := by rcases hd with rfl | rfl <;> rfl
      have hbehind := h.next.next.sliceFrom?
      rw [hc, hsize] at hbehind
      rcases hd with rfl | rfl <;> simp [hbehind, signLength]
    · have hzero : signLength (d :: r) = 0 := signLength_of_ne (fun h => hd (.inl h)) (fun h => hd (.inr h)) r
      simp [hzero, hd]

theorem skipSign (h : StandsAt source i r) : ∃ sign, eat? source (fun c => c == '+' || c == '-') i = some sign ∧
    sign.getD i = Text.behind i r (signLength r) := by
  cases r with
  | nil => exact ⟨none, h.eat?_of_neg nofun, by simp [signLength]⟩
  | cons c r =>
    by_cases hc : c = '+' ∨ c = '-'
    · refine ⟨_, h.eat?_of_pos (by simpa using hc), ?_⟩
      rcases hc with rfl | rfl <;> simp [signLength]
    · have hzero := signLength_of_ne (fun h => hc (.inl h)) (fun h => hc (.inr h)) r
      refine ⟨none, h.eat?_of_neg ?_, by simp [hzero]⟩
      rintro d ⟨⟩
      simpa using hc

theorem exponentEnd? (h : StandsAt source i r) :
    exponentEnd? source i = some (Text.behind i r (exponentLength r)) := by
  rw [Token.exponentEnd?]
  cases r with
  | nil =>
    rw [h.eat?_of_neg nofun]
    simp [exponentLength]
  | cons c r =>
    by_cases hc : c = 'e' ∨ c = 'E'
    · have hsize : c.utf8Size = 1 := by rcases hc with rfl | rfl <;> rfl
      obtain ⟨sign, hsign, hbehind⟩ := h.next.skipSign
      rw [h.eat?_of_pos (by simpa using hc), exponentLength_cons hc]
      simp only [Option.bind_eq_bind, Option.bind_some, h.digitsFollow? hsize, hsign, hbehind,
        (h.next.skip (signLength r)).skipWhile?]
      split_ifs
      · rw [Nat.add_assoc, Nat.add_comm 1, behind_cons, behind_add, digitRun]
      · rw [behind_zero]
        rfl
    · have hzero := exponentLength_of_ne (fun h => hc (.inl h)) (fun h => hc (.inr h)) r
      rw [h.eat?_of_neg (by rintro d ⟨⟩; simpa using hc), hzero, behind_zero]
      rfl

theorem tailEnd? (h : StandsAt source i r) : tailEnd? source i =
    some (Text.behind i r (fractionLength r + exponentLength (r.drop (fractionLength r)))) := by
  rw [Token.tailEnd?, behind_add]
  by_cases hpoint : ∃ ds, r = '.' :: ds
  · obtain ⟨ds, rfl⟩ := hpoint
    rw [h.eat?_of_pos rfl]
    have hdigits := h.next.skip (digitRun ds).length
    simp only [Option.bind_eq_bind, Option.bind_some, h.next.skipWhile?]
    rw [fractionLength, Nat.add_comm 1, behind_cons, List.drop_succ_cons]
    exact hdigits.exponentEnd?
  · have hzero : fractionLength r = 0 := by
      cases r with
      | nil => rfl
      | cons c r => exact fractionLength_of_ne (fun hc => hpoint ⟨r, by rw [hc]⟩) r
    have hne : ∀ c ∈ r.head?, (c == '.') = false := by
      intro c hc
      obtain ⟨rest, rfl⟩ := List.head?_eq_some_iff.1 hc
      exact beq_eq_false_iff_ne.2 fun hc => hpoint ⟨rest, by rw [hc]⟩
    rw [h.eat?_of_neg hne, hzero, behind_zero]
    exact h.exponentEnd?

/-- A decimal ends where its whole digits, its fraction and its exponent end. -/
theorem decimalEnd? (h : StandsAt source start (c :: r)) (hc : c = '.' ∨ c.isDigit = true) :
    decimalEnd? source (some c) (start + c.utf8Size) = some (Text.behind start (c :: r) (decimalLength (c :: r))) := by
  rw [Token.decimalEnd?, decimalLength_eq, behind_add]
  simp only [Option.some.injEq]
  split_ifs with hpoint hzero
  · subst hpoint
    have hwhole : wholeLength ('.' :: r) = 0 := rfl
    rw [hwhole, behind_zero, List.drop_zero, behind_add, fractionLength, Nat.add_comm 1, behind_cons,
      List.drop_succ_cons]
    simp only [Option.bind_eq_bind, Option.bind_some, h.next.skipWhile?]
    exact (h.next.skip (digitRun r).length).exponentEnd?
  · subst hzero
    have hwhole : wholeLength ('0' :: r) = 1 := rfl
    rw [hwhole, behind_cons, behind_zero]
    exact h.next.tailEnd?
  · have hrun : digitRun (c :: r) = c :: digitRun r := List.takeWhile_cons_of_pos (hc.resolve_left hpoint)
    rw [wholeLength_of_ne hzero, hrun, List.length_cons, behind_cons, List.drop_succ_cons]
    simp only [Option.bind_eq_bind, Option.bind_some, h.next.skipWhile?]
    exact (h.next.skip (digitRun r).length).tailEnd?

theorem numeralSteps? (h : StandsAt source start (c :: r)) (hc : c = '.' ∨ c.isDigit = true) :
    numeralSteps? source start (start + c.utf8Size) = some (measured start (c :: r) (numeral? (c :: r))) := by
  have hdecimal : decimalSteps? source (some c) start (start + c.utf8Size) = some (measured start (c :: r)
      ((literal? ((c :: r).take (decimalLength (c :: r)))).map fun l => (l.toFloat, decimalLength (c :: r)))) := by
    rw [decimalSteps?, h.decimalEnd? hc]
    simp only [Option.bind_eq_bind, Option.bind_some, h.slice?]
    cases literal? ((c :: r).take (decimalLength (c :: r))) <;> rfl
  rw [Token.numeralSteps?, h.sliceFrom?]
  simp only [Option.bind_eq_bind, Option.bind_some, List.head?_cons, Option.some.injEq]
  by_cases hmark : c = '0' ∧ ∃ x ds, r = x :: ds ∧ (x = 'x' ∨ x = 'X')
  · obtain ⟨rfl, x, ds, rfl, hx⟩ := hmark
    have hsize : x.utf8Size = 1 := by rcases hx with rfl | rfl <;> rfl
    simp only [if_true, h.next.eat?_of_pos (p := fun c => c == 'x' || c == 'X') (by simpa using hx), Option.bind_some,
      hexSteps?, Option.bind_eq_bind, h.next.next.foldHex?, numeral?_zero_letter hx]
    by_cases hrun : (ds.takeWhile isHexDigit).isEmpty = true
    · simp [hrun, measured]
    · simp [hrun, measured, hexValue]
  · have hletter : ∀ x ds, c :: r = '0' :: x :: ds → ¬ (x = 'x' ∨ x = 'X') := fun x ds hr hx =>
      hmark ⟨(List.cons.inj hr).1, x, ds, (List.cons.inj hr).2, hx⟩
    rw [numeral?_of_not_letter hletter, ← hdecimal]
    split_ifs with hzero
    · subst hzero
      rw [h.next.eat?_of_neg]
      · rfl
      · intro x hx
        obtain ⟨ds, rfl⟩ := List.head?_eq_some_iff.1 hx
        simpa using hletter x ds rfl
    · rfl

theorem numberSteps? (h : StandsAt source start (c :: r)) (hc : c = '.' ∨ c.isDigit = true) :
    numberSteps? source start (start + c.utf8Size) = some (measured start (c :: r) (number? (c :: r))) := by
  rw [Token.numberSteps?, h.numeralSteps? hc, number?]
  cases numeral? (c :: r) with
  | none => rfl
  | some found =>
    obtain ⟨x, n⟩ := found
    simp only [measured, Option.bind_eq_bind, Option.bind_some, (h.skip n).peek?]
    split_ifs <;> rfl

/-! ### Rules -/

theorem nameSteps? (h : StandsAt source start (c :: r)) (hc : isNamePart c = true) :
    nameSteps? source start (start + c.utf8Size) = some (measured start (c :: r) (some (wordOrName (c :: r)))) := by
  have hrun : (c :: r).takeWhile isNamePart = c :: r.takeWhile isNamePart := List.takeWhile_cons_of_pos hc
  have hslice := h.slice? ((c :: r).takeWhile isNamePart).length
  rw [take_takeWhile_length, hrun, List.length_cons, behind_cons] at hslice
  simp only [Token.nameSteps?, Option.bind_eq_bind, Option.bind_some, h.next.skipWhile?, hslice, wordOrName, hrun,
    measured, List.length_cons, behind_cons]
  rfl

theorem drop_takeWhile_of_lt (hlt : (r.takeWhile (· != c)).length < r.length) :
    r.drop (r.takeWhile (· != c)).length = c :: r.drop ((r.takeWhile (· != c)).length + 1) := by
  induction r with
  | nil => simp at hlt
  | cons d r ih =>
    by_cases hd : d = c
    · simp [hd]
    · have hrun : (d :: r).takeWhile (· != c) = d :: r.takeWhile (· != c) :=
        List.takeWhile_cons_of_pos (bne_iff_ne.2 hd)
      rw [hrun] at hlt ⊢
      exact ih (Nat.lt_of_succ_lt_succ hlt)

/-- The body of a string ends before the quote that closes it. -/
theorem stringSteps? (h : StandsAt source start (c :: r)) :
    stringSteps? source c start (start + c.utf8Size) = some (measured start (c :: r) (string? c r)) := by
  simp only [Token.stringSteps?, Option.bind_eq_bind, Option.bind_some, h.next.closing?, string?]
  split_ifs with hlt
  · have hquote := drop_takeWhile_of_lt hlt
    have hbody := h.next.slice? (r.takeWhile (· != c)).length
    rw [take_takeWhile_length] at hbody
    have hend : Text.behind (start + c.utf8Size) r ((r.takeWhile (· != c)).length + 1) =
        Text.behind (start + c.utf8Size) r (r.takeWhile (· != c)).length + c.utf8Size := by
      rw [behind_add, hquote, behind_cons, behind_zero]
    simp only [hend, Nat.add_sub_cancel, hbody, Option.bind_some, measured, behind_cons]
    rfl
  · rfl

theorem regExpSteps? (h : StandsAt source start ('/' :: r)) :
    regExpSteps? source start (start + 1) = some (measured start ('/' :: r) (regExp? r)) := by
  have hnext : StandsAt source (start + 1) r := h.next
  simp only [Token.regExpSteps?, Option.bind_eq_bind, Option.bind_some, hnext.patternEnd?, regExp?]
  cases hn : patternLength? false r with
  | none => rfl
  | some n =>
    have hslash := patternLength?_drop hn
    have hend : Text.behind (start + 1) r (n + 1) = Text.behind (start + 1) r n + 1 := by
      rw [behind_add, hslash, behind_cons, behind_zero]
      rfl
    have hflags := (hnext.skip (n + 1)).slice? ((r.drop (n + 1)).takeWhile isNamePart).length
    rw [take_takeWhile_length] at hflags
    have hstop : Text.behind start ('/' :: r) (n + 2 + ((r.drop (n + 1)).takeWhile isNamePart).length) =
        Text.behind (Text.behind (start + 1) r (n + 1)) (r.drop (n + 1))
          ((r.drop (n + 1)).takeWhile isNamePart).length := by
      rw [← behind_add, show n + 2 + ((r.drop (n + 1)).takeWhile isNamePart).length =
        n + 1 + ((r.drop (n + 1)).takeWhile isNamePart).length + 1 by omega, behind_cons]
      rfl
    simp only [Option.map_some, measured, hstop, (hnext.skip (n + 1)).skipWhile?, Option.bind_some, hflags]
    rw [hend, Nat.add_sub_cancel, hnext.slice? n]
    rfl

theorem punctSteps? (h : StandsAt source start r) :
    punctSteps? source start = some (measured start r (punctuator? r)) := by
  rw [Token.punctSteps?, h.sliceFrom?, punctuator?]
  simp only [Option.bind_eq_bind, Option.bind_some]
  cases hp : Punct.scan? r with
  | none => rfl
  | some found =>
    obtain ⟨p, rest⟩ := found
    obtain ⟨-, rfl⟩ := Punct.scan?_eq_some_iff.1 hp
    simp [measured, Text.behind]

/-- The rule for the first character of a token is the lexical rule of the text. -/
theorem ruleSteps? (h : StandsAt source start (c :: r)) (mode : Mode) :
    ruleSteps? source mode c start (start + c.utf8Size) = some (measured start (c :: r) (rule? mode (c :: r))) := by
  rw [Token.ruleSteps?]
  by_cases hpoint : c = '.'
  · subst hpoint
    have hstarts : startsNumber ('.' :: r) = r.head?.any Char.isDigit := by
      cases r <;> rfl
    have hrule : rule? mode ('.' :: r) =
        if r.head?.any Char.isDigit then number? ('.' :: r) else punctuator? ('.' :: r) := by
      rw [← hstarts]
      rfl
    simp only [beq_self_eq_true, if_true, h.next.peek?, Option.bind_eq_bind, Option.bind_some, hrule]
    split_ifs
    · exact h.numberSteps? (.inl rfl)
    · exact h.punctSteps?
  · have hstarts : startsNumber (c :: r) = c.isDigit := by
      rw [startsNumber]
      exact fun _ _ hc => absurd hc hpoint
    have hne : (c == '.') = false := beq_eq_false_iff_ne.2 hpoint
    simp only [hne, Bool.false_eq_true, if_false, rule?, hstarts]
    by_cases hslash : (c == '/' && mode == .operand) = true
    · obtain ⟨rfl, rfl⟩ : c = '/' ∧ mode = .operand := by simpa using hslash
      exact h.regExpSteps?
    · simp only [hslash, Bool.false_eq_true, if_false]
      split_ifs with hquote hdigit hname
      · exact h.stringSteps?
      · exact h.numberSteps? (.inr hdigit)
      · exact h.nameSteps? (isNamePart_of_isNameStart hname)
      · exact h.punctSteps?

end Text.StandsAt

/-! ### Scans -/

namespace Token

theorem nextSteps?_standsAt (h : StandsAt source i r) (mode : Mode) :
    nextSteps? source i mode = next? source i mode := by
  have hmin : min i (byteLength source) = i := Nat.min_eq_left (by rw [← h.add_byteLength]; omega)
  have hstart : behind i r (r.takeWhile isBlank).length = i + byteLength (r.takeWhile isBlank) := by
    rw [behind, take_takeWhile_length]
  have hbody : StandsAt source (i + byteLength (r.takeWhile isBlank)) (r.dropWhile isBlank) := by
    rw [← List.takeWhile_append_dropWhile (p := isBlank) (l := r)] at h
    exact h.behind
  have hplace : byteLength source - byteLength (r.dropWhile isBlank) = i + byteLength (r.takeWhile isBlank) := by
    rw [← hbody.add_byteLength, Nat.add_sub_cancel]
  rw [next?_standsAt h, nextSteps?, hmin, scanAt, scan]
  simp only [Option.bind_eq_bind, Option.bind_some, h.skipBlanks?, Bool.false_or, hstart]
  by_cases hline : (r.takeWhile isBlank).any isLineEnd = true
  · simp [hline, Except.map, hplace]
  · cases hrest : r.dropWhile isBlank with
    | nil =>
      rw [hrest] at hbody
      have hend := hbody.add_byteLength
      simpa [hline, hbody.peek?, Except.map] using hend
    | cons c rest =>
      rw [hrest] at hbody
      simp only [hline, Bool.false_eq_true, if_false, hbody.peek?, hbody.ruleSteps?, List.head?_cons, List.isEmpty_cons,
        Option.bind_some]
      cases rule? mode (c :: rest) with
      | none => rfl
      | some found =>
        obtain ⟨kind, n⟩ := found
        have hstop := (hbody.skip n).add_byteLength
        simp [measured, Except.map, ← hstop, Text.behind]

/-- A position past the end is the end. -/
theorem next?_min (source : List Char) (offset : Nat) (mode : Mode) :
    next? source (min offset (byteLength source)) mode = next? source offset mode := by
  rcases Nat.le_total offset (byteLength source) with hle | hge
  · rw [Nat.min_eq_left hle]
  · have hend : ∀ k, dropBytes? (byteLength source + k) source = dropBytes? k [] := fun k => by
      have h := dropBytes?_add source [] k
      rwa [List.append_nil] at h
    obtain ⟨k, rfl⟩ := Nat.exists_eq_add_of_le hge
    have hzero := hend 0
    rw [Nat.add_zero] at hzero
    rw [Nat.min_eq_right hge, next?, next?, hend, hzero]
    cases k <;> rfl

/-- The scanner that moves by positions gives the answer of the one that reads from the front of a text. -/
theorem nextSteps?_eq (source : List Char) (offset : Nat) (mode : Mode) :
    nextSteps? source offset mode = next? source offset mode := by
  have hsteps : nextSteps? source (min offset (byteLength source)) mode = nextSteps? source offset mode := by
    rw [nextSteps?, nextSteps?, Nat.min_assoc, Nat.min_self]
  rw [← next?_min, ← hsteps]
  have hle : min offset (byteLength source) ≤ byteLength source := Nat.min_le_right ..
  generalize min offset (byteLength source) = i at hle
  by_cases hi : IsBoundary source i
  · obtain ⟨before, cs, happ, hlen⟩ := hi
    exact nextSteps?_standsAt ⟨before, happ.symm, hlen⟩ mode
  · have hnone : dropBytes? i source = none := by
      rwa [← isSome_dropBytes?_iff hle, Option.not_isSome_iff_eq_none] at hi
    have hslice : sliceFrom? i source = none := by rw [sliceFrom?, if_pos hle, hnone]
    rw [next?, hnone, nextSteps?, Nat.min_eq_left hle, skipBlanks?, Text.peek?, hslice]
    rfl

/-- No slice of the scanner fails, unless the position that it starts from lies inside a character. -/
theorem isSome_nextSteps?_iff (source : List Char) (offset : Nat) (mode : Mode) :
    (nextSteps? source offset mode).isSome ↔ IsBoundary source (min offset (byteLength source)) := by
  rw [nextSteps?_eq, ← next?_min, next?, Option.isSome_map, isSome_dropBytes?_iff (Nat.min_le_right ..)]

end Token

end Scriptlet
