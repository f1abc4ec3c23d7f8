import Scriptlet.Number.Literal
import Scriptlet.Token.Kind
import Scriptlet.Token.Punctuator

/-!
# Scanning one token

`scan` reads the token at the start of a text. Each lexical rule gives the kind of the token and its
length in characters, so the token's text and the rest always make up what was read. Only `/` needs
to know what is expected: where an operand is expected it opens a regular expression, where an
operator is expected it divides.
-/

namespace Scriptlet.Token

open Text Number

/-- What is expected at the place that is scanned. -/
inductive Mode where
  | operand
  | operator
  deriving DecidableEq, Repr

/-- A character that may start a name. -/
def isNameStart (c : Char) : Bool := c == '_' || c == '$' || c.isAlpha

/-- A character that may occur in a name. -/
def isNamePart (c : Char) : Bool := c == '_' || c == '$' || c.isAlphanum

/-- A string literal up to its closing quote. There are no escapes. -/
def string? (quote : Char) (cs : List Char) : Option (Kind × Nat) :=
  let body := cs.takeWhile (· != quote)
  if body.length < cs.length then some (.string (String.ofList body), body.length + 2) else none

/-- The length of a regular expression's pattern up to the `/` that closes it. A `/` in a class or
after a backslash does not close it; a line end is never allowed. -/
def patternLength? : Bool → List Char → Option Nat
  | _, [] => none
  | _, ['\\'] => none
  | inClass, '\\' :: c :: cs =>
    if isLineEnd c then none else (patternLength? inClass cs).map (· + 2)
  | inClass, c :: cs =>
    if isLineEnd c then none
    else if c == '/' && !inClass then some 0
    else (patternLength? (c == '[' || (inClass && c != ']')) cs).map (· + 1)

/-- A regular expression after its opening `/`. -/
def regExp? (cs : List Char) : Option (Kind × Nat) :=
  (patternLength? false cs).map fun n =>
    let flags := (cs.drop (n + 1)).takeWhile isNamePart
    (.regExp (String.ofList (cs.take n)) (String.ofList flags), n + 2 + flags.length)

/-- The number of digits before the point of the decimal literal at the start of a text. No digit
follows a leading zero. -/
def wholeLength : List Char → Nat
  | '0' :: _ => 1
  | cs => (digitRun cs).length

/-- The length of the decimal literal at the start of a text. -/
def decimalLength (cs : List Char) : Nat :=
  let whole := wholeLength cs
  let fraction := fractionLength (cs.drop whole)
  whole + fraction + exponentLength (cs.drop (whole + fraction))

/-- The value and the length of the number at the start of a text. -/
def numeral? (cs : List Char) : Option (Float × Nat) :=
  let hexadecimal (ds : List Char) : Option (Float × Nat) :=
    let run := ds.takeWhile isHexDigit
    if run.isEmpty then none else some (hexValue run, run.length + 2)
  match cs with
  | '0' :: 'x' :: ds => hexadecimal ds
  | '0' :: 'X' :: ds => hexadecimal ds
  | _ => (literal? (cs.take (decimalLength cs))).map fun l => (l.toFloat, decimalLength cs)

/-- A number, which no character of a name may follow. -/
def number? (cs : List Char) : Option (Kind × Nat) :=
  match numeral? cs with
  | some (x, n) => if (cs.drop n).head?.any isNamePart then none else some (.number x, n)
  | none => none

/-- The longest run of name characters at the start of a text: a word or a name. -/
def wordOrName (cs : List Char) : Kind × Nat :=
  let run := cs.takeWhile isNamePart
  let name := String.ofList run
  ((Kind.ofWord? name).getD (.identifier name), run.length)

/-- The punctuator that a text starts with. -/
def punctuator? (cs : List Char) : Option (Kind × Nat) :=
  (Punct.scan? cs).map fun (p, rest) => (.punct p, cs.length - rest.length)

/-- Whether a number starts here: a digit, or a point before a digit. -/
def startsNumber : List Char → Bool
  | '.' :: c :: _ => c.isDigit
  | c :: _ => c.isDigit
  | [] => false

/-- The kind and the length of the token at the start of a text that starts with no blank. -/
def rule? (mode : Mode) (cs : List Char) : Option (Kind × Nat) :=
  match cs with
  | [] => none
  | c :: rest =>
    if c == '"' || c == '\'' then string? c rest
    else if c == '/' && mode == .operand then regExp? rest
    else if startsNumber cs then number? cs
    else if isNameStart c then some (wordOrName cs)
    else punctuator? cs

/-- A token with its text, and the text after it. -/
structure Lexeme where
  kind : Kind
  text : List Char
  rest : List Char

/-- What a scan finds after a gap of blanks. -/
inductive Scan where
  | lexeme (gap : List Char) (found : Lexeme)
  | invalid (gap : List Char)

/-- Scans the token at the start of a text. Blanks with a line end among them are one token; other
blanks are skipped. -/
def scan (mode : Mode) (cs : List Char) : Scan :=
  let gap := cs.takeWhile isBlank
  let body := cs.dropWhile isBlank
  if gap.any isLineEnd then .lexeme [] ⟨.lineBreak, gap, body⟩
  else if body.isEmpty then .lexeme gap ⟨.eof, [], []⟩
  else match rule? mode body with
    | some (kind, n) => .lexeme gap ⟨kind, body.take n, body.drop n⟩
    | none => .invalid gap

theorem isNamePart_of_isNameStart {c : Char} (h : isNameStart c = true) : isNamePart c = true := by
  simp only [isNameStart, isNamePart, Char.isAlphanum, Bool.or_eq_true] at h ⊢
  rcases h with h | h
  · exact .inl h
  · exact .inr (.inl h)

theorem numeral?_pos {cs : List Char} {x : Float} {n : Nat} (h : numeral? cs = some (x, n)) :
    0 < n := by
  simp only [numeral?] at h
  split at h
  · split at h
    · cases h
    · cases h; omega
  · split at h
    · cases h
    · cases h; omega
  · obtain ⟨l, hl, he⟩ := Option.map_eq_some_iff.1 h
    cases he
    refine Nat.pos_of_ne_zero fun h0 => ?_
    rw [h0] at hl
    cases hl

/-- What is found is the longest punctuator that the text starts with. -/
theorem punctuator?_eq_some_iff {cs : List Char} {k : Kind} {n : Nat} :
    punctuator? cs = some (k, n) ↔ ∃ p : Punct, k = .punct p ∧ n = p.spelling.length ∧ p.IsLongest cs := by
  have hlength : ∀ {p : Punct} {rest}, p.spelling.toList ++ rest = cs →
      cs.length - rest.length = p.spelling.length := by
    rintro p rest rfl
    rw [List.length_append, Nat.add_sub_cancel, String.length_toList]
  constructor
  · intro h
    obtain ⟨⟨p, rest⟩, hp, he⟩ := Option.map_eq_some_iff.1 h
    obtain ⟨hlongest, happ⟩ := Punct.scan?_eq_some_iff.1 hp
    cases he
    exact ⟨p, rfl, hlength happ, hlongest⟩
  · rintro ⟨p, rfl, rfl, hlongest⟩
    obtain ⟨rest, happ⟩ := hlongest.isPrefix
    rw [punctuator?, Punct.scan?_eq_some_iff.2 ⟨hlongest, happ⟩, ← hlength happ]
    rfl

theorem rule?_pos {mode : Mode} {cs : List Char} {k : Kind} {n : Nat}
    (h : rule? mode cs = some (k, n)) : 0 < n := by
  unfold rule? at h
  split at h
  · cases h
  next c rest =>
  split at h
  · simp only [string?] at h
    split at h
    · cases h; omega
    · cases h
  split at h
  · obtain ⟨m, _, he⟩ := Option.map_eq_some_iff.1 h
    cases he; omega
  split at h
  · unfold number? at h
    split at h
    next x m hm =>
      split at h
      · cases h
      · cases h; exact numeral?_pos hm
    · cases h
  split at h
  next hc =>
    cases h
    simp [isNamePart_of_isNameStart hc]
  · obtain ⟨p, -, rfl, -⟩ := punctuator?_eq_some_iff.1 h
    rw [← String.length_toList]
    exact List.length_pos_iff.2 (Punct.spelling_ne_nil p)

/-- A scan loses no character: what it skips, the token's text and the rest make up the text. -/
theorem scan_append {mode : Mode} {cs gap : List Char} {l : Lexeme}
    (h : scan mode cs = .lexeme gap l) : gap ++ l.text ++ l.rest = cs := by
  simp only [scan] at h
  split at h
  · cases h; simp [List.takeWhile_append_dropWhile]
  split at h
  next hb =>
    cases h
    have := List.takeWhile_append_dropWhile (p := isBlank) (l := cs)
    simp_all
  split at h
  · cases h; simp [List.takeWhile_append_dropWhile]
  · cases h

/-- Every token but the last takes at least one character. -/
theorem scan_length_lt {mode : Mode} {cs gap : List Char} {l : Lexeme}
    (h : scan mode cs = .lexeme gap l) (hk : l.kind ≠ .eof) : l.rest.length < cs.length := by
  have happ := scan_append h
  have hpos : 0 < l.text.length := by
    simp only [scan] at h
    split at h
    next hl =>
      cases h
      refine List.length_pos_iff.2 fun h0 => ?_
      rw [show cs.takeWhile isBlank = [] from h0] at hl
      cases hl
    split at h
    · cases h; exact absurd rfl hk
    next hb =>
      split at h
      next hr =>
        cases h
        have := rule?_pos hr
        have : 0 < (cs.dropWhile isBlank).length := List.length_pos_iff.2 fun h0 => by simp [h0] at hb
        simp only [List.length_take]
        omega
      · cases h
  rw [← happ]
  simp only [List.length_append]
  omega

end Scriptlet.Token
