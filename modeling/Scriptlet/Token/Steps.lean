import Scriptlet.Token.Stream

/-!
# Scanning by byte positions

The second scanner moves through its source by byte positions: it looks at the character at a position, goes on
behind it, and cuts the texts of the tokens out of the source. There is no answer where a slice falls inside a
character or past the end. An answer is a token, or the place where no lexical rule applies.
-/

namespace Scriptlet

open Text Number

namespace Text

/-- The character at a position, if it is not the end. -/
def peek? (source : List Char) (i : Nat) : Option (Option Char) := (sliceFrom? i source).map List.head?

/-- The character behind the one at a position. -/
def peekNext? (source : List Char) (i : Nat) : Option (Option Char) := (sliceFrom? i source).map (·[1]?)

theorem lt_of_dropBytes? {n : Nat} {c : Char} {cs rest : List Char} (h : dropBytes? n cs = some (c :: rest)) :
    n < byteLength cs := by
  fun_induction dropBytes? n cs with
  | case1 cs =>
    cases h
    exact Nat.add_pos_left c.utf8Size_pos _
  | case2 => cases h
  | case3 n d cs hle ih =>
    have hlt := ih h
    rw [byteLength_cons]
    omega
  | case4 => cases h

theorem lt_of_peek? {source : List Char} {i : Nat} {c : Char} (h : peek? source i = some (some c)) :
    i < byteLength source := by
  obtain ⟨cs, hcs, hc⟩ := Option.map_eq_some_iff.1 h
  obtain ⟨rest, rfl⟩ := List.head?_eq_some_iff.1 hc
  rw [sliceFrom?] at hcs
  split at hcs
  · exact lt_of_dropBytes? hcs
  · cases hcs

/-- Behind a character less of the source is left. -/
theorem sub_lt_of_peek? {source : List Char} {i : Nat} {c : Char} (h : peek? source i = some (some c)) (k : Nat) :
    byteLength source - (i + c.utf8Size + k) < byteLength source - i := by
  have hlt := lt_of_peek? h
  have hpos := c.utf8Size_pos
  omega

end Text

namespace Token

variable (source : List Char)

/-! ### Loops -/

/-- The position behind the characters of a class. -/
def skipWhile? (p : Char → Bool) (i : Nat) : Option Nat :=
  match _h : peek? source i with
  | none => none
  | some none => some i
  | some (some c) => if p c then skipWhile? p (i + c.utf8Size) else some i
termination_by byteLength source - i
decreasing_by exact sub_lt_of_peek? _h 0

/-- The position behind the blanks, and whether a line end is among them or was before. -/
def skipBlanks? (crossed : Bool) (i : Nat) : Option (Bool × Nat) :=
  match _h : peek? source i with
  | none => none
  | some none => some (crossed, i)
  | some (some c) =>
    if isLineEnd c then skipBlanks? true (i + c.utf8Size)
    else if isBlank c then skipBlanks? crossed (i + c.utf8Size)
    else some (crossed, i)
termination_by byteLength source - i
decreasing_by all_goals exact sub_lt_of_peek? _h 0

/-- The position behind the next quote, if there is one. -/
def closing? (quote : Char) (i : Nat) : Option (Option Nat) :=
  match _h : peek? source i with
  | none => none
  | some none => some none
  | some (some c) => if c == quote then some (some (i + c.utf8Size)) else closing? quote (i + c.utf8Size)
termination_by byteLength source - i
decreasing_by exact sub_lt_of_peek? _h 0

/-- The position behind the `/` that closes a pattern, if it is closed. -/
def patternEnd? (inClass : Bool) (i : Nat) : Option (Option Nat) :=
  match _h : peek? source i with
  | none => none
  | some none => some none
  | some (some c) =>
    if isLineEnd c then some none
    else if c == '\\' then
      match peek? source (i + c.utf8Size) with
      | none => none
      | some none => some none
      | some (some d) => if isLineEnd d then some none else patternEnd? inClass (i + c.utf8Size + d.utf8Size)
    else if c == '[' then patternEnd? true (i + c.utf8Size)
    else if c == ']' then patternEnd? false (i + c.utf8Size)
    else if c == '/' && !inClass then some (some (i + c.utf8Size))
    else patternEnd? inClass (i + c.utf8Size)
termination_by byteLength source - i
decreasing_by all_goals first | exact sub_lt_of_peek? _h 0 | exact sub_lt_of_peek? _h _

/-- The hexadecimal digits from a position on folded into a double, whether there are any, and the position behind
them. -/
def foldHex? (value : Float) (found : Bool) (i : Nat) : Option (Float × Bool × Nat) :=
  match _h : peek? source i with
  | none => none
  | some none => some (value, found, i)
  | some (some c) =>
    match hexDigit? c with
    | some d => foldHex? (value * 16.0 + ofNat d) true (i + c.utf8Size)
    | none => some (value, found, i)
termination_by byteLength source - i
decreasing_by exact sub_lt_of_peek? _h 0

/-! ### Lexical rules

Each starts behind the first character of the token, which stands at `start`, and gives the kind of the token and the
position behind it, or the place of the token if the rule fails. -/

/-- The position behind the character at a position, if it is of a class. -/
def eat? (p : Char → Bool) (i : Nat) : Option (Option Nat) :=
  (peek? source i).map fun next => (next.filter p).map fun c => i + c.utf8Size

/-- A string literal up to its closing quote. -/
def stringSteps? (quote : Char) (start i : Nat) : Option (Except Nat (Kind × Nat)) := do
  match ← closing? source quote i with
  | none => return .error start
  | some j =>
    let body ← slice? i (j - quote.utf8Size) source
    return .ok (.string (String.ofList body), j)

/-- A regular expression after its opening `/`. -/
def regExpSteps? (start i : Nat) : Option (Except Nat (Kind × Nat)) := do
  match ← patternEnd? source false i with
  | none => return .error start
  | some j =>
    let pattern ← slice? i (j - 1) source
    let k ← skipWhile? source isNamePart j
    let flags ← slice? j k source
    return .ok (.regExp (String.ofList pattern) (String.ofList flags), k)

/-- Whether digits stand behind the `e` at a position, or behind the sign of an exponent. -/
def digitsFollow? (i : Nat) : Option Bool := do
  match ← peekNext? source i with
  | none => return false
  | some c =>
    if c == '+' || c == '-' then return (← sliceFrom? (i + 2) source).head?.any Char.isDigit
    else return c.isDigit

/-- The position behind an exponent, if its digits are there. -/
def exponentEnd? (i : Nat) : Option Nat := do
  match ← eat? source (fun c => c == 'e' || c == 'E') i with
  | none => return i
  | some j =>
    if ← digitsFollow? source i then
      let sign ← eat? source (fun c => c == '+' || c == '-') j
      skipWhile? source Char.isDigit (sign.getD j)
    else return i

/-- The position behind a fraction and an exponent. -/
def tailEnd? (i : Nat) : Option Nat := do
  match ← eat? source (· == '.') i with
  | none => exponentEnd? source i
  | some j => exponentEnd? source (← skipWhile? source Char.isDigit j)

/-- The position behind a decimal literal. No digit follows a leading zero. -/
def decimalEnd? (first : Option Char) (i : Nat) : Option Nat := do
  if first = some '.' then exponentEnd? source (← skipWhile? source Char.isDigit i)
  else if first = some '0' then tailEnd? source i
  else tailEnd? source (← skipWhile? source Char.isDigit i)

/-- The value of the hexadecimal digits from `i` on, and the position behind them. -/
def hexSteps? (start i : Nat) : Option (Except Nat (Float × Nat)) := do
  let (value, found, j) ← foldHex? source 0.0 false i
  return if found then .ok (value, j) else .error start

/-- The value of a decimal literal and the position behind it. -/
def decimalSteps? (first : Option Char) (start i : Nat) : Option (Except Nat (Float × Nat)) := do
  let j ← decimalEnd? source first i
  match literal? (← slice? start j source) with
  | some l => return .ok (l.toFloat, j)
  | none => return .error start

/-- The value of a number and the position behind it. -/
def numeralSteps? (start i : Nat) : Option (Except Nat (Float × Nat)) := do
  let first := (← sliceFrom? start source).head?
  let mark ← if first = some '0' then eat? source (fun c => c == 'x' || c == 'X') i else pure none
  match mark with
  | some j => hexSteps? source start j
  | none => decimalSteps? source first start i

/-- A number, which no character of a name may follow. -/
def numberSteps? (start i : Nat) : Option (Except Nat (Kind × Nat)) := do
  match ← numeralSteps? source start i with
  | .error place => return .error place
  | .ok (value, j) => return if (← peek? source j).any isNamePart then .error start else .ok (.number value, j)

/-- A word or a name. -/
def nameSteps? (start i : Nat) : Option (Except Nat (Kind × Nat)) := do
  let j ← skipWhile? source isNamePart i
  let name := String.ofList (← slice? start j source)
  return .ok ((Kind.ofWord? name).getD (.identifier name), j)

/-- A punctuator. -/
def punctSteps? (start : Nat) : Option (Except Nat (Kind × Nat)) := do
  let cs ← sliceFrom? start source
  match Punct.scan? cs with
  | some (p, rest) => return .ok (.punct p, start + (byteLength cs - byteLength rest))
  | none => return .error start

/-- The token that starts with the character `c` at `start`; `i` is the position behind it. -/
def ruleSteps? (mode : Mode) (c : Char) (start i : Nat) : Option (Except Nat (Kind × Nat)) := do
  if c == '.' then
    if (← peek? source i).any Char.isDigit then numberSteps? source start i else punctSteps? source start
  else if c == '/' && mode == .operand then regExpSteps? source start i
  else if c == '"' || c == '\'' then stringSteps? source c start i
  else if c.isDigit then numberSteps? source start i
  else if isNameStart c then nameSteps? source start i
  else punctSteps? source start

/-- Scans a source at a byte offset; an offset past the end stands for the end. -/
def nextSteps? (offset : Nat) (mode : Mode) : Option (Except Nat (Token × Nat)) := do
  let i := min offset (byteLength source)
  let (crossed, start) ← skipBlanks? source false i
  if crossed then return .ok (⟨.lineBreak, i, start⟩, start)
  else match ← peek? source start with
    | none => return .ok (⟨.eof, start, start⟩, start)
    | some c =>
      let found ← ruleSteps? source mode c start (start + c.utf8Size)
      return found.map fun (kind, stop) => (⟨kind, start, stop⟩, stop)

end Token

end Scriptlet
