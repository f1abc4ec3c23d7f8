import Scriptlet.Number.Binary
import Scriptlet.Text.Blank

/-!
# Numbers read from text

A decimal literal is `digits[.digits*][e[±]digits]` or `.digits[e[±]digits]`; a hexadecimal one is a
run of hexadecimal digits. Reading a decimal rounds once, to the nearest double; the digits of a
hexadecimal literal are folded into a double one by one. Long runs of digits are read by halves, and
a number that is beyond all doubles by its number of digits is infinite without being computed.
-/

namespace Scriptlet.Number

open Text

/-- The digits at the start of a text. -/
def digitRun (cs : List Char) : List Char := cs.takeWhile Char.isDigit

/-- The value of a decimal digit. -/
def digitValue (c : Char) : Nat := c.toNat - '0'.toNat

/-- The number that a run of decimal digits denotes. -/
def natOfDigits (ds : List Char) : Nat := ds.foldl (fun n c => 10 * n + digitValue c) 0

/-- The number that a run of decimal digits denotes, computed from its halves if the run is long. The
first argument bounds how often it is halved. -/
def natByHalves : Nat → List Char → Nat
  | 0, ds => natOfDigits ds
  | n + 1, ds =>
    if ds.length ≤ 32 then natOfDigits ds
    else
      let front := ds.take (ds.length / 2)
      let back := ds.drop (ds.length / 2)
      natByHalves n front * tenTo back.length + natByHalves n back

/-- The value of a hexadecimal digit. -/
def hexDigit? (c : Char) : Option Nat :=
  if c.isDigit then some (c.toNat - '0'.toNat)
  else if 'a' ≤ c && c ≤ 'f' then some (c.toNat - 'a'.toNat + 10)
  else if 'A' ≤ c && c ≤ 'F' then some (c.toNat - 'A'.toNat + 10)
  else none

/-- A hexadecimal digit. -/
def isHexDigit (c : Char) : Bool := (hexDigit? c).isSome

/-- The digits folded into a double, one after the other. -/
def hexValue (ds : List Char) : Float :=
  ds.foldl (fun x c => x * 16.0 + ofNat ((hexDigit? c).getD 0)) 0.0

/-- The parts of a decimal literal: the digits before and after the point, and the exponent. -/
structure Literal where
  whole : List Char
  fraction : List Char
  exponent : Int
  deriving DecidableEq, Repr

/-- The digits of a literal from the first one that is not zero. -/
def Literal.digits (l : Literal) : List Char := (l.whole ++ l.fraction).dropWhile (· == '0')

/-- The double nearest to `whole.fraction · 10 ^ exponent`. Written as `0.d₁d₂… · 10 ^ point` with
`d₁` not zero, a number is infinite if `309 < point`. -/
def Literal.toFloat (l : Literal) : Float :=
  let scale := l.exponent - l.fraction.length
  if l.digits ≠ [] ∧ 309 < l.digits.length + scale then 1.0 / 0.0
  else ofDecimal (natByHalves 64 l.digits) scale

/-- The number of characters in the sign at the start of a text. -/
def signLength : List Char → Nat
  | '+' :: _ => 1
  | '-' :: _ => 1
  | _ => 0

/-- The number of characters in the exponent `e[±]digits` at the start of a text; zero if its digits
are missing. -/
def exponentLength : List Char → Nat
  | [] => 0
  | c :: cs =>
    if c == 'e' || c == 'E' then
      let sign := signLength cs
      match (digitRun (cs.drop sign)).length with
      | 0 => 0
      | n + 1 => 1 + sign + (n + 1)
    else 0

/-- The number that the digits of an exponent denote. An exponent that has reached 65536 takes no
further digits. -/
def exponentDigits (ds : List Char) : Nat :=
  ds.foldl (fun n c => if n < 65536 then 10 * n + digitValue c else n) 0

/-- The value of a text `e[±]digits`; zero for the empty text. -/
def exponentValue : List Char → Int
  | [] => 0
  | _ :: '-' :: ds => -(exponentDigits ds : Int)
  | _ :: '+' :: ds => exponentDigits ds
  | _ :: ds => exponentDigits ds

/-- The number of characters in the fraction `.digits*` at the start of a text. -/
def fractionLength : List Char → Nat
  | '.' :: cs => 1 + (digitRun cs).length
  | _ => 0

/-- Reads a whole text as a decimal literal. -/
def literal? (cs : List Char) : Option Literal :=
  let whole := digitRun cs
  let afterWhole := cs.drop whole.length
  let fraction := (afterWhole.take (fractionLength afterWhole)).drop 1
  let exponent := afterWhole.drop (fractionLength afterWhole)
  if whole.isEmpty && fraction.isEmpty then none
  else if exponentLength exponent = exponent.length then
    some ⟨whole, fraction, exponentValue exponent⟩
  else none

/-- The value of the text after `0x`. -/
def hexadecimal (ds : List Char) : Float :=
  if ds.isEmpty || !ds.all isHexDigit then nan else hexValue ds

/-- The value of a text without sign. -/
def unsigned (cs : List Char) : Float :=
  if cs = "Infinity".toList then 1.0 / 0.0
  else match literal? cs with
    | some l => l.toFloat
    | none => nan

/-- The number that a string denotes: blanks around it do not count, the empty text is zero, and what
is neither a hexadecimal literal nor a signed decimal literal or infinity is not a number. -/
def ofText (cs : List Char) : Float :=
  match trim isBlank cs with
  | [] => 0.0
  | '0' :: 'x' :: ds => hexadecimal ds
  | '0' :: 'X' :: ds => hexadecimal ds
  | '-' :: rest => -unsigned rest
  | '+' :: rest => unsigned rest
  | rest => unsigned rest

theorem natOfDigits_append (a b : List Char) :
    natOfDigits (a ++ b) = natOfDigits a * tenTo b.length + natOfDigits b := by
  have fold : ∀ (ds : List Char) (m : Nat), ds.foldl (fun n c => 10 * n + digitValue c) m =
      m * tenTo ds.length + natOfDigits ds := by
    intro ds
    induction ds with
    | nil => intro m; simp [natOfDigits, tenTo]
    | cons c ds ih =>
      intro m
      rw [natOfDigits, List.foldl_cons, List.foldl_cons, ih, ih (10 * 0 + digitValue c)]
      simp only [tenTo, List.length_cons, Nat.pow_eq, Nat.pow_succ, Nat.add_mul, Nat.mul_zero,
        Nat.zero_add]
      rw [Nat.mul_comm 10 m, Nat.mul_assoc, Nat.mul_comm 10, Nat.add_assoc]
  rw [natOfDigits, List.foldl_append, fold b]
  rfl

/-- Reading by halves gives the number that the digits denote. -/
theorem natByHalves_eq (n : Nat) (ds : List Char) : natByHalves n ds = natOfDigits ds := by
  induction n generalizing ds with
  | zero => rfl
  | succ n ih =>
    rw [natByHalves]
    split
    · rfl
    · simp only [ih]
      rw [← natOfDigits_append, List.take_append_drop]

end Scriptlet.Number
