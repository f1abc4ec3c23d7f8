import Scriptlet.Number.Literal
import Scriptlet.Text.Bytes

/-!
# Numbers read from text by its bytes

The second way of reading a number from a string goes by the bytes of the string: it looks at the first byte for a
sign, cuts it off, and measures the literal by indices. There is no answer where an index is past the end or a slice
falls inside a character.
-/

namespace Scriptlet.Number

open Text

/-- The byte of a decimal digit. -/
def isDigitByte (b : UInt8) : Bool := 48 ≤ b.toNat && b.toNat ≤ 57

/-- The number of digits from byte `i` on. There is none if `i` is past the end. -/
def countDigits? (bs : List UInt8) (i : Nat) : Option Nat :=
  if i ≤ bs.length then some ((bs.drop i).takeWhile isDigitByte).length else none

/-- Where the fraction at byte `i` ends, and how many digits it has. -/
def fractionEnd? (bs : List UInt8) (i : Nat) : Option (Nat × Nat) :=
  if bs[i]? = some (byte '.') then (countDigits? bs (i + 1)).map fun n => (i + 1 + n, n) else some (i, 0)

/-- Whether an exponent, or nothing, stands from byte `i` to the end. -/
def endsLiteral? (bs : List UInt8) (i : Nat) : Option Bool :=
  if bs[i]? = some (byte 'e') ∨ bs[i]? = some (byte 'E') then
    let j := if bs[i + 1]? = some (byte '+') ∨ bs[i + 1]? = some (byte '-') then i + 1 + 1 else i + 1
    (countDigits? bs j).map fun n => n != 0 && j + n == bs.length
  else some (i == bs.length)

/-- Whether the bytes are a decimal literal. There is no answer if an index is past the end. -/
def isLiteral? (bs : List UInt8) : Option Bool :=
  (countDigits? bs 0).bind fun whole =>
    (fractionEnd? bs whole).bind fun (i, fraction) =>
      if whole = 0 ∧ fraction = 0 then some false else endsLiteral? bs i

/-- The value of a text without sign, with the literal found by its bytes. -/
def unsignedSteps? (cs : List Char) : Option Float :=
  if cs = "Infinity".toList then some (1.0 / 0.0)
  else (isLiteral? (utf8 cs)).map fun literal => if literal then ((literal? cs).map Literal.toFloat).getD nan else nan

/-- The number that a string denotes, with its sign found in its first byte and cut off. There is none if an index
or a slice fails. -/
def ofTextSteps? (cs : List Char) : Option Float :=
  match trim isBlank cs with
  | [] => some 0.0
  | '0' :: 'x' :: ds => some (hexadecimal ds)
  | '0' :: 'X' :: ds => some (hexadecimal ds)
  | t => (utf8 t)[0]?.bind fun first =>
    if first = byte '-' then ((sliceFrom? 1 t).bind unsignedSteps?).map (-·)
    else if first = byte '+' then (sliceFrom? 1 t).bind unsignedSteps?
    else unsignedSteps? t

end Scriptlet.Number
