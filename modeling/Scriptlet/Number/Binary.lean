/-!
# Doubles from integers

A finite double is `± m · 2 ^ e`. Going back from such a form rounds once, to the nearest double.
-/

namespace Scriptlet.Number

open Float.Model

/-- The power `2 ^ n`. -/
def twoTo (n : Nat) : Nat := Nat.pow 2 n

/-- The power `10 ^ n`. -/
def tenTo (n : Nat) : Nat := Nat.pow 10 n

/-- The double nearest to `± m · 2 ^ e`. -/
def ofBinary (sign : UnpackedFloat.Sign) (m : Nat) (e : Int) : Float :=
  .ofModel (pack (UnpackedFloat.round Format.binary64 sign m e))

/-- The double nearest to a natural number. -/
def ofNat (n : Nat) : Float := ofBinary .positive n 0

/-- The double nearest to an integer. -/
def ofInt (n : Int) : Float := ofBinary (if n < 0 then .negative else .positive) n.natAbs 0

/-- The double nearest to `m · 10 ^ e`. -/
def ofDecimal (m : Nat) (e : Int) : Float := .ofModel (ofScientific m e)

/-- The result of operations that have none. -/
def nan : Float := 0.0 / 0.0

end Scriptlet.Number
