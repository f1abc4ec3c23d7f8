import Scriptlet.Number.Remainder

/-!
# 32-bit words

The bitwise operators act on words of 32 bits: the integer part of a number modulo `2 ^ 32`, in floating
point up to the last step, which cuts off at the ends of the range. A word is read back as a number with or
without a sign.
-/

namespace Scriptlet.Number

open Float.Model

/-- The integer part of a number, towards zero. -/
def truncate (x : Float) : Float :=
  match x.toModel.unpack with
  | .finite sign m e _ => ofBinary sign (m * twoTo e.toNat / twoTo (-e).toNat) 0
  | _ => x

/-- The remainder that is not negative, by a divisor that is positive. -/
def leastRemainder (x y : Float) : Float :=
  let r := remainder x y
  if r < 0.0 then r + y.abs else r

/-- The integer part of a number modulo `2 ^ 32`; zero if the number is not finite. -/
def modulo32 (x : Float) : Float :=
  if !x.isFinite || x == 0.0 then 0.0 else leastRemainder (truncate x) 4294967296.0

/-- The word of a number, as an integer without a sign. -/
def word (x : Float) : BitVec 32 := (modulo32 x).toUInt32.toBitVec

/-- The word of a number, as an integer with a sign. -/
def signedWord (x : Float) : BitVec 32 :=
  let r := modulo32 x
  let s := if r ≥ 2147483648.0 then r - 4294967296.0 else r
  s.toModel.toInt32.toBitVec

/-- The number that a word denotes when it is read with a sign. -/
def ofSigned (w : BitVec 32) : Float := ofInt w.toInt

/-- The number that a word denotes when it is read without a sign. -/
def ofUnsigned (w : BitVec 32) : Float := ofNat w.toNat

/-- The distance that a word shifts by: its last five bits. -/
def shiftDistance (w : BitVec 32) : Nat := (w &&& 0x1f).toNat

end Scriptlet.Number
