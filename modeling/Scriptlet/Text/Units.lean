/-!
# Order by UTF-16 units

Texts are ordered by the sequences of 16-bit units of their UTF-16 form. A character from U+10000 on
takes two units, both below U+E000, so this order differs from that of the code points.
-/

namespace Scriptlet.Text

/-- The UTF-16 units of a character. -/
def charUnits (c : Char) : List Nat :=
  let n := c.toNat
  if n < 0x10000 then [n]
  else [0xd800 + (n - 0x10000) / 0x400, 0xdc00 + (n - 0x10000) % 0x400]

/-- The UTF-16 units of a text. -/
def units (cs : List Char) : List Nat := cs.flatMap charUnits

/-- Lexicographic order of unit sequences; a proper beginning comes first. -/
def compareUnits : List Nat → List Nat → Ordering
  | [], [] => .eq
  | [], _ :: _ => .lt
  | _ :: _, [] => .gt
  | a :: as, b :: bs => if a < b then .lt else if b < a then .gt else compareUnits as bs

/-- The order of two texts by their UTF-16 units. -/
def compareText (a b : String) : Ordering := compareUnits (units a.toList) (units b.toList)

end Scriptlet.Text
