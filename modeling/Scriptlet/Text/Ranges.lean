/-!
# Character classes given by ranges

A class of characters is written as the list of the ranges of code points that it covers, in
increasing order and with both ends included.
-/

namespace Scriptlet.Text

/-- A list of ranges of code points. -/
abbrev Ranges := List (Nat × Nat)

/-- Whether one of the ranges holds the character. -/
def Ranges.covers (ranges : Ranges) (c : Char) : Bool :=
  ranges.any fun r => r.1 ≤ c.toNat && c.toNat ≤ r.2

end Scriptlet.Text
