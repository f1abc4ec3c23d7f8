import Scriptlet.Number.Binary

/-!
# Remainders

The remainder of a division that truncates its quotient. It is exact: the division is done on
integers.
-/

namespace Scriptlet.Number

open Float.Model

/-- The remainder of `x` divided by `y`, with the sign of `x`. -/
def remainder (x y : Float) : Float :=
  match x.toModel.unpack, y.toModel.unpack with
  | .notANumber, _ | .infinity _, _ | _, .notANumber | _, .zero _ => nan
  | .zero _, _ | _, .infinity _ => x
  | .finite sign m₁ e₁ _, .finite _ m₂ e₂ _ =>
    let e := min e₁ e₂
    ofBinary sign (m₁ * twoTo (e₁ - e).toNat % (m₂ * twoTo (e₂ - e).toNat)) e

end Scriptlet.Number
