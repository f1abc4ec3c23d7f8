import Scriptlet.Number.Literal
import Scriptlet.Number.Word
import Scriptlet.Value

/-!
# Conversions

What a value counts as where a number, a text, a boolean or a 32-bit word is needed.
-/

namespace Scriptlet.Value

open Number

/-- The number that a value counts as. -/
def toNumber : Value → Float
  | .undefined => nan
  | .null => 0.0
  | .boolean b => if b then 1.0 else 0.0
  | .number x => x
  | .string s => ofText s.toList
  | .function _ => nan

/-- The text that a value counts as. -/
def toText : Value → String
  | .undefined => "undefined"
  | .null => "null"
  | .boolean b => if b then "true" else "false"
  | .number x => Layout.ofValue.render x
  | .string s => s
  | .function f => "function " ++ f.name.getD "" ++ "() \x7b [code] \x7d"

/-- The boolean that a value counts as: undefined, null, zero, NaN and the empty text are false. -/
def toBoolean : Value → Bool
  | .undefined => false
  | .null => false
  | .boolean b => b
  | .number x => !x.isNaN && x != 0.0
  | .string s => !s.isEmpty
  | .function _ => true

/-- The 32-bit word that a value counts as, without a sign. -/
def toWord (v : Value) : BitVec 32 := word v.toNumber

/-- The 32-bit word that a value counts as, with a sign. -/
def toSignedWord (v : Value) : BitVec 32 := signedWord v.toNumber

end Scriptlet.Value
