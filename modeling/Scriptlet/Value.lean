import Scriptlet.Tree.Outline

/-!
# Values and completions

The values that programs compute with, and the ways in which a node completes. A function is a
closure: it knows the frame it was made in by number, and is told apart from others by its own.
-/

namespace Scriptlet

open Text

/-- The number of a frame in the store. -/
abbrev FrameId := Nat

/-- A function with the frame that it was made in. -/
structure Closure where
  /-- Two closures are the same function if they have the same number. -/
  id : Nat
  name : Option String
  params : List String
  body : List Node
  env : FrameId
  /-- Whether the body can call the function by its own name. -/
  bindsOwnName : Bool
  deriving Inhabited

/-- A value. -/
inductive Value where
  | undefined
  | null
  | boolean (b : Bool)
  | number (x : Float)
  | string (s : String)
  | function (f : Closure)
  deriving Inhabited

/-- How a node completed. -/
inductive Completion where
  /-- It ran to its end. -/
  | normal (v : Value)
  /-- A `return` carries a value out of a function. -/
  | returned (v : Value)
  /-- A `break` leaves a loop. -/
  | broken
  /-- A `continue` goes on with the next round of a loop. -/
  | continued
  deriving Inhabited

namespace Value

/-- Strict equality: values of different types differ, numbers are compared as numbers, functions by
identity. -/
def same : Value → Value → Bool
  | .undefined, .undefined => true
  | .null, .null => true
  | .boolean a, .boolean b => a == b
  | .number a, .number b => a == b
  | .string a, .string b => a == b
  | .function f, .function g => f.id == g.id
  | _, _ => false

/-- Whether the value is `undefined`. -/
def isUndefined : Value → Bool
  | .undefined => true
  | _ => false

/-- The number, if the value is one. -/
def number? : Value → Option Float
  | .number x => some x
  | _ => none

/-- The text, if the value is a string. -/
def string? : Value → Option String
  | .string s => some s
  | _ => none

/-- The value, unless it is `undefined` or `null`. -/
def present? : Value → Option Value
  | .undefined => none
  | .null => none
  | v => some v

/-- The name of the value's type. Only undefined, numbers and strings have one of their own. -/
def typeName : Value → String
  | .undefined => "undefined"
  | .number _ => "number"
  | .string _ => "string"
  | .null | .boolean _ | .function _ => "object"

/-- The outline of a value. -/
def outline : Value → Outline
  | .undefined => .atom "Undefined"
  | .null => .atom "Null"
  | .boolean b => .group "Boolean" [.atom (if b then "true" else "false")]
  | .number x => .group "Number" [Node.outlineNumber x]
  | .string s => .group "String" [Node.outlineText s]
  | .function f => .group "Function" [.record "Function"
      [("name", Node.outlineOption (f.name.map Node.outlineText)),
        ("params", Node.outlineNames f.params)] true]

end Value

/-- The outline of a completion. -/
def Completion.outline : Completion → Outline
  | .normal v => .group "Normal" [v.outline]
  | .returned v => .group "Return" [v.outline]
  | .broken => .atom "Break"
  | .continued => .atom "Continue"

end Scriptlet
