import Scriptlet.Number.Remainder
import Scriptlet.Value.Convert
import Scriptlet.Text.Units

/-!
# Operators on values

What the operators do with operands that have been evaluated. The operators that may leave their
right operand alone are decided by the evaluator; here they only choose between two values.
-/

namespace Scriptlet

open Number Text

namespace Value

/-- The order of two values: that of their units for two texts, else that of their numbers. There is
none if one of the numbers is NaN. -/
def compare? (a b : Value) : Option Ordering :=
  match a, b with
  | .string s, .string t => some (compareText s t)
  | _, _ =>
    let x := a.toNumber
    let y := b.toNumber
    if x < y then some .lt else if x > y then some .gt else if x == y then some .eq else none

/-- Addition, which joins texts if one of the operands is a text. -/
def add (a b : Value) : Value :=
  match a, b with
  | .string s, _ => .string (s ++ b.toText)
  | _, .string t => .string (a.toText ++ t)
  | _, _ => .number (a.toNumber + b.toNumber)

end Value

/-- Whether a comparison holds of two values; not if they are not ordered. -/
def BinaryOp.relates (op : BinaryOp) (a b : Value) : Bool :=
  match a.compare? b with
  | none => false
  | some order =>
    match op with
    | .less => order == .lt
    | .greater => order == .gt
    | .lessEqual => order != .gt
    | .greaterEqual => order != .lt
    | _ => false

/-- The value of a binary operation. -/
def BinaryOp.apply (op : BinaryOp) (a b : Value) : Value :=
  match op with
  | .add => a.add b
  | .subtract => .number (a.toNumber - b.toNumber)
  | .multiply => .number (a.toNumber * b.toNumber)
  | .divide => .number (a.toNumber / b.toNumber)
  | .modulus => .number (remainder a.toNumber b.toNumber)
  | .and => if a.toBoolean then b else a
  | .or => if a.toBoolean then a else b
  | .bitAnd => .number (ofSigned (a.toSignedWord &&& b.toSignedWord))
  | .bitOr => .number (ofSigned (a.toSignedWord ||| b.toSignedWord))
  | .bitXor => .number (ofSigned (a.toSignedWord ^^^ b.toSignedWord))
  | .leftShift => .number (ofSigned (a.toSignedWord <<< shiftDistance b.toWord))
  | .rightShift => .number (ofSigned (a.toSignedWord.sshiftRight (shiftDistance b.toWord)))
  | .unsignedRightShift => .number (ofUnsigned (a.toWord >>> shiftDistance b.toWord))
  | .less | .greater | .lessEqual | .greaterEqual => .boolean (op.relates a b)
  | .equal | .strictEqual => .boolean (a.same b)
  | .notEqual | .strictNotEqual => .boolean (!a.same b)
  | .sequence => b

/-- The value of a unary operation. Deletion acts on names; of a value it is just true. -/
def UnaryOp.apply (op : UnaryOp) (a : Value) : Value :=
  match op with
  | .plus => .number a.toNumber
  | .minus => .number (-a.toNumber)
  | .not => .boolean (!a.toBoolean)
  | .bitNot => .number (ofSigned (~~~a.toSignedWord))
  | .typeOf => .string a.typeName
  | .void => .undefined
  | .delete => .boolean true

end Scriptlet
