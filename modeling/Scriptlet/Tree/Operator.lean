/-!
# Operators

The operators of expressions. An assignment is plain or applies a binary operator to the old value;
an update adds or subtracts one and yields the new or the old value.
-/

namespace Scriptlet

/-- Operators before their only operand. -/
inductive UnaryOp where
  | plus | minus | not | bitNot | typeOf | void | delete
  deriving DecidableEq, Repr

/-- Operators between two operands. -/
inductive BinaryOp where
  | add | subtract | multiply | divide | modulus
  | and | or
  | bitAnd | bitOr | bitXor | leftShift | rightShift | unsignedRightShift
  | less | greater | lessEqual | greaterEqual
  | equal | notEqual | strictEqual | strictNotEqual
  | sequence
  deriving DecidableEq, Repr

/-- Assignments. -/
inductive AssignOp where
  | plain
  | add | subtract | multiply | divide | modulus
  | leftShift | rightShift | unsignedRightShift
  | bitAnd | bitOr | bitXor
  deriving DecidableEq, Repr

/-- Updates by one, before or after the operand. -/
inductive UpdateOp where
  | preIncrement | preDecrement | postIncrement | postDecrement
  deriving DecidableEq, Repr

/-- The operator that a compound assignment applies. -/
def AssignOp.binary? : AssignOp → Option BinaryOp
  | .plain => none
  | .add => some .add
  | .subtract => some .subtract
  | .multiply => some .multiply
  | .divide => some .divide
  | .modulus => some .modulus
  | .leftShift => some .leftShift
  | .rightShift => some .rightShift
  | .unsignedRightShift => some .unsignedRightShift
  | .bitAnd => some .bitAnd
  | .bitOr => some .bitOr
  | .bitXor => some .bitXor

/-- What an update adds to its operand. -/
def UpdateOp.delta : UpdateOp → Float
  | .preIncrement | .postIncrement => 1.0
  | .preDecrement | .postDecrement => -1.0

/-- Whether an update yields the operand's old value. -/
def UpdateOp.yieldsOld : UpdateOp → Bool
  | .postIncrement | .postDecrement => true
  | .preIncrement | .preDecrement => false

end Scriptlet
