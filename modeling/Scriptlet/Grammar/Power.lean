import Scriptlet.Token.Kind
import Scriptlet.Tree.Operator

/-!
# Binding powers

Where an operator is expected, a token binds to the operand on its left with a certain power. Tokens
of power zero end an expression. Operators of equal power associate to the left, since the right
operand of an operator takes only operators of greater power.
-/

namespace Scriptlet.Token.Kind

/-- The power of the comma, and the bound of a part that may not contain a bare comma. -/
def commaPower : Nat := 10

/-- The power that bounds the operand of an operator written before it. -/
def unaryPower : Nat := 140

/-- The power with which a token binds to the operand on its left. -/
def power : Kind → Nat
  | .punct p =>
    match p with
    | .comma => commaPower
    | .equal | .plusEqual | .minusEqual | .starEqual | .slashEqual | .percentEqual | .leftShiftEqual
    | .rightShiftEqual | .unsignedRightShiftEqual | .ampersandEqual | .pipeEqual | .caretEqual => 20
    | .question => 30
    | .pipePipe => 40
    | .ampersandAmpersand => 50
    | .pipe => 60
    | .caret => 70
    | .ampersand => 80
    | .equalEqual | .notEqual | .strictEqual | .strictNotEqual => 90
    | .lessThan | .greaterThan | .lessThanEqual | .greaterThanEqual => 100
    | .leftShift | .rightShift | .unsignedRightShift => 110
    | .plus | .minus => 120
    | .star | .slash | .percent => 130
    | .plusPlus | .minusMinus => 150
    | .dot | .leftBracket | .leftParen => 160
    | _ => 0
  | _ => 0

/-- The operator that a token denotes between two operands. -/
def binaryOp? : Kind → Option BinaryOp
  | .punct p =>
    match p with
    | .comma => some .sequence
    | .pipePipe => some .or
    | .ampersandAmpersand => some .and
    | .pipe => some .bitOr
    | .caret => some .bitXor
    | .ampersand => some .bitAnd
    | .equalEqual => some .equal
    | .notEqual => some .notEqual
    | .strictEqual => some .strictEqual
    | .strictNotEqual => some .strictNotEqual
    | .lessThan => some .less
    | .greaterThan => some .greater
    | .lessThanEqual => some .lessEqual
    | .greaterThanEqual => some .greaterEqual
    | .leftShift => some .leftShift
    | .rightShift => some .rightShift
    | .unsignedRightShift => some .unsignedRightShift
    | .plus => some .add
    | .minus => some .subtract
    | .star => some .multiply
    | .slash => some .divide
    | .percent => some .modulus
    | _ => none
  | _ => none

/-- The assignment that a token denotes. -/
def assignOp? : Kind → Option AssignOp
  | .punct p =>
    match p with
    | .equal => some .plain
    | .plusEqual => some .add
    | .minusEqual => some .subtract
    | .starEqual => some .multiply
    | .slashEqual => some .divide
    | .percentEqual => some .modulus
    | .leftShiftEqual => some .leftShift
    | .rightShiftEqual => some .rightShift
    | .unsignedRightShiftEqual => some .unsignedRightShift
    | .ampersandEqual => some .bitAnd
    | .pipeEqual => some .bitOr
    | .caretEqual => some .bitXor
    | _ => none
  | _ => none

/-- The update that a token denotes before its operand. -/
def updateBefore? : Kind → Option UpdateOp
  | .punct .plusPlus => some .preIncrement
  | .punct .minusMinus => some .preDecrement
  | _ => none

/-- The update that a token denotes after its operand. -/
def updateAfter? : Kind → Option UpdateOp
  | .punct .plusPlus => some .postIncrement
  | .punct .minusMinus => some .postDecrement
  | _ => none

/-- The operator that a token denotes before its operand, updates apart. -/
def unaryOp? : Kind → Option UnaryOp
  | .punct .plus => some .plus
  | .punct .minus => some .minus
  | .punct .bang => some .not
  | .punct .tilde => some .bitNot
  | .word .typeof => some .typeOf
  | .word .void => some .void
  | .word .delete => some .delete
  | _ => none

end Scriptlet.Token.Kind
