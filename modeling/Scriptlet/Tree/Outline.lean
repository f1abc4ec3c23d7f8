import Scriptlet.Number.Layout
import Scriptlet.Text.Outline
import Scriptlet.Text.Quoted
import Scriptlet.Tree.Node

/-!
# Dumps of syntax trees

The outline of a tree names each node and labels its parts.
-/

namespace Scriptlet

open Text Outline

/-- The name of an operator in a dump. -/
def UnaryOp.title : UnaryOp → String
  | .plus => "Plus"
  | .minus => "Minus"
  | .not => "Not"
  | .bitNot => "BitwiseNot"
  | .typeOf => "TypeOf"
  | .void => "Void"
  | .delete => "Delete"

/-- The name of an operator in a dump. -/
def UpdateOp.title : UpdateOp → String
  | .preIncrement => "PreIncrement"
  | .preDecrement => "PreDecrement"
  | .postIncrement => "PostIncrement"
  | .postDecrement => "PostDecrement"

/-- The name of an operator in a dump. -/
def BinaryOp.title : BinaryOp → String
  | .add => "Add"
  | .subtract => "Subtract"
  | .multiply => "Multiply"
  | .divide => "Divide"
  | .modulus => "Modulus"
  | .and => "And"
  | .or => "Or"
  | .bitAnd => "BitwiseAnd"
  | .bitOr => "BitwiseOr"
  | .bitXor => "BitwiseXOr"
  | .leftShift => "LeftShift"
  | .rightShift => "SignedRightShift"
  | .unsignedRightShift => "UnsignedRightShift"
  | .less => "LessThan"
  | .greater => "GreaterThan"
  | .lessEqual => "LessThanOrEqual"
  | .greaterEqual => "GreaterThanOrEqual"
  | .equal => "Equal"
  | .notEqual => "NotEqual"
  | .strictEqual => "StrictlyEqual"
  | .strictNotEqual => "StrictlyNotEqual"
  | .sequence => "Sequence"

/-- The name of an assignment in a dump: that of the operator it applies, before `Assign`. -/
def AssignOp.title (op : AssignOp) : String :=
  match op.binary? with
  | some binary => binary.title ++ "Assign"
  | none => "Assign"

namespace Node

/-- A number in a dump. -/
def outlineNumber (x : Float) : Outline := .atom (Number.Layout.ofDump.render x)

/-- A text in a dump. -/
def outlineText (s : String) : Outline := .atom (quoted s)

/-- An optional part. -/
def outlineOption : Option Outline → Outline
  | some o => .group "Some" [o]
  | none => .atom "None"

/-- A list of names. -/
def outlineNames (names : List String) : Outline := .list (names.map outlineText)

/-- A node whose parts are labelled. -/
def outlineParts (title name : String) (parts : List (String × Outline)) : Outline :=
  .group title [.record name parts false]

/-- The parts of a function. -/
def outlineFunction (title : String) (name : Option String) (params : List String)
    (body : List Outline) : Outline :=
  outlineParts title "FunctionDefinition" [("name", outlineOption (name.map outlineText)),
    ("params", outlineNames params), ("body", .list body)]

mutual

/-- The outline of a tree. -/
def outline : Node → Outline
  | .number x => .group "Number" [outlineNumber x]
  | .boolean b => .group "Boolean" [.atom (if b then "true" else "false")]
  | .string s => .group "String" [outlineText s]
  | .regExp p f => .record "RegExp" [("pattern", outlineText p), ("flags", outlineText f)] false
  | .null => .atom "Null"
  | .identifier name => .group "Identifier" [outlineText name]
  | .unary op a =>
    outlineParts "Unary" "UnaryExpression" [("operator", .atom op.title), ("argument", outline a)]
  | .update op a =>
    outlineParts "Update" "UpdateExpression" [("operator", .atom op.title), ("argument", outline a)]
  | .binary op a b =>
    outlineParts "Binary" "BinaryExpression"
      [("operator", .atom op.title), ("left", outline a), ("right", outline b)]
  | .property a b =>
    outlineParts "PropertyAccess" "PropertyAccess" [("object", outline a), ("property", outline b)]
  | .assign op a b =>
    outlineParts "Assignment" "AssignmentExpression"
      [("operator", .atom op.title), ("target", outline a), ("value", outline b)]
  | .conditional a b c =>
    outlineParts "Condition" "ConditionalExpression"
      [("test", outline a), ("consequent", outline b), ("alternate", outline c)]
  | .call a as =>
    outlineParts "FunctionCall" "CallExpression"
      [("callee", outline a), ("arguments", .list (outlines as))]
  | .function name params body => outlineFunction "Function" name params (outlines body)
  | .declaration name params body =>
    outlineFunction "FunctionDeclaration" name params (outlines body)
  | .block body => .group "Block" [.list (outlines body)]
  | .varList ds => .group "VariableStatement" [.list (outlineDeclarators ds)]
  | .returning a => .group "Return" [outlineChild a]
  | .branch a b c =>
    outlineParts "If" "IfStatement"
      [("test", outline a), ("consequent", outline b), ("alternate", outlineChild c)]
  | .whileLoop a b =>
    outlineParts "While" "WhileStatement" [("test", outline a), ("body", outline b)]
  | .doWhileLoop a b =>
    outlineParts "DoWhile" "WhileStatement" [("test", outline a), ("body", outline b)]
  | .forLoop a b c d =>
    outlineParts "For" "ForStatement"
      [("init", outlineChild a), ("test", outlineChild b), ("update", outlineChild c),
        ("body", outline d)]
  | .breakLoop => .atom "Break"
  | .continueLoop => .atom "Continue"
  | .empty => .atom "Empty"

/-- The outlines of a list of trees. -/
def outlines : List Node → List Outline
  | [] => []
  | a :: as => outline a :: outlines as

/-- The outline of an optional tree. -/
def outlineChild : Option Node → Outline
  | none => outlineOption none
  | some a => outlineOption (some (outline a))

/-- The outlines of a list of declarators. -/
def outlineDeclarators : List (String × Option Node) → List Outline
  | [] => []
  | (name, a) :: ds =>
    .record "VariableDeclarator" [("name", outlineText name), ("init", outlineChild a)] false ::
      outlineDeclarators ds

end

end Node

/-- The outline of a program. -/
def Program.outline (p : Program) : Outline := .record "Program" [("body", .list (Node.outlines p))] false

end Scriptlet
