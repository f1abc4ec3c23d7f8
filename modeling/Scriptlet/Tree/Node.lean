import Scriptlet.Tree.Operator

/-!
# Syntax trees

Expressions and statements are nodes of one kind: an expression can stand where a statement is
expected, and a program yields the value of its last statement.
-/

namespace Scriptlet

/-- A node of a syntax tree. -/
inductive Node where
  | number (value : Float)
  | boolean (value : Bool)
  | string (text : String)
  | regExp (pattern flags : String)
  | null
  | identifier (name : String)
  | unary (op : UnaryOp) (argument : Node)
  | update (op : UpdateOp) (argument : Node)
  | binary (op : BinaryOp) (left right : Node)
  | property (object key : Node)
  | assign (op : AssignOp) (target value : Node)
  | conditional (test consequent alternate : Node)
  | call (callee : Node) (arguments : List Node)
  | function (name : Option String) (params : List String) (body : List Node)
  | declaration (name : Option String) (params : List String) (body : List Node)
  | block (statements : List Node)
  | varList (declarators : List (String × Option Node))
  | returning (argument : Option Node)
  | branch (test consequent : Node) (alternate : Option Node)
  | whileLoop (test body : Node)
  | doWhileLoop (test body : Node)
  | forLoop (init test update : Option Node) (body : Node)
  | breakLoop
  | continueLoop
  | empty
  deriving Inhabited

namespace Node

/-- Whether a value can be assigned to the node: names and properties. -/
def isTarget : Node → Bool
  | .identifier _ => true
  | .property .. => true
  | _ => false

mutual

/-- Whether two trees are the same, where numbers are compared as numbers: a tree that holds a NaN
is not the same as itself. -/
def same : Node → Node → Bool
  | .number a => fun | .number b => a == b | _ => false
  | .boolean a => fun | .boolean b => a == b | _ => false
  | .string a => fun | .string b => a == b | _ => false
  | .regExp p f => fun | .regExp q g => p == q && f == g | _ => false
  | .null => fun | .null => true | _ => false
  | .identifier a => fun | .identifier b => a == b | _ => false
  | .unary o a => fun | .unary p b => o == p && same a b | _ => false
  | .update o a => fun | .update p b => o == p && same a b | _ => false
  | .binary o a b => fun | .binary p c d => o == p && same a c && same b d | _ => false
  | .property a b => fun | .property c d => same a c && same b d | _ => false
  | .assign o a b => fun | .assign p c d => o == p && same a c && same b d | _ => false
  | .conditional a b c => fun | .conditional d e f => same a d && same b e && same c f | _ => false
  | .call a as => fun | .call b bs => same a b && sameList as bs | _ => false
  | .function n ps b => fun | .function m qs c => n == m && ps == qs && sameList b c | _ => false
  | .declaration n ps b => fun
    | .declaration m qs c => n == m && ps == qs && sameList b c
    | _ => false
  | .block a => fun | .block b => sameList a b | _ => false
  | .varList a => fun | .varList b => sameDeclarators a b | _ => false
  | .returning a => fun | .returning b => sameOption a b | _ => false
  | .branch a b c => fun | .branch d e f => same a d && same b e && sameOption c f | _ => false
  | .whileLoop a b => fun | .whileLoop c d => same a c && same b d | _ => false
  | .doWhileLoop a b => fun | .doWhileLoop c d => same a c && same b d | _ => false
  | .forLoop a b c d => fun
    | .forLoop e f g h => sameOption a e && sameOption b f && sameOption c g && same d h
    | _ => false
  | .breakLoop => fun | .breakLoop => true | _ => false
  | .continueLoop => fun | .continueLoop => true | _ => false
  | .empty => fun | .empty => true | _ => false

/-- Whether two lists of trees are the same. -/
def sameList : List Node → List Node → Bool
  | [] => List.isEmpty
  | a :: as => fun | b :: bs => same a b && sameList as bs | [] => false

/-- Whether two optional trees are the same. -/
def sameOption : Option Node → Option Node → Bool
  | none => Option.isNone
  | some a => fun | some b => same a b | none => false

/-- Whether two lists of declarators are the same. -/
def sameDeclarators : List (String × Option Node) → List (String × Option Node) → Bool
  | [] => List.isEmpty
  | (n, a) :: as => fun
    | (m, b) :: bs => n == m && sameOption a b && sameDeclarators as bs
    | [] => false

end

end Node

/-- A program: its statements in order. -/
abbrev Program := List Node

end Scriptlet
