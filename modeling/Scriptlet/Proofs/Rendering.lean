import Scriptlet.Proofs.Phrases

/-!
# Rendering

Programs as they are written: trees whose leaves and names are source texts, and in which every
statement that takes a terminator says which one. A rendering is a list of pieces, and its text has
one space before each piece but the first. Where parentheses stand is decided by a policy. `minimal` sets
them only where the binding powers require it; the others of interest set more (`Policy.Enough`).

A terminator is admitted or not by the text behind it, so `admissible` is a property of the pieces and
not of the tree.
-/

namespace Scriptlet

open Text Token

/-- The text is one token, scanned in full. -/
def Spells (text : String) (k : Kind) : Prop :=
  scan .operand text.toList = .lexeme [] ⟨k, text.toList, []⟩

/-- A literal or a name by its text. -/
structure Leaf where
  text : String
  kind : Kind
  node : Node
  spells : Spells text kind
  leaf : kind.leaf? = some node

/-- A name by its text. -/
structure Name where
  text : String
  spells : Spells text (.identifier text)

/-- How a statement ends. -/
inductive Ending where
  | semicolon
  /-- Blanks with a line end among them. -/
  | lineBreak (gap : List Char) (blank : ∀ c ∈ gap, isBlank c = true) (newline : gap.any isLineEnd = true)
  | nothing

mutual

/-- An expression. -/
inductive Term where
  | leaf (l : Leaf)
  | unary (op : UnaryOp) (argument : Term)
  | update (op : UpdateOp) (argument : Term)
  | binary (op : BinaryOp) (left right : Term)
  | property (object key : Term)
  | assign (op : AssignOp) (target value : Term)
  | conditional (test consequent alternate : Term)
  | call (callee : Term) (arguments : List Term)
  | function (name : Option Name) (params : List Name) (body : List Stmt)

/-- A statement. -/
inductive Stmt where
  | expression (t : Term) (e : Ending)
  | empty
  | block (ss : List Stmt)
  | vars (d : Name × Option Term) (ds : List (Name × Option Term)) (e : Ending)
  | returning (t : Option Term) (e : Ending)
  | branch (test : Term) (s : Stmt)
  | branchElse (test : Term) (s s' : Stmt)
  | whileLoop (test : Term) (s : Stmt)
  | doWhileLoop (test : Term) (s : Stmt) (e : Ending)
  | forLoop (init test update : Option Term) (s : Stmt)
  | forVars (d : Name × Option Term) (ds : List (Name × Option Term)) (test update : Option Term) (s : Stmt)
  | breakLoop (e : Ending)
  | continueLoop (e : Ending)
  | declaration (name : Name) (params : List Name) (body : List Stmt)

end

/-- A name that stands for its value. -/
def Name.term (name : Name) : Term :=
  .leaf ⟨name.text, .identifier name.text, .identifier name.text, name.spells, rfl⟩

def Ending.newline : Ending :=
  .lineBreak ['\n'] (List.forall_mem_singleton.2 (by decide)) (by decide)

/-! ### Trees -/

mutual

/-- The tree of an expression. -/
def Term.node : Term → Node
  | .leaf l => l.node
  | .unary op t => .unary op t.node
  | .update op t => .update op t.node
  | .binary op l r => .binary op l.node r.node
  | .property o k => .property o.node k.node
  | .assign op t v => .assign op t.node v.node
  | .conditional c a b => .conditional c.node a.node b.node
  | .call f ts => .call f.node (termNodes ts)
  | .function name params body => .function (name.map Name.text) (params.map Name.text) (stmtNodes body)

def termNodes : List Term → List Node
  | [] => []
  | t :: ts => t.node :: termNodes ts

def optionNode : Option Term → Option Node
  | none => none
  | some t => some t.node

def declaratorNode : Name × Option Term → String × Option Node
  | (name, t) => (name.text, optionNode t)

def declaratorNodes : List (Name × Option Term) → List (String × Option Node)
  | [] => []
  | d :: ds => declaratorNode d :: declaratorNodes ds

/-- The tree of a statement. -/
def Stmt.node : Stmt → Node
  | .expression t _ => t.node
  | .empty => .empty
  | .block ss => .block (stmtNodes ss)
  | .vars d ds _ => .varList (declaratorNode d :: declaratorNodes ds)
  | .returning t _ => .returning (optionNode t)
  | .branch c s => .branch c.node s.node none
  | .branchElse c s s' => .branch c.node s.node (some s'.node)
  | .whileLoop c s => .whileLoop c.node s.node
  | .doWhileLoop c s _ => .doWhileLoop c.node s.node
  | .forLoop i c u s => .forLoop (optionNode i) (optionNode c) (optionNode u) s.node
  | .forVars d ds c u s =>
    .forLoop (some (.varList (declaratorNode d :: declaratorNodes ds))) (optionNode c) (optionNode u) s.node
  | .breakLoop _ => .breakLoop
  | .continueLoop _ => .continueLoop
  | .declaration name params body => .declaration (some name.text) (params.map Name.text) (stmtNodes body)

def stmtNodes : List Stmt → List Node
  | [] => []
  | s :: ss => s.node :: stmtNodes ss

end

/-! ### Which trees can be written -/

/-- A statement that ends in a conditional without a second branch. -/
def Stmt.endsOpen : Stmt → Bool
  | .branch .. => true
  | .branchElse _ _ s' => s'.endsOpen
  | .whileLoop _ s => s.endsOpen
  | .forLoop _ _ _ s | .forVars _ _ _ _ s => s.endsOpen
  | _ => false

mutual

/-- Only names and properties are assigned to; the same holds in the functions of an expression. -/
def Term.valid : Term → Bool
  | .leaf _ => true
  | .unary _ t => t.valid
  | .update _ t => t.node.isTarget && t.valid
  | .binary _ l r => l.valid && r.valid
  | .property o k => o.valid && k.valid
  | .assign _ t v => t.node.isTarget && t.valid && v.valid
  | .conditional c a b => c.valid && a.valid && b.valid
  | .call f ts => f.valid && termsValid ts
  | .function _ _ body => stmtsValid false body

def termsValid : List Term → Bool
  | [] => true
  | t :: ts => t.valid && termsValid ts

def optionValid : Option Term → Bool
  | none => true
  | some t => t.valid

def declaratorValid : Name × Option Term → Bool
  | (_, t) => optionValid t

def declaratorsValid : List (Name × Option Term) → Bool
  | [] => true
  | d :: ds => declaratorValid d && declaratorsValid ds

/-- Jumps stand inside of loops, and an `else` does not follow a conditional that could take it. -/
def Stmt.valid (inLoop : Bool) : Stmt → Bool
  | .expression t _ => t.valid
  | .empty => true
  | .block ss => stmtsValid inLoop ss
  | .vars d ds _ => declaratorValid d && declaratorsValid ds
  | .returning t _ => optionValid t
  | .branch c s => c.valid && s.valid inLoop
  | .branchElse c s s' => c.valid && s.valid inLoop && !s.endsOpen && s'.valid inLoop
  | .whileLoop c s => c.valid && s.valid true
  | .doWhileLoop c s _ => c.valid && s.valid true
  | .forLoop i c u s => optionValid i && optionValid c && optionValid u && s.valid true
  | .forVars d ds c u s =>
    declaratorValid d && declaratorsValid ds && optionValid c && optionValid u && s.valid true
  | .breakLoop _ | .continueLoop _ => inLoop
  | .declaration _ _ body => stmtsValid false body

def stmtsValid (inLoop : Bool) : List Stmt → Bool
  | [] => true
  | s :: ss => s.valid inLoop && stmtsValid inLoop ss

end

mutual

/-- No function occurs in the expression. -/
def Term.functionFree : Term → Bool
  | .leaf _ => true
  | .unary _ t | .update _ t => t.functionFree
  | .binary _ l r | .property l r | .assign _ l r => l.functionFree && r.functionFree
  | .conditional c a b => c.functionFree && a.functionFree && b.functionFree
  | .call f ts => f.functionFree && termsFunctionFree ts
  | .function .. => false

def termsFunctionFree : List Term → Bool
  | [] => true
  | t :: ts => t.functionFree && termsFunctionFree ts

end

/-! ### Pieces -/

def BinaryOp.punct : BinaryOp → Punct
  | .add => .plus
  | .subtract => .minus
  | .multiply => .star
  | .divide => .slash
  | .modulus => .percent
  | .and => .ampersandAmpersand
  | .or => .pipePipe
  | .bitAnd => .ampersand
  | .bitOr => .pipe
  | .bitXor => .caret
  | .leftShift => .leftShift
  | .rightShift => .rightShift
  | .unsignedRightShift => .unsignedRightShift
  | .less => .lessThan
  | .greater => .greaterThan
  | .lessEqual => .lessThanEqual
  | .greaterEqual => .greaterThanEqual
  | .equal => .equalEqual
  | .notEqual => .notEqual
  | .strictEqual => .strictEqual
  | .strictNotEqual => .strictNotEqual
  | .sequence => .comma

def AssignOp.punct : AssignOp → Punct
  | .plain => .equal
  | .add => .plusEqual
  | .subtract => .minusEqual
  | .multiply => .starEqual
  | .divide => .slashEqual
  | .modulus => .percentEqual
  | .leftShift => .leftShiftEqual
  | .rightShift => .rightShiftEqual
  | .unsignedRightShift => .unsignedRightShiftEqual
  | .bitAnd => .ampersandEqual
  | .bitOr => .pipeEqual
  | .bitXor => .caretEqual

def UpdateOp.punct : UpdateOp → Punct
  | .preIncrement | .postIncrement => .plusPlus
  | .preDecrement | .postDecrement => .minusMinus

/-- A part of a rendering. -/
inductive Piece where
  | punct (p : Punct)
  | word (w : Word)
  | text (s : String)
  | ending (e : Ending)

def UnaryOp.piece : UnaryOp → Piece
  | .plus => .punct .plus
  | .minus => .punct .minus
  | .not => .punct .bang
  | .bitNot => .punct .tilde
  | .typeOf => .word .typeof
  | .void => .word .void
  | .delete => .word .delete

/-- The characters of a piece, with the blank before it. -/
def Piece.chars : Piece → List Char
  | .punct p => ' ' :: p.spelling.toList
  | .word w => ' ' :: w.spelling.toList
  | .text s => ' ' :: s.toList
  | .ending .semicolon => [' ', ';']
  | .ending (.lineBreak gap _ _) => gap
  | .ending .nothing => []

/-- The text of a rendering, with a blank before its first piece. -/
def textOf (ps : List Piece) : List Char := ps.flatMap Piece.chars

/-- The source that a rendering stands for. -/
def render (ps : List Piece) : String := String.ofList (textOf ps).tail

/-- Whether a statement may end so before a text: without a semicolon, the next token must not go on
with it. -/
def Ending.admits (e : Ending) (cs : List Char) : Bool :=
  match e with
  | .semicolon => true
  | .lineBreak .. => (ahead? .operator cs).any fun a =>
      a.kind ≠ .punct .semicolon && (a.kind.power = 0 || a.kind.updateAfter?.isSome)
  | .nothing => (ahead? .operator cs).any fun a => Parser.endsStatement a.kind

/-- Whether every statement may end as it does. -/
def admissible : List Piece → Bool
  | [] => true
  | .ending e :: ps => e.admits (textOf ps) && admissible ps
  | _ :: ps => admissible ps

/-! ### Parentheses -/

/-- Where an expression stands. -/
inductive Position where
  /-- On the left of an operator, of a bracket or of the parenthesis that opens the arguments. -/
  | left (p : Punct)
  /-- On the right of a binary operator. -/
  | right (p : Punct)
  /-- Behind an operator that is written before its operand. -/
  | operand
  /-- Before a question mark. -/
  | test
  /-- A value assigned, a branch of a conditional, an argument or an initial value. -/
  | part
  /-- Between brackets of its own, or in a statement. -/
  | whole

/-- The lowest level at which an expression can stand there without parentheses. -/
def Position.bound : Position → Nat
  | .left p => (Kind.punct p).power
  | .right p => (Kind.punct p).power + 1
  | .operand => Kind.unaryPower
  | .test => 31
  | .part => Kind.commaPower + 1
  | .whole => 0

/-- How tight an expression binds. -/
def Term.level : Term → Nat
  | .leaf _ | .function .. => 170
  | .unary .. => Kind.unaryPower
  | .update op _ => if op.yieldsOld then 150 else Kind.unaryPower
  | .binary op _ _ => (Kind.punct op.punct).power
  | .property .. | .call .. => 160
  | .assign .. => 20
  | .conditional .. => 30

/-- A choice of parentheses. -/
def Policy := Position → Term → Bool

/-- Parentheses stand at least where the powers require them. -/
def Policy.Enough (policy : Policy) : Prop := ∀ pos t, t.level < pos.bound → policy pos t = true

/-- Parentheses stand only where the powers require them. -/
def minimal : Policy := fun pos t => t.level < pos.bound

/-- Parentheses stand around all operands that are no leaves. -/
def generous : Policy := fun pos t =>
  match pos, t with
  | .whole, _ => false
  | _, .leaf _ => false
  | _, _ => true

theorem minimal_enough : minimal.Enough := fun _ _ h => decide_eq_true h

theorem power_le (p : Punct) : (Kind.punct p).power ≤ 160 := by cases p <;> decide

theorem Position.bound_lt (pos : Position) : pos.bound < 170 := by
  cases pos with
  | left p => exact Nat.lt_of_le_of_lt (power_le p) (by decide)
  | right p => exact Nat.lt_of_le_of_lt (Nat.succ_le_succ (power_le p)) (by decide)
  | _ => decide

theorem generous_enough : generous.Enough := by
  intro pos t h
  cases t with
  | leaf l => exact absurd h (Nat.not_lt.2 (Nat.le_of_lt pos.bound_lt))
  | _ =>
    cases pos with
    | whole => exact absurd h (Nat.not_lt_zero _)
    | _ => rfl

/-! ### Renderings -/

def inParens (ps : List Piece) : List Piece := .punct .leftParen :: (ps ++ [.punct .rightParen])

def inBraces (ps : List Piece) : List Piece := .punct .leftBrace :: (ps ++ [.punct .rightBrace])

/-- Pieces in parentheses, if the flag is set. -/
def wrap (flag : Bool) (ps : List Piece) : List Piece := if flag then inParens ps else ps

/-- Lists of pieces with commas between them. -/
def separated : List (List Piece) → List Piece
  | [] => []
  | [ps] => ps
  | ps :: pss => ps ++ .punct .comma :: separated pss

/-- A function behind its name. -/
def functionPieces (params : List Name) (body : List Piece) : List Piece :=
  inParens (separated (params.map fun x => [.text x.text])) ++ inBraces body

/-- Whether the word `function` comes first, so that the pieces would not be read as an expression. -/
def opensFunction : List Piece → Bool
  | .word .function :: _ => true
  | _ => false

section Pieces

variable (policy : Policy)

mutual

def Term.pieces : Term → List Piece
  | .leaf l => [.text l.text]
  | .unary op t => op.piece :: wrap (policy .operand t) t.pieces
  | .update op t =>
    if op.yieldsOld then wrap (policy (.left op.punct) t) t.pieces ++ [.punct op.punct]
    else .punct op.punct :: wrap (policy .operand t) t.pieces
  | .binary op l r =>
    wrap (policy (.left op.punct) l) l.pieces ++ .punct op.punct ::
      wrap (policy (.right op.punct) r) r.pieces
  | .property o k =>
    wrap (policy (.left .leftBracket) o) o.pieces ++ .punct .leftBracket ::
      (wrap (policy .whole k) k.pieces ++ [.punct .rightBracket])
  | .assign op t v =>
    wrap (policy (.left op.punct) t) t.pieces ++ .punct op.punct :: wrap (policy .part v) v.pieces
  | .conditional c a b =>
    wrap (policy .test c) c.pieces ++ .punct .question :: (wrap (policy .part a) a.pieces ++
      .punct .colon :: wrap (policy .part b) b.pieces)
  | .call f ts =>
    wrap (policy (.left .leftParen) f) f.pieces ++ inParens (separated (argumentPieces ts))
  | .function name params body =>
    .word .function :: (name.toList.map (Piece.text ·.text) ++ functionPieces params (stmtPieces body))

def argumentPieces : List Term → List (List Piece)
  | [] => []
  | t :: ts => wrap (policy .part t) t.pieces :: argumentPieces ts

def optionPieces : Option Term → List Piece
  | none => []
  | some t => wrap (policy .whole t) t.pieces

def initialPieces : Option Term → List Piece
  | none => []
  | some t => .punct .equal :: wrap (policy .part t) t.pieces

def declaratorText : Name × Option Term → List Piece
  | (name, t) => .text name.text :: initialPieces t

def declaratorPieces : List (Name × Option Term) → List (List Piece)
  | [] => []
  | d :: ds => declaratorText d :: declaratorPieces ds

def Stmt.pieces : Stmt → List Piece
  | .expression t e =>
    wrap (policy .whole t || opensFunction t.pieces) t.pieces ++ [.ending e]
  | .empty => [.punct .semicolon]
  | .block ss => inBraces (stmtPieces ss)
  | .vars d ds e =>
    .word .var :: (separated (declaratorText d :: declaratorPieces ds) ++ [.ending e])
  | .returning t e => .word .«return» :: (optionPieces t ++ [.ending e])
  | .branch c s => .word .«if» :: (inParens (wrap (policy .whole c) c.pieces) ++ s.pieces)
  | .branchElse c s s' =>
    .word .«if» :: (inParens (wrap (policy .whole c) c.pieces) ++ (s.pieces ++ .word .«else» :: s'.pieces))
  | .whileLoop c s => .word .while :: (inParens (wrap (policy .whole c) c.pieces) ++ s.pieces)
  | .doWhileLoop c s e =>
    .word .«do» :: (s.pieces ++ .word .while :: (inParens (wrap (policy .whole c) c.pieces) ++ [.ending e]))
  | .forLoop i c u s =>
    .word .«for» :: (inParens (optionPieces i ++ .punct .semicolon ::
      (optionPieces c ++ .punct .semicolon :: optionPieces u)) ++ s.pieces)
  | .forVars d ds c u s =>
    .word .«for» :: (inParens (.word .var :: (separated (declaratorText d :: declaratorPieces ds) ++
      .punct .semicolon :: (optionPieces c ++ .punct .semicolon :: optionPieces u))) ++ s.pieces)
  | .breakLoop e => [.word .«break», .ending e]
  | .continueLoop e => [.word .«continue», .ending e]
  | .declaration name params body =>
    .word .function :: .text name.text :: functionPieces params (stmtPieces body)

def stmtPieces : List Stmt → List Piece
  | [] => []
  | s :: ss => s.pieces ++ stmtPieces ss

end

end Pieces

end Scriptlet
