import Scriptlet.Grammar.Cursor
import Scriptlet.Grammar.Power
import Scriptlet.Tree.Node

/-!
# The grammar

Each rule of the grammar is a parser over the parsers of its parts, `Rules`; `expression` and
`statement` tie the knot. Their first argument bounds the depth of nesting, and the length of every
list of parts. A rule that calls itself has consumed a character in between, apart from a statement
that is an expression, so twice the length of the text is depth enough.

An expression is an operand followed by operators that bind tighter than a given power. The right
sides of assignments, both branches of a conditional, arguments and initial values are expressions
that bind tighter than the comma.
-/

namespace Scriptlet.Parser

open Token

/-- The parsers that a rule calls for its parts: expressions whose operators bind tighter than a
power, and statements inside or outside of a loop. -/
structure Rules where
  expression : Nat → Parser Node
  statement : Bool → Parser Node

/-- Fails since the nesting is too deep. -/
def tooDeep {α : Type} : Parser α := throw (.internal .depth)

/-- One or more parts with commas between them. -/
def commaList {α : Type} (part : Parser α) : Nat → Parser (List α)
  | 0 => tooDeep
  | n + 1 => do
    let first ← part
    if ← eat (.punct .comma) .operator then return first :: (← commaList part n)
    else return [first]

/-- Parts with commas between them, after an opening parenthesis and up to the closing one. -/
def parenthesised {α : Type} (part : Parser α) (n : Nat) : Parser (List α) := do
  if ← eat (.punct .rightParen) .operand then return []
  else
    let parts ← commaList part n
    let _ ← expect (.punct .rightParen) .operator
    return parts

/-- The node, if it can be assigned to; fails at the operator otherwise. -/
def target (operator : Token) (node : Node) : Parser Node :=
  if node.isTarget then return node
  else throw (.unexpected operator.kind operator.start .target)

/-- The statements of a block and its closing brace. -/
def blockRest (r : Rules) (inLoop : Bool) : Nat → Parser (List Node)
  | 0 => tooDeep
  | n + 1 => do
    match ← peekKind .operand with
    | .punct .rightBrace =>
      let _ ← advance .operand
      return []
    | .eof => unexpected .operand (.kind (.punct .rightBrace))
    | _ =>
      let first ← r.statement inLoop
      return first :: (← blockRest r inLoop n)

/-- Statements in braces. -/
def block (r : Rules) (inLoop : Bool) (n : Nat) : Parser (List Node) := do
  let _ ← expect (.punct .leftBrace) .operand
  blockRest r inLoop n

/-- A function after its name: its parameters and its body. Loops around the function are no loops
around its body. -/
def functionRest (r : Rules) (n : Nat) (name : Option String) :
    Parser (Option String × List String × List Node) := do
  let _ ← expect (.punct .leftParen) .operand
  let params ← parenthesised expectName n
  let body ← block r false n
  return (name, params, body)

/-- Whether a function is named after the word that opens it; a declared one has to be. -/
def isNamed (declared : Bool) : Parser Bool :=
  if declared then pure true else not <$> check (.punct .leftParen) .operand

/-- A function after the word that opens it: its name, parameters and body. -/
def functionParts (r : Rules) (declared : Bool) (n : Nat) :
    Parser (Option String × List String × List Node) := do
  if ← isNamed declared then functionRest r n (some (← expectName)) else functionRest r n none

/-- An operand that starts with the given token. -/
def operand (r : Rules) (n : Nat) (token : Token) : Parser Node :=
  match token.kind.updateBefore? with
  | some op => do
    let argument ← r.expression Kind.unaryPower
    return .update op (← target token argument)
  | none =>
    match token.kind with
    | .number x => return .number x
    | .string s => return .string s
    | .boolean b => return .boolean b
    | .null => return .null
    | .regExp pattern flags => return .regExp pattern flags
    | .identifier name => return .identifier name
    | .punct .leftParen => do
      let inner ← r.expression 0
      let _ ← expect (.punct .rightParen) .operator
      return inner
    | .word .function => do
      let (name, params, body) ← functionParts r false n
      return .function name params body
    | kind =>
      match kind.unaryOp? with
      | some op => return .unary op (← r.expression Kind.unaryPower)
      | none => throw (.unexpected kind token.start .expression)

/-- The expression that an operator makes of the operand on its left. -/
def suffixed (r : Rules) (n : Nat) (token : Token) (left : Node) : Parser Node :=
  match token.kind.binaryOp? with
  | some op => return .binary op left (← r.expression token.kind.power)
  | none =>
    match token.kind.assignOp? with
    | some op => do
      let left ← target token left
      return .assign op left (← r.expression Kind.commaPower)
    | none =>
      match token.kind.updateAfter? with
      | some op => return .update op (← target token left)
      | none =>
        match token.kind with
        | .punct .question => do
          let consequent ← r.expression Kind.commaPower
          let _ ← expect (.punct .colon) .operator
          return .conditional left consequent (← r.expression Kind.commaPower)
        | .punct .dot => return .property left (.string (← expectName))
        | .punct .leftBracket => do
          let key ← r.expression 0
          let _ ← expect (.punct .rightBracket) .operator
          return .property left key
        | .punct .leftParen =>
          return .call left (← parenthesised (r.expression Kind.commaPower) n)
        | kind => throw (.unexpected kind token.start .operator)

/-- Whether the token ahead goes on with an expression whose operators bind tighter than `min`. An
update after its operand must stand on the same line. -/
def continues (min : Nat) (ahead : Lookahead) : Bool :=
  min < ahead.token.kind.power && !(ahead.lineBreak && ahead.token.kind.updateAfter?.isSome)

/-- The operators after an operand that bind tighter than `min`. -/
def suffixes (r : Rules) (min : Nat) : Nat → Node → Parser Node
  | 0, _ => tooDeep
  | n + 1, left => do
    if continues min (← peek .operator) then
      let token ← advance .operator
      suffixes r min n (← suffixed r n token left)
    else return left

/-- An expression whose operators bind tighter than `min`. -/
def expressionWith (r : Rules) (n : Nat) (min : Nat) : Parser Node := do
  let token ← advance .operand
  suffixes r min n (← operand r n token)

/-- An expression in parentheses. -/
def condition (r : Rules) : Parser Node := do
  let _ ← expect (.punct .leftParen) .operand
  let test ← r.expression 0
  let _ ← expect (.punct .rightParen) .operator
  return test

/-- A name with an optional initial value. -/
def declarator (r : Rules) : Parser (String × Option Node) := do
  let name ← expectName
  if ← eat (.punct .equal) .operator then return (name, some (← r.expression Kind.commaPower))
  else return (name, none)

/-- An expression, unless the next token is the given one. -/
def optional (r : Rules) (kind : Kind) : Parser (Option Node) := do
  if ← check kind .operand then return none else return some (← r.expression 0)

/-- What a `return` hands back: nothing before the end of its line, a semicolon, a closing brace or
the end of the text. -/
def returnValue (r : Rules) : Parser (Option Node) := do
  let ahead ← peek .operand
  if ahead.lineBreak || ahead.token.kind = .punct .semicolon || endsStatement ahead.token.kind then
    return none
  else return some (← r.expression 0)

/-- A `return` after its word. -/
def returnStatement (r : Rules) : Parser Node := do
  let argument ← returnValue r
  endStatement
  return .returning argument

/-- A jump, which needs a loop around it. -/
def jump (token : Token) (inLoop : Bool) (node : Node) : Parser Node := do
  if inLoop then
    endStatement
    return node
  else throw (.unexpected token.kind token.start .loop)

/-- A conditional statement after its first word. -/
def ifStatement (r : Rules) (inLoop : Bool) : Parser Node := do
  let test ← condition r
  let consequent ← r.statement inLoop
  if ← eat (.word .«else») .operand then
    return .branch test consequent (some (← r.statement inLoop))
  else return .branch test consequent none

/-- A loop after the word `while`. -/
def whileStatement (r : Rules) : Parser Node := do
  let test ← condition r
  return .whileLoop test (← r.statement true)

/-- A loop after the word `do`. A semicolon after it belongs to it. -/
def doWhileStatement (r : Rules) : Parser Node := do
  let body ← r.statement true
  let _ ← expect (.word .while) .operand
  let test ← condition r
  let _ ← eat (.punct .semicolon) .operator
  return .doWhileLoop test body

/-- The first part of a loop after the word `for`. -/
def forInit (r : Rules) (n : Nat) : Parser (Option Node) := do
  if ← eat (.word .var) .operand then return some (.varList (← commaList (declarator r) n))
  else optional r (.punct .semicolon)

/-- A loop after the word `for`. -/
def forStatement (r : Rules) (n : Nat) : Parser Node := do
  let _ ← expect (.punct .leftParen) .operand
  let init ← forInit r n
  let _ ← expect (.punct .semicolon) .operator
  let test ← optional r (.punct .semicolon)
  let _ ← expect (.punct .semicolon) .operator
  let update ← optional r (.punct .rightParen)
  let _ ← expect (.punct .rightParen) .operator
  return .forLoop init test update (← r.statement true)

/-- A statement after its first word, if that word opens one. -/
def wordStatement? (r : Rules) (inLoop : Bool) (n : Nat) (w : Word) : Option (Token → Parser Node) :=
  match w with
  | .«return» => some fun _ => returnStatement r
  | .«break» => some fun token => jump token inLoop .breakLoop
  | .«continue» => some fun token => jump token inLoop .continueLoop
  | .«if» => some fun _ => ifStatement r inLoop
  | .while => some fun _ => whileStatement r
  | .«do» => some fun _ => doWhileStatement r
  | .«for» => some fun _ => forStatement r n
  | .var => some fun _ => do
    let declarators ← commaList (declarator r) n
    endStatement
    return .varList declarators
  | .function => some fun _ => do
    let (name, params, body) ← functionParts r true n
    return .declaration name params body
  | _ => none

/-- An expression that stands as a statement. -/
def expressionStatement (r : Rules) : Parser Node := do
  let node ← r.expression 0
  endStatement
  return node

/-- A statement, told by its first token. -/
def statementWith (r : Rules) (n : Nat) (inLoop : Bool) : Parser Node := do
  match ← peekKind .operand with
  | .punct .semicolon =>
    let _ ← advance .operand
    return .empty
  | .punct .leftBrace => return .block (← block r inLoop n)
  | .word w =>
    match wordStatement? r inLoop n w with
    | some rest => rest (← advance .operand)
    | none => expressionStatement r
  | _ => expressionStatement r

mutual

/-- An expression whose operators bind tighter than a power, at most `n` deep. -/
def expression : Nat → Nat → Parser Node
  | 0, _ => tooDeep
  | n + 1, min => expressionWith ⟨expression n, statement n⟩ n min

/-- A statement inside or outside of a loop, at most `n` deep. -/
def statement : Nat → Bool → Parser Node
  | 0, _ => tooDeep
  | n + 1, inLoop => statementWith ⟨expression n, statement n⟩ n inLoop

end

/-- The statements up to the end of the text, each at most `depth` deep. -/
def statements (depth : Nat) : Nat → Parser Program
  | 0 => tooDeep
  | n + 1 => do
    if ← check .eof .operand then return []
    else
      let first ← statement depth false
      return first :: (← statements depth n)

/-- One expression up to the end of the text. -/
def wholeExpression (depth : Nat) : Parser Node := do
  let node ← expression depth 0
  let _ ← expect .eof .operator
  return node

/-- A depth that no text of the given length exceeds. -/
def depthOf (source : List Char) : Nat := 2 * source.length + 2

/-- What a parser makes of a source. -/
def read {α : Type} (p : Parser α) (source : List Char) : Except Error α :=
  match p (Cursor.start source) with
  | .ok a _ => .ok a
  | .error e _ => .error e

end Scriptlet.Parser

namespace Scriptlet

/-- Reads a program. -/
def parse (source : String) : Except Error Program :=
  let depth := Parser.depthOf source.toList
  (Parser.statements depth depth).read source.toList

/-- Reads a text that is one expression. -/
def parseExpression (source : String) : Except Error Node :=
  (Parser.wholeExpression (Parser.depthOf source.toList)).read source.toList

end Scriptlet
