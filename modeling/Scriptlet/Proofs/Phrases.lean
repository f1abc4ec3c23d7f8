import Scriptlet.Grammar.Rules
import Scriptlet.Proofs.Ahead

/-!
# The language as a relation

`Reads p cs cs'` says that the text `cs` starts with the phrase `p` and goes on with `cs'`. A phrase
is a rule of the grammar together with the tree that it makes. The rules know nothing of cursors,
remembered tokens, offsets or bounds on depth: they speak of texts and of the next token in them.

All phrases are one inductive relation, so a property of the language is proved by one induction with
one case for each rule. The parsers are sound and complete for it, see `Proofs/Soundness` and
`Proofs/Completeness`.
-/

namespace Scriptlet

open Token

namespace Token.Kind

/-- The tree of a token that is an operand by itself. -/
def leaf? : Kind → Option Node
  | .number x => some (.number x)
  | .string s => some (.string s)
  | .boolean b => some (.boolean b)
  | .null => some .null
  | .regExp pattern flags => some (.regExp pattern flags)
  | .identifier name => some (.identifier name)
  | _ => none

/-- Whether a token opens a statement that is no expression. -/
def opensStatement : Kind → Bool
  | .punct .semicolon | .punct .leftBrace => true
  | .word w =>
    match w with
    | .«return» | .«break» | .«continue» | .«if» | .while | .«do» | .«for» | .var | .function => true
    | _ => false
  | _ => false

/-- Whether a token goes on with an expression whose operators bind tighter than `min`. -/
def goesOn (min : Nat) (k : Kind) (lb : Bool) : Bool :=
  min < k.power && !(lb && k.updateAfter?.isSome)

/-- Whether a `return` before a token hands back nothing. -/
def endsReturn (k : Kind) (lb : Bool) : Bool :=
  lb || k = .punct .semicolon || Parser.endsStatement k

/-- Whether a token can start an operand. -/
def startsOperand (k : Kind) : Bool :=
  k.leaf?.isSome || k.unaryOp?.isSome || k.updateBefore?.isSome || k = .punct .leftParen ||
    k = .word .function

end Token.Kind

/-- A part of a list with commas between its parts. -/
inductive Item where
  | argument (e : Node)
  | param (name : String)
  | declarator (d : String × Option Node)

/-- A rule of the grammar with what it makes of a text. -/
inductive Phrase where
  /-- An expression whose operators bind tighter than `min`. -/
  | expression (min : Nat) (e : Node)
  /-- An operand, behind its first token. -/
  | operand (k : Kind) (e : Node)
  /-- The operators after the operand `left` that bind tighter than `min`. -/
  | suffixes (min : Nat) (left e : Node)
  /-- What follows an operator behind the operand `left`. -/
  | suffix (k : Kind) (left e : Node)
  | item (i : Item)
  /-- One or more items with commas between them. -/
  | items (is : List Item)
  /-- Items up to a closing parenthesis. -/
  | parenthesised (is : List Item)
  /-- A function behind the word that opens it. -/
  | function (declared : Bool) (name : Option String) (params : List String) (body : List Node)
  | block (inLoop : Bool) (ss : List Node)
  /-- Statements up to a closing brace. -/
  | blockRest (inLoop : Bool) (ss : List Node)
  /-- An expression in parentheses. -/
  | condition (e : Node)
  /-- An expression, unless the given token is ahead. -/
  | optional (stop : Kind) (e : Option Node)
  | forInit (e : Option Node)
  /-- What a `return` hands back. -/
  | returnValue (e : Option Node)
  /-- The end of a statement. -/
  | ending
  /-- The semicolon that may follow a loop tested at its end. -/
  | loopEnding
  | statement (inLoop : Bool) (s : Node)
  /-- A statement behind its first token. -/
  | opened (inLoop : Bool) (k : Kind) (s : Node)
  | program (ss : List Node)

/-- `Reads p cs cs'`: the text `cs` starts with the phrase `p`, and `cs'` is the text behind it. -/
inductive Reads : Phrase → List Char → List Char → Prop where
  | expression {cs cs₁ cs₂ cs₃ : List Char} {k : Kind} {lb : Bool} {left e : Node} {m : Nat} :
      Sees .operand cs k lb cs₁ → Reads (.operand k left) cs₁ cs₂ → Reads (.suffixes m left e) cs₂ cs₃ →
      Reads (.expression m e) cs cs₃
  | leaf {e : Node} {k : Kind} {cs : List Char} : k.leaf? = some e → Reads (.operand k e) cs cs
  | group {e : Node} {cs cs₁ cs₂ : List Char} {lb : Bool} :
      Reads (.expression 0 e) cs cs₁ → Sees .operator cs₁ (.punct .rightParen) lb cs₂ →
      Reads (.operand (.punct .leftParen) e) cs cs₂
  | unary {op : UnaryOp} {e : Node} {cs cs₁ : List Char} {k : Kind} :
      k.unaryOp? = some op → Reads (.expression Kind.unaryPower e) cs cs₁ →
      Reads (.operand k (.unary op e)) cs cs₁
  | updateBefore {op : UpdateOp} {e : Node} {cs cs₁ : List Char} {k : Kind} :
      k.updateBefore? = some op → Reads (.expression Kind.unaryPower e) cs cs₁ → e.isTarget = true →
      Reads (.operand k (.update op e)) cs cs₁
  | function {name : Option String} {params : List String} {body : List Node} {cs cs₁ : List Char} :
      Reads (.function false name params body) cs cs₁ →
      Reads (.operand (.word .function) (.function name params body)) cs cs₁
  | stop {cs rest : List Char} {k : Kind} {lb : Bool} {m : Nat} {e : Node} :
      Sees .operator cs k lb rest → k.goesOn m lb = false → Reads (.suffixes m e e) cs cs
  | step {cs cs₁ cs₂ cs₃ : List Char} {k : Kind} {lb : Bool} {m : Nat} {left mid e : Node} :
      Sees .operator cs k lb cs₁ → k.goesOn m lb = true → Reads (.suffix k left mid) cs₁ cs₂ →
      Reads (.suffixes m mid e) cs₂ cs₃ → Reads (.suffixes m left e) cs cs₃
  | binary {op : BinaryOp} {e left : Node} {cs cs₁ : List Char} {k : Kind} :
      k.binaryOp? = some op → Reads (.expression k.power e) cs cs₁ →
      Reads (.suffix k left (.binary op left e)) cs cs₁
  | assign {op : AssignOp} {e left : Node} {cs cs₁ : List Char} {k : Kind} :
      k.assignOp? = some op → left.isTarget = true → Reads (.expression Kind.commaPower e) cs cs₁ →
      Reads (.suffix k left (.assign op left e)) cs cs₁
  | updateAfter {op : UpdateOp} {k : Kind} {left : Node} {cs : List Char} :
      k.updateAfter? = some op → left.isTarget = true → Reads (.suffix k left (.update op left)) cs cs
  | conditional {e₁ e₂ left : Node} {cs cs₁ cs₂ cs₃ : List Char} {lb : Bool} :
      Reads (.expression Kind.commaPower e₁) cs cs₁ → Sees .operator cs₁ (.punct .colon) lb cs₂ →
      Reads (.expression Kind.commaPower e₂) cs₂ cs₃ →
      Reads (.suffix (.punct .question) left (.conditional left e₁ e₂)) cs cs₃
  | dot {cs cs₁ : List Char} {name : String} {lb : Bool} {left : Node} :
      Sees .operand cs (.identifier name) lb cs₁ →
      Reads (.suffix (.punct .dot) left (.property left (.string name))) cs cs₁
  | index {e left : Node} {cs cs₁ cs₂ : List Char} {lb : Bool} :
      Reads (.expression 0 e) cs cs₁ → Sees .operator cs₁ (.punct .rightBracket) lb cs₂ →
      Reads (.suffix (.punct .leftBracket) left (.property left e)) cs cs₂
  | call {cs cs₁ : List Char} {left : Node} {es : List Node} :
      Reads (.parenthesised (es.map .argument)) cs cs₁ →
      Reads (.suffix (.punct .leftParen) left (.call left es)) cs cs₁
  | argument {e : Node} {cs cs₁ : List Char} :
      Reads (.expression Kind.commaPower e) cs cs₁ → Reads (.item (.argument e)) cs cs₁
  | param {cs cs₁ : List Char} {name : String} {lb : Bool} :
      Sees .operand cs (.identifier name) lb cs₁ → Reads (.item (.param name)) cs cs₁
  | declared {cs cs₁ rest : List Char} {name : String} {lb lb' : Bool} {k : Kind} :
      Sees .operand cs (.identifier name) lb cs₁ → Sees .operator cs₁ k lb' rest → k ≠ .punct .equal →
      Reads (.item (.declarator (name, none))) cs cs₁
  | initialised {cs cs₁ cs₂ cs₃ : List Char} {name : String} {lb lb' : Bool} {e : Node} :
      Sees .operand cs (.identifier name) lb cs₁ → Sees .operator cs₁ (.punct .equal) lb' cs₂ →
      Reads (.expression Kind.commaPower e) cs₂ cs₃ → Reads (.item (.declarator (name, some e))) cs cs₃
  | single {i : Item} {cs cs₁ rest : List Char} {k : Kind} {lb : Bool} :
      Reads (.item i) cs cs₁ → Sees .operator cs₁ k lb rest → k ≠ .punct .comma → Reads (.items [i]) cs cs₁
  | more {i : Item} {cs cs₁ cs₂ cs₃ : List Char} {lb : Bool} {is : List Item} :
      Reads (.item i) cs cs₁ → Sees .operator cs₁ (.punct .comma) lb cs₂ → Reads (.items is) cs₂ cs₃ →
      Reads (.items (i :: is)) cs cs₃
  | noItems {cs cs₁ : List Char} {lb : Bool} :
      Sees .operand cs (.punct .rightParen) lb cs₁ → Reads (.parenthesised []) cs cs₁
  | someItems {cs rest cs₁ cs₂ : List Char} {k : Kind} {lb lb' : Bool} {is : List Item} :
      Sees .operand cs k lb rest → k ≠ .punct .rightParen → Reads (.items is) cs cs₁ →
      Sees .operator cs₁ (.punct .rightParen) lb' cs₂ → Reads (.parenthesised is) cs cs₂
  | named {cs cs₁ cs₂ cs₃ cs₄ : List Char} {name : String} {lb lb' declared : Bool} {body : List Node}
      {params : List String} :
      Sees .operand cs (.identifier name) lb cs₁ → Sees .operand cs₁ (.punct .leftParen) lb' cs₂ →
      Reads (.parenthesised (params.map .param)) cs₂ cs₃ → Reads (.block false body) cs₃ cs₄ →
      Reads (.function declared (some name) params body) cs cs₄
  | anonymous {cs cs₁ cs₂ cs₃ : List Char} {lb : Bool} {body : List Node} {params : List String} :
      Sees .operand cs (.punct .leftParen) lb cs₁ → Reads (.parenthesised (params.map .param)) cs₁ cs₂ →
      Reads (.block false body) cs₂ cs₃ → Reads (.function false none params body) cs cs₃
  | block {cs cs₁ cs₂ : List Char} {lb inLoop : Bool} {ss : List Node} :
      Sees .operand cs (.punct .leftBrace) lb cs₁ → Reads (.blockRest inLoop ss) cs₁ cs₂ →
      Reads (.block inLoop ss) cs cs₂
  | blockEnd {cs cs₁ : List Char} {lb inLoop : Bool} :
      Sees .operand cs (.punct .rightBrace) lb cs₁ → Reads (.blockRest inLoop []) cs cs₁
  | blockMore {inLoop : Bool} {s : Node} {cs cs₁ cs₂ : List Char} {ss : List Node} :
      Reads (.statement inLoop s) cs cs₁ → Reads (.blockRest inLoop ss) cs₁ cs₂ →
      Reads (.blockRest inLoop (s :: ss)) cs cs₂
  | condition {cs cs₁ cs₂ cs₃ : List Char} {lb lb' : Bool} {e : Node} :
      Sees .operand cs (.punct .leftParen) lb cs₁ → Reads (.expression 0 e) cs₁ cs₂ →
      Sees .operator cs₂ (.punct .rightParen) lb' cs₃ → Reads (.condition e) cs cs₃
  | absent {cs rest : List Char} {k : Kind} {lb : Bool} :
      Sees .operand cs k lb rest → Reads (.optional k none) cs cs
  | present {cs rest cs₁ : List Char} {k k₀ : Kind} {lb : Bool} {e : Node} :
      Sees .operand cs k lb rest → k ≠ k₀ → Reads (.expression 0 e) cs cs₁ →
      Reads (.optional k₀ (some e)) cs cs₁
  | forVar {cs cs₁ cs₂ : List Char} {lb : Bool} {ds : List (String × Option Node)} :
      Sees .operand cs (.word .var) lb cs₁ → Reads (.items (ds.map .declarator)) cs₁ cs₂ →
      Reads (.forInit (some (.varList ds))) cs cs₂
  | forOther {cs rest cs₁ : List Char} {k : Kind} {lb : Bool} {e : Option Node} :
      Sees .operand cs k lb rest → k ≠ .word .var → Reads (.optional (.punct .semicolon) e) cs cs₁ →
      Reads (.forInit e) cs cs₁
  | semicolon {cs cs₁ : List Char} {lb : Bool} :
      Sees .operator cs (.punct .semicolon) lb cs₁ → Reads .ending cs cs₁
  | inserted {cs rest : List Char} {k : Kind} {lb : Bool} :
      Sees .operator cs k lb rest → k ≠ .punct .semicolon → (lb || Parser.endsStatement k) = true →
      Reads .ending cs cs
  | loopSemicolon {cs cs₁ : List Char} {lb : Bool} :
      Sees .operator cs (.punct .semicolon) lb cs₁ → Reads .loopEnding cs cs₁
  | loopBare {cs rest : List Char} {k : Kind} {lb : Bool} :
      Sees .operator cs k lb rest → k ≠ .punct .semicolon → Reads .loopEnding cs cs
  | expressionStatement {cs rest cs₁ cs₂ : List Char} {k : Kind} {lb inLoop : Bool} {e : Node} :
      Sees .operand cs k lb rest → k.opensStatement = false → Reads (.expression 0 e) cs cs₁ →
      Reads .ending cs₁ cs₂ → Reads (.statement inLoop e) cs cs₂
  | opened {cs cs₁ cs₂ : List Char} {k : Kind} {lb inLoop : Bool} {s : Node} :
      Sees .operand cs k lb cs₁ → Reads (.opened inLoop k s) cs₁ cs₂ → Reads (.statement inLoop s) cs cs₂
  | empty {inLoop : Bool} {cs : List Char} : Reads (.opened inLoop (.punct .semicolon) .empty) cs cs
  | blockStatement {inLoop : Bool} {ss : List Node} {cs cs₁ : List Char} :
      Reads (.blockRest inLoop ss) cs cs₁ → Reads (.opened inLoop (.punct .leftBrace) (.block ss)) cs cs₁
  | returnNothing {cs rest : List Char} {k : Kind} {lb : Bool} :
      Sees .operand cs k lb rest → k.endsReturn lb = true → Reads (.returnValue none) cs cs
  | returnSome {cs rest cs₁ : List Char} {k : Kind} {lb : Bool} {e : Node} :
      Sees .operand cs k lb rest → k.endsReturn lb = false → Reads (.expression 0 e) cs cs₁ →
      Reads (.returnValue (some e)) cs cs₁
  | returning {e : Option Node} {cs cs₁ cs₂ : List Char} {inLoop : Bool} :
      Reads (.returnValue e) cs cs₁ → Reads .ending cs₁ cs₂ →
      Reads (.opened inLoop (.word .«return») (.returning e)) cs cs₂
  | breakLoop {cs cs₁ : List Char} :
      Reads .ending cs cs₁ → Reads (.opened true (.word .«break») .breakLoop) cs cs₁
  | continueLoop {cs cs₁ : List Char} :
      Reads .ending cs cs₁ → Reads (.opened true (.word .«continue») .continueLoop) cs cs₁
  | branch {e s : Node} {cs cs₁ cs₂ rest : List Char} {inLoop lb : Bool} {k : Kind} :
      Reads (.condition e) cs cs₁ → Reads (.statement inLoop s) cs₁ cs₂ → Sees .operand cs₂ k lb rest →
      k ≠ .word .«else» → Reads (.opened inLoop (.word .«if») (.branch e s none)) cs cs₂
  | branchElse {e s s' : Node} {cs cs₁ cs₂ cs₃ cs₄ : List Char} {inLoop lb : Bool} :
      Reads (.condition e) cs cs₁ → Reads (.statement inLoop s) cs₁ cs₂ →
      Sees .operand cs₂ (.word .«else») lb cs₃ → Reads (.statement inLoop s') cs₃ cs₄ →
      Reads (.opened inLoop (.word .«if») (.branch e s (some s'))) cs cs₄
  | whileLoop {e s : Node} {cs cs₁ cs₂ : List Char} {inLoop : Bool} :
      Reads (.condition e) cs cs₁ → Reads (.statement true s) cs₁ cs₂ →
      Reads (.opened inLoop (.word .while) (.whileLoop e s)) cs cs₂
  | doWhileLoop {s e : Node} {cs cs₁ cs₂ cs₃ cs₄ : List Char} {lb inLoop : Bool} :
      Reads (.statement true s) cs cs₁ → Sees .operand cs₁ (.word .while) lb cs₂ →
      Reads (.condition e) cs₂ cs₃ → Reads .loopEnding cs₃ cs₄ →
      Reads (.opened inLoop (.word .«do») (.doWhileLoop e s)) cs cs₄
  | forLoop {cs cs₁ cs₂ cs₃ cs₄ cs₅ cs₆ cs₇ cs₈ : List Char} {lb lb₂ lb₄ lb₆ inLoop : Bool}
      {e₁ e₂ e₃ : Option Node} {s : Node} :
      Sees .operand cs (.punct .leftParen) lb cs₁ → Reads (.forInit e₁) cs₁ cs₂ →
      Sees .operator cs₂ (.punct .semicolon) lb₂ cs₃ → Reads (.optional (.punct .semicolon) e₂) cs₃ cs₄ →
      Sees .operator cs₄ (.punct .semicolon) lb₄ cs₅ → Reads (.optional (.punct .rightParen) e₃) cs₅ cs₆ →
      Sees .operator cs₆ (.punct .rightParen) lb₆ cs₇ → Reads (.statement true s) cs₇ cs₈ →
      Reads (.opened inLoop (.word .«for») (.forLoop e₁ e₂ e₃ s)) cs cs₈
  | varList {cs cs₁ cs₂ : List Char} {inLoop : Bool} {ds : List (String × Option Node)} :
      Reads (.items (ds.map .declarator)) cs cs₁ → Reads .ending cs₁ cs₂ →
      Reads (.opened inLoop (.word .var) (.varList ds)) cs cs₂
  | declaration {name : Option String} {params : List String} {body : List Node} {cs cs₁ : List Char}
      {inLoop : Bool} :
      Reads (.function true name params body) cs cs₁ →
      Reads (.opened inLoop (.word .function) (.declaration name params body)) cs cs₁
  | programEnd {cs rest : List Char} {lb : Bool} : Sees .operand cs .eof lb rest → Reads (.program []) cs cs
  | programMore {s : Node} {cs cs₁ cs₂ : List Char} {ss : List Node} :
      Reads (.statement false s) cs cs₁ → Reads (.program ss) cs₁ cs₂ → Reads (.program (s :: ss)) cs cs₂

/-- The number of characters that a phrase takes at least. -/
def Phrase.weight : Phrase → Nat
  | .expression .. | .item _ | .items _ | .parenthesised _ | .function .. | .block .. | .blockRest ..
  | .condition _ | .statement .. => 1
  | _ => 0

namespace Reads

variable {cs cs' : List Char} {k : Kind} {inLoop : Bool}

theorem operand_starts {e : Node} (h : Reads (.operand k e) cs cs') : k.startsOperand = true := by
  cases h with
  | leaf h => simp [Kind.startsOperand, h]
  | group => rfl
  | unary h => simp [Kind.startsOperand, h]
  | updateBefore h => simp [Kind.startsOperand, h]
  | function => rfl

theorem opened_opens {s : Node} (h : Reads (.opened inLoop k s) cs cs') : k.opensStatement = true := by
  cases h <;> rfl

/-- A statement starts with a token that starts an operand or opens a statement. -/
theorem statement_starts {s : Node} (h : Reads (.statement inLoop s) cs cs') :
    ∃ k lb rest, Sees .operand cs k lb rest ∧ (k.startsOperand || k.opensStatement) = true := by
  cases h with
  | expressionStatement _ _ he =>
    cases he with
    | expression hs ho => exact ⟨_, _, _, hs, by simp [ho.operand_starts]⟩
  | opened hs ho => exact ⟨_, _, _, hs, by simp [ho.opened_opens]⟩

theorem expression_starts {m : Nat} {e : Node} (h : Reads (.expression m e) cs cs') :
    ∃ k lb rest, Sees .operand cs k lb rest ∧ k.startsOperand = true := by
  cases h with
  | expression hs ho => exact ⟨_, _, _, hs, ho.operand_starts⟩

theorem blockRest_starts {ss : List Node} (h : Reads (.blockRest inLoop ss) cs cs') :
    ∃ k lb rest, Sees .operand cs k lb rest ∧ k ≠ .eof ∧ k ≠ .word .«else» := by
  cases h with
  | blockEnd hs => exact ⟨_, _, _, hs, Kind.noConfusion, Kind.noConfusion⟩
  | blockMore hs =>
    obtain ⟨k, lb, rest, hsees, hk⟩ := hs.statement_starts
    refine ⟨k, lb, rest, hsees, ?_, ?_⟩
    all_goals
      rintro rfl
      cases hk

theorem program_starts {ss : List Node} (h : Reads (.program ss) cs cs') :
    ∃ k lb rest, Sees .operand cs k lb rest ∧ k ≠ .word .«else» := by
  cases h with
  | programEnd hs => exact ⟨_, _, _, hs, Kind.noConfusion⟩
  | programMore hs =>
    obtain ⟨k, lb, rest, hsees, hk⟩ := hs.statement_starts
    refine ⟨k, lb, rest, hsees, ?_⟩
    rintro rfl
    cases hk

/-- The text behind a phrase is no longer than the text that starts with it, and shorter for all
phrases that take a token. -/
theorem length_le {p : Phrase} (h : Reads p cs cs') : cs'.length + p.weight ≤ cs.length := by
  induction h with
  | expression hs ho _ iho ihs =>
    have := hs.rest_length_lt fun h => by cases h ▸ ho.operand_starts
    simp only [Phrase.weight] at *
    omega
  | opened hs ho iho =>
    have := hs.rest_length_lt fun h => by cases h ▸ ho.opened_opens
    simp only [Phrase.weight] at *
    omega
  | _ =>
    simp only [Phrase.weight] at *
    grind [→ Sees.rest_length_lt, → Sees.rest_length_le]

end Reads

end Scriptlet
