import Scriptlet.Proofs.Completeness

/-!
# Well-formed trees

`Node.Fits B place node`: the node can stand at a place of a tree. Operands are expressions, what is
assigned to is a name or a property, and jumps stand inside of loops. A function is opaque here: all
that is asked of its body is `B`, so that trees and the closures made from them are judged by the
same predicate. `Closed B` says that the statements of a body in `B` fit in turn.

The bodies that the parsers make are closed (`closed_parsed`), and all trees that they make fit
(`parse_fits`, `parseExpression_fits`).
-/

namespace Scriptlet

open Token

/-- Where a node stands. -/
inductive Place where
  | expression
  | statement (inLoop : Bool)

/-- The node can stand at a place, and the bodies of the functions in it satisfy `B`. -/
inductive Node.Fits (B : List Node → Prop) : Place → Node → Prop where
  | number {place : Place} {x : Float} : Fits B place (.number x)
  | boolean {place : Place} {b : Bool} : Fits B place (.boolean b)
  | string {place : Place} {s : String} : Fits B place (.string s)
  | regExp {place : Place} {pattern flags : String} : Fits B place (.regExp pattern flags)
  | null {place : Place} : Fits B place .null
  | identifier {place : Place} {name : String} : Fits B place (.identifier name)
  | unary {e : Node} {place : Place} {op : UnaryOp} : Fits B .expression e → Fits B place (.unary op e)
  | update {e : Node} {place : Place} {op : UpdateOp} :
      e.isTarget = true → Fits B .expression e → Fits B place (.update op e)
  | binary {e₁ e₂ : Node} {place : Place} {op : BinaryOp} :
      Fits B .expression e₁ → Fits B .expression e₂ → Fits B place (.binary op e₁ e₂)
  | property {e₁ e₂ : Node} {place : Place} :
      Fits B .expression e₁ → Fits B .expression e₂ → Fits B place (.property e₁ e₂)
  | assign {e₁ e₂ : Node} {place : Place} {op : AssignOp} :
      e₁.isTarget = true → Fits B .expression e₁ → Fits B .expression e₂ → Fits B place (.assign op e₁ e₂)
  | conditional {e₁ e₂ e₃ : Node} {place : Place} :
      Fits B .expression e₁ → Fits B .expression e₂ → Fits B .expression e₃ →
      Fits B place (.conditional e₁ e₂ e₃)
  | call {e : Node} {as : List Node} {place : Place} :
      Fits B .expression e → (∀ a ∈ as, Fits B .expression a) → Fits B place (.call e as)
  | function {body : List Node} {place : Place} {name : Option String} {params : List String} :
      B body → Fits B place (.function name params body)
  | declaration {body : List Node} {l : Bool} {name : Option String} {params : List String} :
      B body → Fits B (.statement l) (.declaration name params body)
  | block {ss : List Node} {l : Bool} :
      (∀ s ∈ ss, Fits B (.statement l) s) → Fits B (.statement l) (.block ss)
  | varList {ds : List (String × Option Node)} {l : Bool} :
      (∀ d ∈ ds, ∀ e ∈ d.2, Fits B .expression e) → Fits B (.statement l) (.varList ds)
  | returning {e : Option Node} {l : Bool} :
      (∀ x ∈ e, Fits B .expression x) → Fits B (.statement l) (.returning e)
  | branch {e s : Node} {l : Bool} {s' : Option Node} :
      Fits B .expression e → Fits B (.statement l) s → (∀ x ∈ s', Fits B (.statement l) x) →
      Fits B (.statement l) (.branch e s s')
  | whileLoop {e s : Node} {l : Bool} :
      Fits B .expression e → Fits B (.statement true) s → Fits B (.statement l) (.whileLoop e s)
  | doWhileLoop {e s : Node} {l : Bool} :
      Fits B .expression e → Fits B (.statement true) s → Fits B (.statement l) (.doWhileLoop e s)
  | forLoop {e₁ e₂ e₃ : Option Node} {s : Node} {l : Bool} :
      (∀ x ∈ e₁, Fits B (.statement false) x) → (∀ x ∈ e₂, Fits B .expression x) →
      (∀ x ∈ e₃, Fits B .expression x) → Fits B (.statement true) s →
      Fits B (.statement l) (.forLoop e₁ e₂ e₃ s)
  | breakLoop : Fits B (.statement true) .breakLoop
  | continueLoop : Fits B (.statement true) .continueLoop
  | empty {l : Bool} : Fits B (.statement l) .empty

/-- The statements of a body in `B` fit outside of a loop. -/
def Closed (B : List Node → Prop) : Prop :=
  ∀ body, B body → ∀ s ∈ body, s.Fits B (.statement false)

namespace Node

/-- The nodes right below a node. -/
def children : Node → List Node
  | .unary _ e | .update _ e => [e]
  | .binary _ e₁ e₂ | .property e₁ e₂ | .assign _ e₁ e₂ | .whileLoop e₁ e₂ | .doWhileLoop e₁ e₂ => [e₁, e₂]
  | .conditional e₁ e₂ e₃ => [e₁, e₂, e₃]
  | .call e as => e :: as
  | .function _ _ body | .declaration _ _ body => body
  | .block ss => ss
  | .varList ds => ds.filterMap Prod.snd
  | .returning e => e.toList
  | .branch e s s' => e :: s :: s'.toList
  | .forLoop e₁ e₂ e₃ s => e₁.toList ++ e₂.toList ++ e₃.toList ++ [s]
  | _ => []

/-- The node is a function with the given body. -/
def isFunction (body : List Node) : Node → Prop
  | .function _ _ b | .declaration _ _ b => b = body
  | _ => False

/-- The body of a function that occurs in a node at some depth. -/
inductive HasBody (body : List Node) : Node → Prop where
  | here {node : Node} : node.isFunction body → HasBody body node
  | inside {node child : Node} : child ∈ node.children → HasBody body child → HasBody body node

/-- What occurs in the body of a function occurs in the nodes around the function. -/
theorem HasBody.nested {body body' : List Node} {node s : Node} (h : node.HasBody body) (hs : s ∈ body)
    (h' : s.HasBody body') : node.HasBody body' := by
  induction h with
  | here hf =>
    refine .inside ?_ h'
    unfold isFunction at hf
    split at hf
    · exact hf ▸ hs
    · exact hf ▸ hs
    · exact hf.elim
  | inside hc _ ih => exact .inside hc ih

namespace Fits

variable {B B' : List Node → Prop} {place : Place} {node : Node} {body : List Node}

/-- An expression fits as a statement too. -/
theorem statement {inLoop : Bool} (h : node.Fits B .expression) : node.Fits B (.statement inLoop) := by
  cases h <;> constructor <;> assumption

theorem child {child : Node} (hB : Closed B) (h : node.Fits B place) (hc : child ∈ node.children) :
    ∃ place', child.Fits B place' := by
  cases h <;> simp only [children, List.mem_append, List.mem_cons, List.mem_filterMap,
    Option.mem_toList, Option.mem_def, List.not_mem_nil, or_false] at * <;> grind [Closed]

/-- The bodies in a node that fits satisfy the predicate, at every depth. -/
theorem hasBody (hB : Closed B) (h : node.Fits B place) (hb : node.HasBody body) : B body := by
  induction hb generalizing place with
  | here hf => cases h <;> simp_all [isFunction]
  | inside hc _ ih =>
    obtain ⟨place', hchild⟩ := h.child hB hc
    exact ih hchild

/-- To fit depends on the predicate only through the bodies that occur. -/
theorem rebase (h : node.Fits B place) (hb : ∀ body, node.HasBody body → B' body) :
    node.Fits B' place := by
  induction h with
  | function => exact .function (hb _ (.here rfl))
  | declaration => exact .declaration (hb _ (.here rfl))
  | _ =>
    have hsub := fun child (hc : child ∈ _) body hbody => hb body (.inside hc hbody)
    simp only [children, List.mem_append, List.mem_cons, List.mem_filterMap, Option.mem_toList,
      Option.mem_def, List.not_mem_nil, or_false] at *
    constructor <;> grind [= Option.mem_def]

end Fits

end Node

/-! ### The trees of phrases -/

/-- The expressions in an item fit. -/
def Item.Fits (B : List Node → Prop) : Item → Prop
  | .argument e => e.Fits B .expression
  | .param _ => True
  | .declarator d => ∀ e ∈ d.2, e.Fits B .expression

/-- What a phrase makes fits where the phrase stands, if what it was given does. -/
def Phrase.Fits (B : List Node → Prop) : Phrase → Prop
  | .expression _ e | .operand _ e | .condition e => e.Fits B .expression
  | .suffixes _ left e | .suffix _ left e => left.Fits B .expression → e.Fits B .expression
  | .item i => i.Fits B
  | .items is | .parenthesised is => ∀ i ∈ is, i.Fits B
  | .function _ _ _ body => B body
  | .block inLoop ss | .blockRest inLoop ss => ∀ s ∈ ss, s.Fits B (.statement inLoop)
  | .optional _ e | .returnValue e => ∀ x ∈ e, x.Fits B .expression
  | .forInit e => ∀ x ∈ e, x.Fits B (.statement false)
  | .ending | .loopEnding => True
  | .statement inLoop s | .opened inLoop _ s => s.Fits B (.statement inLoop)
  | .program ss => ∀ s ∈ ss, s.Fits B (.statement false)

/-- The statements of some block outside of a loop. -/
def Readable (body : List Node) : Prop := ∃ cs cs', Reads (.block false body) cs cs'

theorem Token.Kind.leaf?_fits {k : Kind} {e : Node} {B : List Node → Prop} {place : Place}
    (h : k.leaf? = some e) : e.Fits B place := by
  unfold Kind.leaf? at h
  split at h <;> cases h <;> constructor

theorem Reads.fits {p : Phrase} {cs cs' : List Char} (h : Reads p cs cs') : p.Fits Readable := by
  induction h with
  | expression _ _ _ iho ihs => exact ihs iho
  | leaf hk => exact Kind.leaf?_fits hk
  | group _ _ ih => exact ih
  | unary _ _ ih => exact .unary ih
  | updateBefore _ _ ht ih => exact .update ht ih
  | function _ ih => exact .function ih
  | stop => exact id
  | step _ _ _ _ ih₁ ih₂ => exact fun hl => ih₂ (ih₁ hl)
  | binary _ _ ih => exact fun hl => .binary hl ih
  | assign _ ht _ ih => exact fun hl => .assign ht hl ih
  | updateAfter _ ht => exact fun hl => .update ht hl
  | conditional _ _ _ ih₁ ih₂ => exact fun hl => .conditional hl ih₁ ih₂
  | dot => exact fun hl => .property hl .string
  | index _ _ ih => exact fun hl => .property hl ih
  | call _ ih => exact fun hl => .call hl fun a ha => ih (.argument a) (List.mem_map_of_mem ha)
  | argument _ ih => exact ih
  | param => trivial
  | declared => exact fun e he => by cases he
  | initialised _ _ _ ih => exact fun e he => by cases he; exact ih
  | single _ _ _ ih => exact List.forall_mem_singleton.2 ih
  | more _ _ _ ih₁ ih₂ => exact List.forall_mem_cons.2 ⟨ih₁, ih₂⟩
  | noItems => exact fun i hi => by cases hi
  | someItems _ _ _ _ ih => exact ih
  | named _ _ _ hbody | anonymous _ _ hbody => exact ⟨_, _, hbody⟩
  | block _ _ ih => exact ih
  | blockEnd => exact fun s hs => by cases hs
  | blockMore _ _ ih₁ ih₂ => exact List.forall_mem_cons.2 ⟨ih₁, ih₂⟩
  | condition _ _ _ ih => exact ih
  | absent => exact fun e he => by cases he
  | present _ _ _ ih => exact fun e he => by cases he; exact ih
  | forVar _ _ ih =>
    intro e he
    cases he
    exact .varList fun d hd => ih (.declarator d) (List.mem_map_of_mem hd)
  | forOther _ _ _ ih => exact fun e he => (ih e he).statement
  | semicolon | inserted | loopSemicolon | loopBare => trivial
  | expressionStatement _ _ _ _ ih => exact ih.statement
  | opened _ _ ih => exact ih
  | empty => exact .empty
  | blockStatement _ ih => exact .block ih
  | returnNothing => exact fun e he => by cases he
  | returnSome _ _ _ ih => exact fun e he => by cases he; exact ih
  | returning _ _ ih => exact .returning ih
  | breakLoop => exact .breakLoop
  | continueLoop => exact .continueLoop
  | branch _ _ _ _ ihe ihs => exact .branch ihe ihs fun s hs => by cases hs
  | branchElse _ _ _ _ ihe ihs ihs' => exact .branch ihe ihs fun s hs => by cases hs; exact ihs'
  | whileLoop _ _ ihe ihs => exact .whileLoop ihe ihs
  | doWhileLoop _ _ _ _ ihs ihe => exact .doWhileLoop ihe ihs
  | forLoop _ _ _ _ _ _ _ _ ih₁ ih₂ ih₃ ihs => exact .forLoop ih₁ ih₂ ih₃ ihs
  | varList _ _ ih => exact .varList fun d hd => ih (.declarator d) (List.mem_map_of_mem hd)
  | declaration _ ih => exact .declaration ih
  | programEnd => exact fun s hs => by cases hs
  | programMore _ _ ih₁ ih₂ => exact List.forall_mem_cons.2 ⟨ih₁, ih₂⟩

theorem closed_readable : Closed Readable := by
  rintro body ⟨cs, cs', h⟩
  exact h.fits

/-! ### The trees that the parsers make -/

/-- The body of a function in a text that the parsers can read. -/
def Parsed (body : List Node) : Prop :=
  (∃ source p, parse source = .ok p ∧ ∃ s ∈ p, s.HasBody body) ∨
    ∃ source e, parseExpression source = .ok e ∧ e.HasBody body

theorem Parsed.readable {body : List Node} (h : Parsed body) : Readable body := by
  rcases h with ⟨source, p, hp, s, hs, hb⟩ | ⟨source, e, he, hb⟩
  · obtain ⟨rest, hr⟩ := parse_eq_ok_iff.1 hp
    exact (hr.fits s hs).hasBody closed_readable hb
  · obtain ⟨_, _, _, hr, -⟩ := parseExpression_eq_ok_iff.1 he
    exact Node.Fits.hasBody closed_readable hr.fits hb

theorem Parsed.nested {body body' : List Node} {s : Node} (h : Parsed body) (hs : s ∈ body)
    (hb : s.HasBody body') : Parsed body' := by
  rcases h with ⟨source, p, hp, s', hs', h'⟩ | ⟨source, e, he, h'⟩
  · exact .inl ⟨source, p, hp, s', hs', h'.nested hs hb⟩
  · exact .inr ⟨source, e, he, h'.nested hs hb⟩

/-- The functions inside of a function that was read were read as well. -/
theorem closed_parsed : Closed Parsed := by
  intro body hbody s hs
  exact (closed_readable body hbody.readable s hs).rebase fun _ hb => hbody.nested hs hb

theorem parse_fits {source : String} {p : Program} (h : parse source = .ok p) :
    ∀ s ∈ p, s.Fits Parsed (.statement false) := by
  intro s hs
  obtain ⟨rest, hr⟩ := parse_eq_ok_iff.1 h
  exact (hr.fits s hs).rebase fun _ hb => .inl ⟨source, p, h, s, hs, hb⟩

theorem parseExpression_fits {source : String} {e : Node} (h : parseExpression source = .ok e) :
    e.Fits Parsed .expression := by
  obtain ⟨_, _, _, hr, -⟩ := parseExpression_eq_ok_iff.1 h
  exact Node.Fits.rebase hr.fits fun _ hb => .inr ⟨source, e, h, hb⟩

end Scriptlet
