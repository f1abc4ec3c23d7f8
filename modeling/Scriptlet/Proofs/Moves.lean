import Mathlib
import Scriptlet.Grammar.Rules

/-!
# How parsers move their cursors

All that a parser does to its cursor is to look at the token ahead and to take the token that it has seen
(`Cursor.Step`), and all errors that it raises come from a look that fails, from the token ahead or from a
token that was taken before (`Cursor.Raises`). `Parser.Walks` says so for the whole run of a parser, one
lemma for each rule of the grammar; what holds of cursors along all runs then is a property of single steps.
-/

namespace Scriptlet

open Token

namespace Cursor

/-- One step of a parser. -/
inductive Step : Cursor → Cursor → Prop where
  | look {c : Cursor} {mode : Mode} {l : Lookahead} : c.lookAhead mode = .ok l →
      Step c { c with ahead := some l }
  | take {c : Cursor} {l : Lookahead} : c.ahead = some l →
      Step c ⟨l.token.stop, l.rest, none, l :: c.consumed⟩

abbrev Moves : Cursor → Cursor → Prop := Relation.ReflTransGen Step

/-- The errors that can arise at a cursor. -/
inductive Raises (c : Cursor) : Error → Prop where
  | invalid {mode : Mode} {e : Error} : c.lookAhead mode = .error e → Raises c e
  | ahead {l : Lookahead} {expected : Expected} : c.ahead = some l →
      Raises c (.unexpected l.token.kind l.token.start expected)
  | taken {l : Lookahead} {expected : Expected} : l ∈ c.consumed →
      Raises c (.unexpected l.token.kind l.token.start expected)
  | tooDeep : Raises c (.internal .depth)

/-- The token was taken on the way to the cursor. -/
def Took (c : Cursor) (token : Token) : Prop := ∃ l ∈ c.consumed, l.token = token

theorem Step.consumed_suffix {c c' : Cursor} (h : Step c c') : c.consumed <:+ c'.consumed := by
  cases h with
  | look => exact List.suffix_refl _
  | take => exact List.suffix_cons _ _

theorem Moves.consumed_suffix {c c' : Cursor} (h : c.Moves c') : c.consumed <:+ c'.consumed := by
  induction h with
  | refl => exact List.suffix_refl _
  | tail _ hstep ih => exact ih.trans hstep.consumed_suffix

theorem Took.moves {c c' : Cursor} {token : Token} (ht : c.Took token) (h : c.Moves c') : c'.Took token := by
  obtain ⟨l, hl, rfl⟩ := ht
  exact ⟨l, h.consumed_suffix.subset hl, rfl⟩

theorem Took.raises {c : Cursor} {token : Token} {expected : Expected} (ht : c.Took token) :
    c.Raises (.unexpected token.kind token.start expected) := by
  obtain ⟨l, hl, rfl⟩ := ht
  exact .taken hl

end Cursor

namespace Parser

variable {α β : Type} {c : Cursor} {mode : Mode} {kind : Kind}

/-- The parser moves the cursor `c`, and ends with a result that satisfies `Q` or raises an error of the
place that it got to. -/
def Runs (p : Parser α) (c : Cursor) (Q : α → Cursor → Prop) : Prop :=
  match p c with
  | .ok a c' => c.Moves c' ∧ Q a c'
  | .error e c' => c.Moves c' ∧ c'.Raises e

/-- The parser moves every cursor so, whatever its result is. -/
def Walks (p : Parser α) : Prop := ∀ c, p.Runs c fun _ _ => True

namespace Runs

variable {p : Parser α} {f : α → Parser β} {Q : α → Cursor → Prop} {R : β → Cursor → Prop}

theorem bind (hp : p.Runs c Q) (hf : ∀ a c', c.Moves c' → Q a c' → (f a).Runs c' R) :
    (p >>= f).Runs c R := by
  unfold Runs at hp ⊢
  show match EStateM.bind p f c with
    | .ok a c' => _
    | .error e c' => _
  unfold EStateM.bind
  cases h : p c with
  | error e c' => rw [h] at hp; exact hp
  | ok a c₁ =>
    rw [h] at hp
    have hf := hf a c₁ hp.1 hp.2
    unfold Runs at hf
    revert hf
    simp only
    cases f a c₁ with
    | ok b c₂ => exact fun hf => ⟨hp.1.trans hf.1, hf.2⟩
    | error e c₂ => exact fun hf => ⟨hp.1.trans hf.1, hf.2⟩

theorem pure {a : α} (h : Q a c) : (pure a : Parser α).Runs c Q := ⟨.refl, h⟩

theorem throw {e : Error} (h : c.Raises e) : (throw e : Parser α).Runs c Q := ⟨.refl, h⟩

end Runs

namespace Walks

variable {p : Parser α} {f : α → Parser β}

theorem bind (hp : p.Walks) (hf : ∀ a, (f a).Walks) : (p >>= f).Walks :=
  fun c => (hp c).bind fun a c' _ _ => hf a c'

theorem pure {a : α} : (pure a : Parser α).Walks := fun _ => .pure trivial

theorem map {g : α → β} (hp : p.Walks) : (g <$> p).Walks := by
  rw [map_eq_pure_bind]
  exact hp.bind fun _ => .pure

end Walks

theorem peek_runs (mode : Mode) (c : Cursor) : (peek mode).Runs c fun l c' => c'.ahead = some l := by
  unfold Runs
  cases hr : c.remembers mode with
  | true =>
    obtain ⟨l, hl, hm⟩ := Cursor.remembers_iff.1 hr
    rw [peek_of_ahead hl hm]
    exact ⟨.refl, hl⟩
  | false =>
    rw [peek_of_not_remembers hr]
    cases hl : c.lookAhead mode with
    | ok l => exact ⟨.single (.look hl), rfl⟩
    | error e => exact ⟨.refl, .invalid hl⟩

theorem peek_walks (mode : Mode) : (peek mode).Walks := fun c => by
  rw [← bind_pure (peek mode)]
  exact (peek_runs mode c).bind fun _ _ _ _ => .pure trivial

theorem peekKind_walks (mode : Mode) : (peekKind mode).Walks := (peek_walks mode).bind fun _ => .pure

theorem advance_runs (mode : Mode) (c : Cursor) : (advance mode).Runs c fun token c' => c'.Took token := by
  rw [advance_eq]
  exact (peek_runs mode c).bind fun l _ _ hl => ⟨.single (.take hl), l, List.mem_cons_self, rfl⟩

theorem advance_walks (mode : Mode) : (advance mode).Walks := fun c => by
  rw [← bind_pure (advance mode)]
  exact (advance_runs mode c).bind fun _ _ _ _ => .pure trivial

theorem check_walks (kind : Kind) (mode : Mode) : (check kind mode).Walks :=
  (peekKind_walks mode).bind fun _ => .pure

theorem eat_walks (kind : Kind) (mode : Mode) : (eat kind mode).Walks := by
  refine (check_walks kind mode).bind fun b => ?_
  split
  · exact (advance_walks mode).bind fun _ => .pure
  · exact .pure

theorem unexpected_walks (mode : Mode) (expected : Expected) : (unexpected mode expected : Parser α).Walks :=
  fun c => (peek_runs mode c).bind fun _ _ _ hl => .throw (.ahead hl)

theorem expect_walks (kind : Kind) (mode : Mode) : (expect kind mode).Walks := by
  refine (check_walks kind mode).bind fun b => ?_
  split
  · exact advance_walks mode
  · exact unexpected_walks mode _

theorem expectName_walks : expectName.Walks := by
  refine fun c => (advance_runs .operand c).bind fun token c' _ ht => ?_
  split
  · exact .pure trivial
  · exact .throw ht.raises

theorem endStatement_walks : endStatement.Walks := by
  refine (peek_walks .operator).bind fun l => ?_
  split
  · exact (advance_walks .operator).bind fun _ => .pure
  split
  · exact .pure
  · exact unexpected_walks .operator _

theorem tooDeep_walks : (tooDeep : Parser α).Walks := fun _ => .throw .tooDeep

theorem target_runs {token : Token} {node : Node} (ht : c.Took token) :
    (target token node).Runs c fun _ _ => True := by
  unfold target
  split
  · exact .pure trivial
  · exact .throw ht.raises

theorem commaList_walks {part : Parser α} (hp : part.Walks) (n : Nat) : (commaList part n).Walks := by
  induction n with
  | zero => exact tooDeep_walks
  | succ n ih =>
    refine hp.bind fun a => (eat_walks _ _).bind fun b => ?_
    split
    · exact ih.bind fun _ => .pure
    · exact .pure

theorem parenthesised_walks {part : Parser α} (hp : part.Walks) (n : Nat) : (parenthesised part n).Walks := by
  refine (eat_walks _ _).bind fun b => ?_
  split
  · exact .pure
  · exact (commaList_walks hp n).bind fun _ => (expect_walks _ _).bind fun _ => .pure

/-! ### Rules -/

/-- The parsers for the parts of a rule walk. -/
structure Rules.Walk (r : Rules) : Prop where
  expression : ∀ min, (r.expression min).Walks
  statement : ∀ inLoop, (r.statement inLoop).Walks

section Rules

variable {r : Rules} (hr : r.Walk)
include hr

theorem blockRest_walks (inLoop : Bool) (n : Nat) : (blockRest r inLoop n).Walks := by
  induction n with
  | zero => exact tooDeep_walks
  | succ n ih =>
    refine (peekKind_walks .operand).bind fun k => ?_
    split
    · exact (advance_walks .operand).bind fun _ => .pure
    · exact unexpected_walks .operand _
    · exact (hr.statement inLoop).bind fun _ => ih.bind fun _ => .pure

theorem block_walks (inLoop : Bool) (n : Nat) : (block r inLoop n).Walks :=
  (expect_walks _ _).bind fun _ => blockRest_walks hr inLoop n

theorem functionRest_walks (n : Nat) (name : Option String) : (functionRest r n name).Walks :=
  (expect_walks _ _).bind fun _ => (parenthesised_walks expectName_walks n).bind fun _ =>
    (block_walks hr false n).bind fun _ => .pure

omit hr in
theorem isNamed_walks (declared : Bool) : (isNamed declared).Walks := by
  unfold isNamed
  split
  · exact .pure
  · exact (check_walks _ _).map

theorem functionParts_walks (declared : Bool) (n : Nat) : (functionParts r declared n).Walks := by
  refine (isNamed_walks declared).bind fun named => ?_
  split
  · exact expectName_walks.bind fun name => functionRest_walks hr n (some name)
  · exact functionRest_walks hr n none

theorem operand_runs (n : Nat) {token : Token} (ht : c.Took token) :
    (operand r n token).Runs c fun _ _ => True := by
  unfold operand
  split
  · refine (hr.expression Kind.unaryPower c).bind fun e c' hm _ => ?_
    exact (target_runs (ht.moves hm)).bind fun _ _ _ _ => .pure trivial
  split
  iterate 6 exact .pure trivial
  · exact (hr.expression 0).bind (fun _ => (expect_walks _ _).bind fun _ => .pure) c
  · exact (functionParts_walks hr false n).bind (fun _ => .pure) c
  · split
    · exact (hr.expression _).bind (fun _ => .pure) c
    · exact .throw ht.raises

theorem suffixed_runs (n : Nat) {token : Token} {left : Node} (ht : c.Took token) :
    (suffixed r n token left).Runs c fun _ _ => True := by
  unfold suffixed
  split
  · exact (hr.expression _).bind (fun _ => .pure) c
  split
  · exact (target_runs ht).bind fun _ c' _ _ => (hr.expression _).bind (fun _ => .pure) c'
  split
  · exact (target_runs ht).bind fun _ _ _ _ => .pure trivial
  split
  · refine (hr.expression _).bind (fun _ => (expect_walks _ _).bind fun _ => ?_) c
    exact (hr.expression _).bind fun _ => .pure
  · exact expectName_walks.bind (fun _ => .pure) c
  · exact (hr.expression 0).bind (fun _ => (expect_walks _ _).bind fun _ => .pure) c
  · exact (parenthesised_walks (hr.expression _) n).bind (fun _ => .pure) c
  · exact .throw ht.raises

theorem suffixes_walks (min n : Nat) (left : Node) : (suffixes r min n left).Walks := by
  induction n generalizing left with
  | zero => exact tooDeep_walks
  | succ n ih =>
    refine (peek_walks .operator).bind fun l => ?_
    split
    · refine fun c => (advance_runs .operator c).bind fun token c₁ _ ht => ?_
      exact (suffixed_runs hr n ht).bind fun mid c₂ _ _ => ih mid c₂
    · exact .pure

theorem expressionWith_walks (n min : Nat) : (expressionWith r n min).Walks := by
  refine fun c => (advance_runs .operand c).bind fun token c₁ _ ht => ?_
  exact (operand_runs hr n ht).bind fun left c₂ _ _ => suffixes_walks hr min n left c₂

theorem condition_walks : (condition r).Walks :=
  (expect_walks _ _).bind fun _ => (hr.expression 0).bind fun _ => (expect_walks _ _).bind fun _ => .pure

theorem declarator_walks : (declarator r).Walks := by
  refine expectName_walks.bind fun name => (eat_walks _ _).bind fun b => ?_
  split
  · exact (hr.expression _).bind fun _ => .pure
  · exact .pure

theorem optional_walks (kind : Kind) : (optional r kind).Walks := by
  refine (check_walks kind .operand).bind fun b => ?_
  split
  · exact .pure
  · exact (hr.expression 0).bind fun _ => .pure

theorem returnValue_walks : (returnValue r).Walks := by
  refine (peek_walks .operand).bind fun l => ?_
  split
  · exact .pure
  · exact (hr.expression 0).bind fun _ => .pure

theorem returnStatement_walks : (returnStatement r).Walks :=
  (returnValue_walks hr).bind fun _ => endStatement_walks.bind fun _ => .pure

omit hr in
theorem jump_runs {token : Token} {inLoop : Bool} {node : Node} (ht : c.Took token) :
    (jump token inLoop node).Runs c fun _ _ => True := by
  unfold jump
  split
  · exact endStatement_walks.bind (fun _ => .pure) c
  · exact .throw ht.raises

theorem ifStatement_walks (inLoop : Bool) : (ifStatement r inLoop).Walks := by
  refine (condition_walks hr).bind fun _ => (hr.statement inLoop).bind fun _ => (eat_walks _ _).bind fun b => ?_
  split
  · exact (hr.statement inLoop).bind fun _ => .pure
  · exact .pure

theorem whileStatement_walks : (whileStatement r).Walks :=
  (condition_walks hr).bind fun _ => (hr.statement true).bind fun _ => .pure

theorem doWhileStatement_walks : (doWhileStatement r).Walks :=
  (hr.statement true).bind fun _ => (expect_walks _ _).bind fun _ => (condition_walks hr).bind fun _ =>
    (eat_walks _ _).bind fun _ => .pure

theorem forInit_walks (n : Nat) : (forInit r n).Walks := by
  refine (eat_walks _ _).bind fun b => ?_
  split
  · exact (commaList_walks (declarator_walks hr) n).bind fun _ => .pure
  · exact optional_walks hr _

theorem forStatement_walks (n : Nat) : (forStatement r n).Walks :=
  (expect_walks _ _).bind fun _ => (forInit_walks hr n).bind fun _ =>
    (expect_walks _ _).bind fun _ => (optional_walks hr _).bind fun _ =>
    (expect_walks _ _).bind fun _ => (optional_walks hr _).bind fun _ =>
    (expect_walks _ _).bind fun _ => (hr.statement true).bind fun _ => .pure

theorem wordStatement_runs {inLoop : Bool} {n : Nat} {w : Word} {rest : Token → Parser Node} {token : Token}
    (hw : wordStatement? r inLoop n w = some rest) (ht : c.Took token) :
    (rest token).Runs c fun _ _ => True := by
  cases w <;> simp only [wordStatement?, Option.some.injEq, reduceCtorEq] at hw <;> subst hw
  case «return» => exact returnStatement_walks hr c
  case «break» => exact jump_runs ht
  case «continue» => exact jump_runs ht
  case «if» => exact ifStatement_walks hr inLoop c
  case «while» => exact whileStatement_walks hr c
  case «do» => exact doWhileStatement_walks hr c
  case «for» => exact forStatement_walks hr n c
  case var =>
    refine (commaList_walks (declarator_walks hr) n).bind (fun _ => ?_) c
    exact endStatement_walks.bind fun _ => .pure
  case function => exact (functionParts_walks hr true n).bind (fun _ => .pure) c

theorem expressionStatement_walks : (expressionStatement r).Walks :=
  (hr.expression 0).bind fun _ => endStatement_walks.bind fun _ => .pure

theorem statementWith_walks (n : Nat) (inLoop : Bool) : (statementWith r n inLoop).Walks := by
  refine (peekKind_walks .operand).bind fun k => ?_
  split
  · exact (advance_walks .operand).bind fun _ => .pure
  · exact (block_walks hr inLoop n).bind fun _ => .pure
  · split
    next rest hw => exact fun c => (advance_runs .operand c).bind fun _ _ _ ht => wordStatement_runs hr hw ht
    · exact expressionStatement_walks hr
  · exact expressionStatement_walks hr

end Rules

theorem rules_walk (n : Nat) : Rules.Walk ⟨expression n, statement n⟩ := by
  induction n with
  | zero => exact ⟨fun _ => tooDeep_walks, fun _ => tooDeep_walks⟩
  | succ n ih => exact ⟨expressionWith_walks ih n, statementWith_walks ih n⟩

theorem statements_walks (depth n : Nat) : (statements depth n).Walks := by
  induction n with
  | zero => exact tooDeep_walks
  | succ n ih =>
    refine (check_walks _ _).bind fun b => ?_
    split
    · exact .pure
    · exact ((rules_walk depth).statement false).bind fun _ => ih.bind fun _ => .pure

theorem wholeExpression_walks (depth : Nat) : (wholeExpression depth).Walks :=
  ((rules_walk depth).expression 0).bind fun _ => (expect_walks _ _).bind fun _ => .pure

theorem Walks.moves {p : Parser α} {a : α} {c' : Cursor} (hp : p.Walks) (h : p c = .ok a c') : c.Moves c' := by
  have hrun := hp c
  unfold Runs at hrun
  rw [h] at hrun
  exact hrun.1

/-- A source fails with an error of some place that can be reached in it. -/
theorem Walks.read_error {p : Parser α} {source : List Char} {e : Error} (hp : p.Walks)
    (h : p.read source = .error e) : ∃ c, (Cursor.start source).Moves c ∧ c.Raises e := by
  have hrun := hp (Cursor.start source)
  unfold Runs at hrun
  unfold Parser.read at h
  split at h
  · cases h
  next e' c' hc =>
    cases h
    rw [hc] at hrun
    exact ⟨c', hrun⟩

end Parser

end Scriptlet
