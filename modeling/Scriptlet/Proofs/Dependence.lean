import Scriptlet.Proofs.Progress

/-!
# What a run of a parser depends on

From a cursor `c`, a rule enters the rules of its parts, and a loop its next round, only at cursors that have moved
on from `c`. This is said by what a run depends on: two runs agree at `c` if what they enter agrees beyond `c`
(`Parser.AgreeBeyond`), whatever it does elsewhere. The one exception is a statement that is an expression, which
enters the rule for expressions before it takes a token; an expression takes one at once.

Each loop is cut into its rounds, parsers over the parser `again` of the next rounds. What one round depends on
gives by induction what a loop depends on; here the bounds of the loops may differ too, as long as both are large
enough for the text (`Suffice`).
-/

namespace Scriptlet

open Text Token

/-- The cursor `c'` is reached from `c` and has moved on. -/
def Cursor.Advances (c c' : Cursor) : Prop := c.Moves c' ∧ c.offset < c'.offset

namespace Cursor.Advances

variable {c c₁ c' : Cursor}

theorem moves (hc : c.Coherent) (h : c.Advances c₁) (hm : c₁.Moves c') : c.Advances c' :=
  ⟨h.1.trans hm, h.2.trans_le (hm.onward (h.1.coherent hc)).offset_le⟩

theorem of_moves (hc : c.Coherent) (hm : c.Moves c₁) (h : c₁.Advances c') : c.Advances c' :=
  ⟨hm.trans h.1, (hm.onward hc).offset_le.trans_lt h.2⟩

theorem length_lt (hc : c.Coherent) (h : c.Advances c') : c'.rest.length < c.rest.length :=
  (h.1.onward hc).lt_iff.1 h.2

end Cursor.Advances

namespace Parser

variable {α β : Type} {c c' c₀ : Cursor}

/-! ### Parsers that agree -/

/-- The parsers do the same from the cursor. -/
def AgreeAt (c : Cursor) (p p' : Parser α) : Prop := p c = p' c

/-- The parsers do the same from all cursors that have moved on from `c`. -/
def AgreeBeyond (c : Cursor) (p p' : Parser α) : Prop := ∀ c', c.Advances c' → AgreeAt c' p p'

theorem AgreeAt.bind {p p' : Parser α} {f f' : α → Parser β} (hp : AgreeAt c p p')
    (hf : ∀ a c', p c = .ok a c' → AgreeAt c' (f a) (f' a)) : AgreeAt c (p >>= f) (p' >>= f') := by
  change EStateM.bind p f c = EStateM.bind p' f' c
  unfold EStateM.bind
  rw [← show p c = p' c from hp]
  cases h : p c with
  | ok a c' => exact hf a c' h
  | error e c' => rfl

namespace AgreeBeyond

theorem refl (p : Parser α) : AgreeBeyond c p p := fun _ _ => rfl

theorem advances {p p' : Parser α} (hc : c.Coherent) (h : AgreeBeyond c p p') (hm : c.Moves c') :
    AgreeBeyond c' p p' :=
  fun c₁ h₁ => h c₁ (.of_moves hc hm h₁)

theorem bind {p p' : Parser α} {f f' : α → Parser β} (hc : c.Coherent) (hw : p.Walks)
    (hp : AgreeBeyond c p p') (hf : ∀ a, AgreeBeyond c (f a) (f' a)) : AgreeBeyond c (p >>= f) (p' >>= f') :=
  fun c₁ h₁ => (hp c₁ h₁).bind fun a c₂ h₂ => hf a c₂ (h₁.moves hc (hw.moves h₂))

theorem behind {p : Parser α} {f f' : α → Parser β} (hc : c.Coherent) (hw : p.Walks)
    (hf : ∀ a, AgreeBeyond c (f a) (f' a)) : AgreeBeyond c (p >>= f) (p >>= f') :=
  .bind hc hw (.refl p) hf

end AgreeBeyond

/-- Two bounds that are the same, or both large enough for the text behind the cursor. -/
def Suffice (c : Cursor) (n n' : Nat) : Prop := n = n' ∨ c.rest.length ≤ n ∧ c.rest.length ≤ n'

namespace Suffice

variable {n n' : Nat}

theorem zero (hc : c₀.Coherent) (hn : Suffice c₀ 0 n') (h : c₀.Advances c) : n' = 0 := by
  have := h.length_lt hc
  unfold Suffice at hn
  omega

theorem succ (hc : c₀.Coherent) (hn : Suffice c₀ (n + 1) n') (h : c₀.Advances c) :
    ∃ m, n' = m + 1 ∧ Suffice c n m := by
  have := h.length_lt hc
  unfold Suffice at hn ⊢
  exact ⟨n' - 1, by omega, by omega⟩

end Suffice

/-- The parsers for the parts of a rule agree beyond the cursor. -/
structure Rules.AgreeBeyond (c : Cursor) (r r' : Rules) : Prop where
  expression : ∀ min, Parser.AgreeBeyond c (r.expression min) (r'.expression min)
  statement : ∀ inLoop, Parser.AgreeBeyond c (r.statement inLoop) (r'.statement inLoop)

/-! ### Rounds of loops -/

/-- One part of a list, and the rest of it behind a comma. -/
def commaRound (part : Parser α) (again : Parser (List α)) : Parser (List α) := do
  let first ← part
  if ← eat (.punct .comma) .operator then return first :: (← again)
  else return [first]

/-- One statement of a block and the rest of it, or its closing brace. -/
def blockRound (r : Rules) (inLoop : Bool) (again : Parser (List Node)) : Parser (List Node) := do
  match ← peekKind .operand with
  | .punct .rightBrace =>
    let _ ← advance .operand
    return []
  | .eof => unexpected .operand (.kind (.punct .rightBrace))
  | _ =>
    let first ← r.statement inLoop
    return first :: (← again)

/-- One operator behind an operand and the ones behind it, if there is one that binds tighter than `min`. -/
def suffixRound (r : Rules) (min n : Nat) (again : Node → Parser Node) (left : Node) : Parser Node := do
  if continues min (← peek .operator) then
    let token ← advance .operator
    again (← suffixed r n token left)
  else return left

/-- The end of the text, or one statement of a program and the rest of it. -/
def programRound (first : Parser Node) (again : Parser Program) : Parser Program := do
  if ← check .eof .operand then return []
  else
    let s ← first
    return s :: (← again)

theorem commaRound_agree {part part' : Parser α} {again again' : Parser (List α)} (hc : c.Coherent)
    (hw : part.Walks) (hpart : AgreeAt c part part') (h : AgreeBeyond c again again') :
    AgreeAt c (commaRound part again) (commaRound part' again') := by
  refine hpart.bind fun a c₁ h₁ => AgreeAt.bind rfl fun b c₂ h₂ => ?_
  have hm₁ := hw.moves h₁
  cases b with
  | false => rfl
  | true =>
    -- the comma was taken, so the next round is beyond
    have hlt := eat_true_lt (by decide) (hm₁.coherent hc) h₂
    have hadv := Cursor.Advances.of_moves hc hm₁ ⟨(eat_walks _ _).moves h₂, hlt⟩
    exact (h c₂ hadv).bind fun _ _ _ => rfl

/-- Behind a statement the next round is beyond, since the statement was not empty. -/
theorem statementThen_agree {first first' : Parser Node} {again again' : Parser (List Node)} (hc : c.Coherent)
    (hw : first.Walks) (hs : first.Consumes) (hm : c.Moves c') (hfirst : AgreeAt c' first first')
    (h : AgreeBeyond c again again') :
    AgreeAt c' (do let s ← first; return s :: (← again)) (do let s ← first'; return s :: (← again')) := by
  refine hfirst.bind fun s c₁ h₁ => ?_
  have hlt := hs c' (hm.coherent hc) s c₁ h₁
  exact (h c₁ (.of_moves hc hm ⟨hw.moves h₁, hlt⟩)).bind fun _ _ _ => rfl

theorem blockRound_agree {r r' : Rules} {inLoop : Bool} {again again' : Parser (List Node)} (hc : c.Coherent)
    (hw : (r.statement inLoop).Walks) (hs : (r.statement inLoop).Consumes)
    (hr : ∀ c', c.Moves c' → AgreeAt c' (r.statement inLoop) (r'.statement inLoop))
    (h : AgreeBeyond c again again') :
    AgreeAt c (blockRound r inLoop again) (blockRound r' inLoop again') := by
  refine AgreeAt.bind rfl fun k c₁ h₁ => ?_
  have hm := (peekKind_walks _).moves h₁
  split
  · rfl
  · rfl
  · exact statementThen_agree hc hw hs hm (hr c₁ hm) h

theorem programRound_agree {first first' : Parser Node} {again again' : Parser Program} (hc : c.Coherent)
    (hw : first.Walks) (hs : first.Consumes) (hfirst : ∀ c', c.Moves c' → AgreeAt c' first first')
    (h : AgreeBeyond c again again') :
    AgreeAt c (programRound first again) (programRound first' again') := by
  refine AgreeAt.bind rfl fun b c₁ h₁ => ?_
  have hm := (check_walks _ _).moves h₁
  cases b with
  | true => rfl
  | false => exact statementThen_agree hc hw hs hm (hfirst c₁ hm) h

/-! ### Rules -/

/-- The parsers for the parts of a rule agree beyond a coherent cursor, and those of `r` move on. -/
structure Rules.Alike (c : Cursor) (r r' : Rules) : Prop extends Rules.AgreeBeyond c r r' where
  coherent : c.Coherent
  walk : r.Walk
  consumes : ∀ inLoop, (r.statement inLoop).Consumes

namespace Rules.Alike

variable {r r' : Rules} {f f' : Node → Parser β}

theorem advances (h : Rules.Alike c r r') (hm : c.Moves c') : Rules.Alike c' r r' where
  expression min := (h.expression min).advances h.coherent hm
  statement inLoop := (h.statement inLoop).advances h.coherent hm
  coherent := hm.coherent h.coherent
  walk := h.walk
  consumes := h.consumes

theorem expression_bind (h : Rules.Alike c r r') {min : Nat} (hf : ∀ e, Parser.AgreeBeyond c (f e) (f' e)) :
    Parser.AgreeBeyond c (r.expression min >>= f) (r'.expression min >>= f') :=
  .bind h.coherent (h.walk.expression min) (h.expression min) hf

theorem statement_bind (h : Rules.Alike c r r') {inLoop : Bool} (hf : ∀ s, Parser.AgreeBeyond c (f s) (f' s)) :
    Parser.AgreeBeyond c (r.statement inLoop >>= f) (r'.statement inLoop >>= f') :=
  .bind h.coherent (h.walk.statement inLoop) (h.statement inLoop) hf

end Rules.Alike

theorem commaList_agree {part part' : Parser α} {n n' : Nat} (hc : c.Coherent) (hw : part.Walks)
    (hpart : AgreeBeyond c part part') (hn : Suffice c n n') :
    AgreeBeyond c (commaList part n) (commaList part' n') := by
  induction n generalizing c n' with
  | zero => intro c₁ h₁; rw [hn.zero hc h₁]; rfl
  | succ n ih =>
    intro c₁ h₁
    obtain ⟨n', rfl, hn₁⟩ := hn.succ hc h₁
    have hc₁ := h₁.1.coherent hc
    exact commaRound_agree hc₁ hw (hpart c₁ h₁) (ih hc₁ (hpart.advances hc h₁.1) hn₁)

theorem parenthesised_agree {part part' : Parser α} {n n' : Nat} (hc : c.Coherent) (hw : part.Walks)
    (hpart : AgreeBeyond c part part') (hn : Suffice c n n') :
    AgreeBeyond c (parenthesised part n) (parenthesised part' n') := by
  refine .behind hc (eat_walks _ _) fun b => ?_
  cases b with
  | true => exact .refl _
  | false => exact .bind hc (commaList_walks hw n) (commaList_agree hc hw hpart hn) fun _ => .refl _

section Rules

variable {r r' : Rules} {n n' : Nat} (h : Rules.Alike c r r')
include h

theorem blockRest_agree (inLoop : Bool) (hn : Suffice c n n') :
    AgreeBeyond c (blockRest r inLoop n) (blockRest r' inLoop n') := by
  induction n generalizing c n' with
  | zero => intro c₁ h₁; rw [hn.zero h.coherent h₁]; rfl
  | succ n ih =>
    intro c₁ h₁
    obtain ⟨n', rfl, hn₁⟩ := hn.succ h.coherent h₁
    have h' := h.advances h₁.1
    refine blockRound_agree h'.coherent (h.walk.statement _) (h.consumes _) (fun c₂ hm => ?_) (ih h' hn₁)
    exact h.statement inLoop c₂ (h₁.moves h.coherent hm)

/-- A block takes its brace before it enters a statement. -/
theorem block_agree (inLoop : Bool) (hn : Suffice c n n') (hm : c.Moves c') :
    AgreeAt c' (block r inLoop n) (block r' inLoop n') := by
  refine AgreeAt.bind rfl fun token c₁ h₁ => blockRest_agree h inLoop hn c₁ (.of_moves h.coherent hm ?_)
  exact ⟨(expect_walks _ _).moves h₁, expect_consumes _ (by decide) c' (hm.coherent h.coherent) token c₁ h₁⟩

theorem functionRest_agree (name : Option String) (hn : Suffice c n n') :
    AgreeBeyond c (functionRest r n name) (functionRest r' n' name) := by
  refine .behind h.coherent (expect_walks _ _) fun _ => ?_
  refine .bind h.coherent (parenthesised_walks expectName_walks n) ?_ fun params => ?_
  · exact parenthesised_agree h.coherent expectName_walks (.refl _) hn
  · refine .bind h.coherent (block_walks h.walk false n) (fun c₁ h₁ => ?_) fun _ => .refl _
    exact block_agree h false hn h₁.1

theorem functionParts_agree (declared : Bool) (hn : Suffice c n n') :
    AgreeBeyond c (functionParts r declared n) (functionParts r' declared n') := by
  refine .behind h.coherent (isNamed_walks declared) fun named => ?_
  cases named with
  | true => exact .behind h.coherent expectName_walks fun name => functionRest_agree h (some name) hn
  | false => exact functionRest_agree h none hn

theorem operand_agree (token : Token) (hn : Suffice c n n') :
    AgreeBeyond c (operand r n token) (operand r' n' token) := by
  unfold operand
  generalize token.kind = k
  cases k.updateBefore? with
  | some op => exact h.expression_bind fun _ => .refl _
  | none =>
    simp only
    split
    iterate 6 exact .refl _
    · exact h.expression_bind fun _ => .refl _
    · exact .bind h.coherent (functionParts_walks h.walk false n) (functionParts_agree h false hn)
        fun _ => .refl _
    · cases k.unaryOp? with
      | some op => exact h.expression_bind fun _ => .refl _
      | none => exact .refl _

theorem suffixed_agree (token : Token) (left : Node) (hn : Suffice c n n') :
    AgreeBeyond c (suffixed r n token left) (suffixed r' n' token left) := by
  unfold suffixed target
  generalize token.kind = k
  cases k.binaryOp? with
  | some op => exact h.expression_bind fun _ => .refl _
  | none =>
  simp only
  cases k.assignOp? with
  | some op =>
    -- the operand on the left is looked at before the right side is read
    cases left.isTarget with
    | true => exact h.expression_bind fun _ => .refl _
    | false => exact .refl _
  | none =>
  simp only
  cases k.updateAfter? with
  | some op => exact .refl _
  | none =>
  simp only
  split
  · refine h.expression_bind fun _ => .behind h.coherent (expect_walks _ _) fun _ => ?_
    exact h.expression_bind fun _ => .refl _
  · exact .refl _
  · exact h.expression_bind fun _ => .refl _
  · refine .bind h.coherent (parenthesised_walks (h.walk.expression _) n) ?_ fun _ => .refl _
    exact parenthesised_agree h.coherent (h.walk.expression _) (h.expression _) hn
  · exact .refl _

/-- A round takes the operator before it enters an expression or the next round. -/
theorem suffixRound_agree {min : Nat} {again again' : Node → Parser Node} (left : Node) (hn : Suffice c n n')
    (hagain : ∀ left, AgreeBeyond c (again left) (again' left)) :
    AgreeAt c (suffixRound r min n again left) (suffixRound r' min n' again' left) := by
  refine AgreeAt.bind rfl fun l c₁ h₁ => ?_
  have hm₁ := (peek_walks _).moves h₁
  obtain ⟨hl, rfl⟩ := peek_ok h.coherent h₁
  split
  next hgo =>
    refine AgreeAt.bind rfl fun token c₂ h₂ => ?_
    obtain ⟨hm₂, ht⟩ := (advance_runs _ _).moves h₂
    have hadv : c.Advances c₂ := ⟨hm₁.trans hm₂, advance_seen_lt hl (ne_eof_of_continues hgo) h₂⟩
    refine (suffixed_agree h token left hn c₂ hadv).bind fun e c₃ h₃ => ?_
    exact hagain e c₃ (hadv.moves h.coherent ((suffixed_runs h.walk n ht).moves h₃).1)
  · rfl

theorem suffixes_agree (min : Nat) (left : Node) (hn : Suffice c n n') :
    AgreeBeyond c (suffixes r min n left) (suffixes r' min n' left) := by
  induction n generalizing c n' left with
  | zero => intro c₁ h₁; rw [hn.zero h.coherent h₁]; rfl
  | succ n ih =>
    intro c₁ h₁
    obtain ⟨n', rfl, hn₁⟩ := hn.succ h.coherent h₁
    have h' := h.advances h₁.1
    exact suffixRound_agree h' left hn₁ fun left => ih h' left hn₁

/-- An expression takes its first token before it enters anything. -/
theorem expressionWith_agree (min : Nat) (hn : Suffice c n n') :
    AgreeAt c (expressionWith r n min) (expressionWith r' n' min) := by
  refine AgreeAt.bind rfl fun token c₁ h₁ => ?_
  obtain ⟨hm, ht⟩ := (advance_runs _ _).moves h₁
  obtain ⟨l, hl, rfl, hc₁⟩ := advance_ok h.coherent h₁
  by_cases hk : l.token.kind = .eof
  · rw [operand_of_eof hk, operand_of_eof hk]
    rfl
  · have hadv : c.Advances c₁ := ⟨hm, hc₁ ▸ Cursor.offset_lt_of_lookAhead hl hk⟩
    refine (operand_agree h l.token hn c₁ hadv).bind fun left c₂ h₂ => ?_
    exact suffixes_agree h min left hn c₂ (hadv.moves h.coherent ((operand_runs h.walk n ht).moves h₂).1)

theorem condition_agree : AgreeBeyond c (condition r) (condition r') :=
  .behind h.coherent (expect_walks _ _) fun _ => h.expression_bind fun _ => .refl _

theorem declarator_agree : AgreeBeyond c (declarator r) (declarator r') := by
  refine .behind h.coherent expectName_walks fun name => ?_
  refine .behind h.coherent (eat_walks _ _) fun b => ?_
  cases b with
  | true => exact h.expression_bind fun _ => .refl _
  | false => exact .refl _

theorem declarators_bind {f f' : List (String × Option Node) → Parser β} (hn : Suffice c n n')
    (hf : ∀ ds, AgreeBeyond c (f ds) (f' ds)) :
    AgreeBeyond c (commaList (declarator r) n >>= f) (commaList (declarator r') n' >>= f') := by
  have hw := declarator_walks h.walk
  exact .bind h.coherent (commaList_walks hw n) (commaList_agree h.coherent hw (declarator_agree h) hn) hf

theorem optional_agree (kind : Kind) : AgreeBeyond c (optional r kind) (optional r' kind) := by
  refine .behind h.coherent (check_walks _ _) fun b => ?_
  cases b with
  | true => exact .refl _
  | false => exact h.expression_bind fun _ => .refl _

theorem returnValue_agree : AgreeBeyond c (returnValue r) (returnValue r') := by
  refine .behind h.coherent (peek_walks _) fun l => ?_
  split
  · exact .refl _
  · exact h.expression_bind fun _ => .refl _

theorem returnStatement_agree : AgreeBeyond c (returnStatement r) (returnStatement r') :=
  .bind h.coherent (returnValue_walks h.walk) (returnValue_agree h) fun _ => .refl _

theorem ifStatement_agree (inLoop : Bool) : AgreeBeyond c (ifStatement r inLoop) (ifStatement r' inLoop) := by
  refine .bind h.coherent (condition_walks h.walk) (condition_agree h) fun test => ?_
  refine h.statement_bind fun consequent => .behind h.coherent (eat_walks _ _) fun b => ?_
  cases b with
  | true => exact h.statement_bind fun _ => .refl _
  | false => exact .refl _

theorem whileStatement_agree : AgreeBeyond c (whileStatement r) (whileStatement r') :=
  .bind h.coherent (condition_walks h.walk) (condition_agree h) fun _ => h.statement_bind fun _ => .refl _

theorem doWhileStatement_agree : AgreeBeyond c (doWhileStatement r) (doWhileStatement r') :=
  h.statement_bind fun _ =>
    .behind h.coherent (expect_walks _ _) fun _ =>
      .bind h.coherent (condition_walks h.walk) (condition_agree h) fun _ => .refl _

theorem forInit_agree (hn : Suffice c n n') : AgreeBeyond c (forInit r n) (forInit r' n') := by
  refine .behind h.coherent (eat_walks _ _) fun b => ?_
  cases b with
  | true => exact declarators_bind h hn fun _ => .refl _
  | false => exact optional_agree h _

theorem forStatement_agree (hn : Suffice c n n') : AgreeBeyond c (forStatement r n) (forStatement r' n') := by
  refine .behind h.coherent (expect_walks _ _) fun _ => ?_
  refine .bind h.coherent (forInit_walks h.walk n) (forInit_agree h hn) fun init => ?_
  refine .behind h.coherent (expect_walks _ _) fun _ => ?_
  refine .bind h.coherent (optional_walks h.walk _) (optional_agree h _) fun test => ?_
  refine .behind h.coherent (expect_walks _ _) fun _ => ?_
  refine .bind h.coherent (optional_walks h.walk _) (optional_agree h _) fun update => ?_
  exact .behind h.coherent (expect_walks _ _) fun _ => h.statement_bind fun _ => .refl _

/-- The rules behind the words agree, and the same words open a statement. -/
theorem wordStatement?_agree (inLoop : Bool) (w : Word) (hn : Suffice c n n') :
    wordStatement? r inLoop n w = none ∧ wordStatement? r' inLoop n' w = none ∨
      ∃ rest rest', wordStatement? r inLoop n w = some rest ∧ wordStatement? r' inLoop n' w = some rest' ∧
        ∀ token, AgreeBeyond c (rest token) (rest' token) := by
  cases w
  case «return» => exact .inr ⟨_, _, rfl, rfl, fun _ => returnStatement_agree h⟩
  case «break» | «continue» => exact .inr ⟨_, _, rfl, rfl, fun _ => .refl _⟩
  case «if» => exact .inr ⟨_, _, rfl, rfl, fun _ => ifStatement_agree h inLoop⟩
  case «while» => exact .inr ⟨_, _, rfl, rfl, fun _ => whileStatement_agree h⟩
  case «do» => exact .inr ⟨_, _, rfl, rfl, fun _ => doWhileStatement_agree h⟩
  case «for» => exact .inr ⟨_, _, rfl, rfl, fun _ => forStatement_agree h hn⟩
  case var =>
    exact .inr ⟨_, _, rfl, rfl, fun _ => declarators_bind h hn fun _ => .refl _⟩
  case function =>
    refine .inr ⟨_, _, rfl, rfl, fun _ => ?_⟩
    exact .bind h.coherent (functionParts_walks h.walk true n) (functionParts_agree h true hn) fun _ => .refl _
  all_goals exact .inl ⟨rfl, rfl⟩

/-- A statement takes its first token before it enters anything, unless it enters an expression at once. -/
theorem statementWith_agree (inLoop : Bool) (hn : Suffice c n n')
    (he : ∀ c', c.Moves c' → c'.offset = c.offset → AgreeAt c' (r.expression 0) (r'.expression 0)) :
    AgreeAt c (statementWith r n inLoop) (statementWith r' n' inLoop) := by
  refine AgreeAt.bind rfl fun k c₁ h₁ => ?_
  have hm₁ := (peekKind_walks _).moves h₁
  obtain ⟨l, c₂, hp, hk⟩ := bind_ok h₁
  obtain ⟨hl, rfl⟩ := peek_ok h.coherent hp
  cases hk
  have hexpression : AgreeAt _ (expressionStatement r) (expressionStatement r') :=
    (he _ hm₁ rfl).bind fun _ _ _ => rfl
  split
  · rfl
  · exact (block_agree h inLoop hn hm₁).bind fun _ _ _ => rfl
  next w hk =>
    rcases wordStatement?_agree h inLoop w hn with ⟨hw, hw'⟩ | ⟨rest, rest', hw, hw', hrest⟩
    · rw [hw, hw']
      exact hexpression
    · rw [hw, hw']
      refine AgreeAt.bind rfl fun token c₂ h₂ => hrest token c₂ ?_
      exact ⟨hm₁.trans ((advance_walks _).moves h₂), advance_seen_lt hl (by simp [hk]) h₂⟩
  · exact hexpression

end Rules

end Parser

end Scriptlet
