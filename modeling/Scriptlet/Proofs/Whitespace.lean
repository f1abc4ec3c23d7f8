import Scriptlet.Proofs.Mirrors
import Scriptlet.Proofs.Places

/-!
# Blanks between tokens do not change what is read

Blanks may be written into a program behind every token that its parser takes. Each rule of the grammar reads
the text with blanks in it as it reads the source, given that the rules of its parts do (`Insertion.Mirror`).
Only two rules mind a line end that was not there before: an update after its operand and the value of a
`return` have to stand on the line of the token before them, and there no line end may be written.

An expression starts with a token that is taken where an operand is expected and needs nothing to be known of
what follows it. A statement may end with a look for an `else`, so it needs to know that no slash follows; what
follows a statement is another one, a brace or the end, and these show it.
-/

namespace Scriptlet

open Text Token Scriptlet.Parser

namespace Insertion

variable {α β : Type} {i : Insertion} {c c' : Cursor} {n n' : Nat}

theorem tooDeep_mirrors {A : Outlook} {B : α → Outlook} {p' : Parser α} : i.Mirrors A B tooDeep p' :=
  fun _ => .never fun _ _ h => by cases h

theorem target_mirrors {B : Node → Outlook} {node : Node} {token token' : Token} :
    i.Mirrors ⊤ B (target token node) (target token' node) := by
  intro c
  unfold target
  split
  · exact .pure le_top
  · exact .never fun _ _ h => by cases h

theorem commaList_mirrors {part part' : Parser α} (hp : ∀ B, i.Mirrors (i.Takes .operand) B part part')
    (hn : n ≤ n') (B : List α → Outlook) :
    i.Mirrors (i.Takes .operand) B (commaList part n) (commaList part' n') := by
  induction n generalizing n' B with
  | zero => exact tooDeep_mirrors
  | succ n ih =>
    obtain ⟨n', rfl⟩ : ∃ m, n' = m + 1 := ⟨n' - 1, by omega⟩
    refine fun c => (hp _ c).bind fun a c₁ => (eatOperator_mirrors Kind.noConfusion c₁).bind fun b c₂ => ?_
    cases b with
    | true => exact ((ih (Nat.le_of_succ_le_succ hn) _ c₂).mono le_top).bind fun _ _ => .pure le_rfl
    | false => exact .pure le_top

theorem parenthesised_mirrors {part part' : Parser α} (hp : ∀ B, i.Mirrors (i.Takes .operand) B part part')
    (hn : n ≤ n') (B : List α → Outlook) :
    i.Mirrors ⊤ B (parenthesised part n) (parenthesised part' n') := by
  refine fun c => ((eatOperand_mirrors Kind.noConfusion c).mono le_top).bind fun b c₁ => ?_
  cases b with
  | true => exact .pure le_top
  | false =>
    exact ((commaList_mirrors hp hn _ c₁).mono takes_le_clear).bind fun as c₂ =>
      expect_bind Kind.noConfusion fun _ => .pure le_top

/-! ### Rules -/

/-- The parsers for the parts of a rule mirror each other. A statement may end with a look at the token behind
it, so what follows has to show that this is no slash. -/
structure Mirror (i : Insertion) (r r' : Rules) : Prop where
  expression : ∀ min B, i.Mirrors (i.Takes .operand) B (r.expression min) (r'.expression min)
  statement : ∀ inLoop, i.Mirrors i.Clear (fun _ => i.Clear) (r.statement inLoop) (r'.statement inLoop)

section Rules

variable {r r' : Rules} (hr : i.Mirror r r')
include hr

theorem blockRest_mirrors (inLoop : Bool) (hn : n ≤ n') (B : List Node → Outlook) :
    i.Mirrors i.Clear B (blockRest r inLoop n) (blockRest r' inLoop n') := by
  induction n generalizing n' B with
  | zero => exact tooDeep_mirrors
  | succ n ih =>
    obtain ⟨n', rfl⟩ : ∃ m, n' = m + 1 := ⟨n' - 1, by omega⟩
    refine fun c => peekKind_bind fun k lb rest c₁ hs => ?_
    split
    · exact .mono takes_le_clear (advance_bind_of_sees hs Kind.noConfusion fun _ _ _ _ _ _ => .pure le_top)
    · exact .never fun _ _ => unexpected_ne_ok
    · exact (hr.statement inLoop c₁).bind fun _ c₂ =>
        (ih (Nat.le_of_succ_le_succ hn) _ c₂).bind fun _ _ => .pure le_rfl

theorem block_mirrors (inLoop : Bool) (hn : n ≤ n') (B : List Node → Outlook) :
    i.Mirrors (i.Takes .operand) B (block r inLoop n) (block r' inLoop n') :=
  fun _ => expect_bind Kind.noConfusion fun c₁ => (blockRest_mirrors hr inLoop hn B c₁).mono le_top

theorem functionRest_mirrors (hn : n ≤ n') (name : Option String)
    (B : Option String × List String × List Node → Outlook) :
    i.Mirrors (i.Takes .operand) B (functionRest r n name) (functionRest r' n' name) :=
  fun _ => expect_bind Kind.noConfusion fun c₁ =>
    (parenthesised_mirrors expectName_mirrors hn _ c₁).bind fun _ c₂ =>
    (block_mirrors hr false hn _ c₂).bind fun _ _ => .pure le_rfl

omit hr in
theorem isNamed_mirrors (declared : Bool) :
    i.Mirrors ⊤ (fun named => bif named then i.Clear else ⊤) (isNamed declared) (isNamed declared) := by
  intro c
  unfold isNamed
  split
  · exact .pure le_top
  · rw [map_eq_pure_bind]
    refine .mono le_top ((check_mirrors (fun _ _ => Kind.noConfusion) c).bind fun b c₁ => .pure ?_)
    cases b <;> exact le_rfl

theorem functionParts_mirrors (declared : Bool) (hn : n ≤ n')
    (B : Option String × List String × List Node → Outlook) :
    i.Mirrors ⊤ B (functionParts r declared n) (functionParts r' declared n') := by
  refine fun c => (isNamed_mirrors declared c).bind fun named c₁ => ?_
  cases named with
  | true =>
    exact .mono takes_le_clear ((expectName_mirrors _ c₁).bind fun name c₂ =>
      functionRest_mirrors hr hn (some name) B c₂)
  | false => exact (functionRest_mirrors hr hn none B c₁).mono le_top

theorem operand_mirrors (hn : n ≤ n') {token token' : Token} (hk : token'.kind = token.kind)
    (B : Node → Outlook) : i.Mirrors ⊤ B (operand r n token) (operand r' n' token') := by
  intro c
  have he : ∀ min B, i.MirrorsAt ⊤ B (r.expression min) (r'.expression min) c :=
    fun min B => (hr.expression min B c).mono le_top
  unfold operand
  rw [hk]
  generalize token.kind = k
  cases k.updateBefore? with
  | some op =>
    exact (he _ _).bind fun _ c₁ => (target_mirrors c₁).bind fun _ _ => .pure le_rfl
  | none =>
    simp only
    split
    iterate 6 exact .pure le_top
    · exact (he _ _).bind fun _ c₁ => expect_bind Kind.noConfusion fun _ => .pure le_top
    · exact (functionParts_mirrors hr false hn _ c).bind fun _ _ => .pure le_rfl
    · cases k.unaryOp? with
      | some op => exact (he _ _).bind fun _ _ => .pure le_rfl
      | none => exact .never fun _ _ h => by cases h

theorem suffixed_mirrors (hn : n ≤ n') {token token' : Token} (hk : token'.kind = token.kind) (left : Node)
    (B : Node → Outlook) : i.Mirrors ⊤ B (suffixed r n token left) (suffixed r' n' token' left) := by
  intro c
  have he : ∀ c min B, i.MirrorsAt ⊤ B (r.expression min) (r'.expression min) c :=
    fun c min B => (hr.expression min B c).mono le_top
  unfold suffixed
  rw [hk]
  generalize token.kind = k
  cases k.binaryOp? with
  | some op => exact (he _ _ _).bind fun _ _ => .pure le_rfl
  | none =>
  simp only
  cases k.assignOp? with
  | some op => exact (target_mirrors c).bind fun _ c₁ => (he c₁ _ _).bind fun _ _ => .pure le_rfl
  | none =>
  simp only
  cases k.updateAfter? with
  | some op => exact (target_mirrors c).bind fun _ _ => .pure le_rfl
  | none =>
  simp only
  split
  · exact (he c _ _).bind fun _ c₁ => expect_bind Kind.noConfusion fun c₂ =>
      (he c₂ _ _).bind fun _ _ => .pure le_rfl
  · exact .mono le_top ((expectName_mirrors _ c).bind fun _ _ => .pure le_rfl)
  · exact (he c _ _).bind fun _ _ => expect_bind Kind.noConfusion fun _ => .pure le_top
  · exact (parenthesised_mirrors (hr.expression _) hn _ c).bind fun _ _ => .pure le_rfl
  · exact .never fun _ _ h => by cases h

omit hr in
/-- An operator that is taken from the source goes on with the expression in the text with blanks in it. -/
theorem goesOn_of_takes {taken : List Lookahead} {min : Nat} {k : Kind} {lb lb' : Bool} {rest : List Char}
    (htakes : i.Takes .operator taken) (hs : Sees .operator (restBehind i.source taken) k lb rest)
    (halike : i.Alike taken k lb lb') (hgo : k.goesOn min lb = true) : k.goesOn min lb' = true := by
  rcases halike with rfl | ⟨rfl, rfl | ⟨rfl, hline⟩⟩
  · exact hgo
  · simp [Kind.goesOn, Kind.power] at hgo
  · obtain ⟨l, hl, hm⟩ := htakes
    have hsees := i.trace.sees hl
    rw [hm] at hsees
    have hfree := i.free hline l hl
    rw [Lookahead.sticksTo, hm, (hsees.unique hs).1] at hfree
    simp_all [Kind.goesOn]

theorem suffixes_mirrors (min : Nat) (hn : n ≤ n') (left : Node) (B : Node → Outlook) :
    i.Mirrors ⊤ B (suffixes r min n left) (suffixes r' min n' left) := by
  induction n generalizing n' left with
  | zero => exact tooDeep_mirrors
  | succ n ih =>
    obtain ⟨n', rfl⟩ : ∃ m, n' = m + 1 := ⟨n' - 1, by omega⟩
    have hn := Nat.le_of_succ_le_succ hn
    refine fun c => peek_bind (fun h => by cases h) fun l l' c₁ hsame hs hk halike => ?_
    rw [← hsame] at hs halike
    by_cases hgo : continues min l = true
    -- the operator is taken next, which rules out an update behind a new line end
    · rw [if_pos hgo]
      have hne : l.token.kind ≠ .eof := fun he => by simp [continues, he, Kind.power] at hgo
      refine .mono le_top (.of_outlook (advance_bind_of_sees hs hne fun l₁ token' c₂ _ hk₁ _ => ?_)
        fun htakes => if_pos ?_)
      · exact (suffixed_mirrors hr hn hk₁ left _ c₂).bind fun mid c₃ => ih hn mid c₃
      · unfold continues
        rw [hk]
        exact goesOn_of_takes htakes hs halike hgo
    · have hstop : ¬ continues min l' = true := by
        unfold continues at hgo ⊢
        rw [hk]
        rcases halike with hlb | ⟨hlb, -⟩
        · rwa [hlb]
        · simp_all
      rw [if_neg hgo, if_neg hstop]
      exact .pure le_top

theorem expressionWith_mirrors (hn : n ≤ n') (min : Nat) (B : Node → Outlook) :
    i.Mirrors (i.Takes .operand) B (expressionWith r n min) (expressionWith r' n' min) := by
  refine fun _ => advance_bind (fun l token' c₁ _ hk _ => ?_) fun l c₁ _ hk b c' h => ?_
  · exact (operand_mirrors hr hn hk _ c₁).bind fun left c₂ => suffixes_mirrors hr min hn left B c₂
  · obtain ⟨left, c₂, h, -⟩ := bind_ok h
    simp only [operand, hk, Kind.updateBefore?, Kind.unaryOp?] at h
    cases h

theorem condition_mirrors (B : Node → Outlook) :
    i.Mirrors (i.Takes .operand) B (condition r) (condition r') :=
  fun _ => expect_bind Kind.noConfusion fun c₁ =>
    ((hr.expression 0 _ c₁).mono le_top).bind fun _ _ => expect_bind Kind.noConfusion fun _ => .pure le_top

theorem declarator_mirrors (B : String × Option Node → Outlook) :
    i.Mirrors (i.Takes .operand) B (declarator r) (declarator r') := by
  refine fun c => (expectName_mirrors _ c).bind fun name c₁ =>
    (eatOperator_mirrors Kind.noConfusion c₁).bind fun b c₂ => ?_
  cases b with
  | true => exact .mono le_top ((hr.expression _ _ c₂).bind fun _ _ => .pure le_rfl)
  | false => exact .pure le_top

theorem optional_mirrors {kind : Kind} [kind.Fixed] (hk : ∀ pattern flags, kind ≠ .regExp pattern flags)
    (B : Option Node → Outlook) : i.Mirrors i.Clear B (optional r kind) (optional r' kind) := by
  refine fun c => (check_mirrors hk c).bind fun b c₁ => ?_
  cases b with
  | true => exact .pure le_top
  | false => exact .mono takes_le_clear ((hr.expression _ _ c₁).bind fun _ _ => .pure le_rfl)

omit hr in
/-- A token that is taken from the source behind a `return` on its line is its value in the text with blanks in
it. -/
theorem endsReturn_of_takes {taken : List Lookahead} {k : Kind} {lb lb' : Bool} {rest : List Char}
    (htakes : i.Takes .operand taken) (hs : Sees .operand (restBehind i.source taken) k lb rest)
    (halike : i.Alike taken k lb lb') (hreturn : taken.head?.any (·.token.kind = .word .«return») = true)
    (hend : k.endsReturn lb = false) : k.endsReturn lb' = false := by
  rcases halike with rfl | ⟨rfl, rfl | ⟨rfl, hline⟩⟩
  · exact hend
  · simp [Kind.endsReturn, endsStatement] at hend
  · obtain ⟨l, hl, hm⟩ := htakes
    have hsees := i.trace.sees hl
    rw [hm] at hsees
    obtain ⟨hk, hlb, -⟩ := hsees.unique hs
    have hfree := i.free hline l hl
    rw [Lookahead.sticksTo, hreturn, hk, hlb, hend] at hfree
    simp at hfree

theorem returnValue_mirrors (hreturn : c.consumed.head?.any (·.token.kind = .word .«return») = true) :
    i.MirrorsAt i.Clear (fun _ => i.Clear) (returnValue r) (returnValue r') c := by
  refine peek_bind (fun _ => le_rfl) fun l l' c₁ hsame hs hk halike => ?_
  rw [← hsame] at hs halike hreturn
  change i.MirrorsAt _ _ (if l.token.kind.endsReturn l.lineBreak = true then _ else _)
    (if l'.token.kind.endsReturn l'.lineBreak = true then _ else _) c₁
  cases hend : l.token.kind.endsReturn l.lineBreak with
  | true =>
    have hend' : l'.token.kind.endsReturn l'.lineBreak = true := by
      rw [hk]
      rcases halike with hlb | ⟨hlb, -⟩
      · rwa [hlb]
      · simp [hlb, Kind.endsReturn]
    rw [if_pos rfl, if_pos hend']
    exact .pure le_rfl
  | false =>
    rw [if_neg Bool.false_ne_true]
    refine .mono takes_le_clear (.of_outlook ((hr.expression _ _ c₁).bind fun _ _ => .pure le_rfl)
      fun htakes => if_neg (Bool.eq_false_iff.1 ?_))
    rw [hk]
    exact endsReturn_of_takes htakes hs halike hreturn hend

theorem returnStatement_mirrors (hreturn : c.consumed.head?.any (·.token.kind = .word .«return») = true) :
    i.MirrorsAt i.Clear (fun _ => i.Clear) (returnStatement r) (returnStatement r') c :=
  (returnValue_mirrors hr hreturn).bind fun _ c₁ => (endStatement_mirrors c₁).bind fun _ _ => .pure le_rfl

omit hr in
theorem jump_mirrors {token token' : Token} {inLoop : Bool} {node : Node} :
    i.Mirrors i.Clear (fun _ => i.Clear) (jump token inLoop node) (jump token' inLoop node) := by
  intro c
  unfold jump
  split
  · exact (endStatement_mirrors c).bind fun _ _ => .pure le_rfl
  · exact .never fun _ _ h => by cases h

theorem ifStatement_mirrors (inLoop : Bool) :
    i.Mirrors ⊤ (fun _ => i.Clear) (ifStatement r inLoop) (ifStatement r' inLoop) := by
  refine fun c => .mono le_top ((condition_mirrors hr _ c).bind fun _ c₁ =>
    (hr.statement inLoop c₁).bind fun _ c₂ => (eatOperand_mirrors Kind.noConfusion c₂).bind fun b c₃ => ?_)
  cases b with
  | true => exact .mono le_top ((hr.statement inLoop c₃).bind fun _ _ => .pure le_rfl)
  | false => exact .pure le_rfl

theorem whileStatement_mirrors : i.Mirrors ⊤ (fun _ => i.Clear) (whileStatement r) (whileStatement r') :=
  fun c => .mono le_top ((condition_mirrors hr _ c).bind fun _ c₁ =>
    (hr.statement true c₁).bind fun _ _ => .pure le_rfl)

theorem doWhileStatement_mirrors :
    i.Mirrors i.Clear (fun _ => i.Clear) (doWhileStatement r) (doWhileStatement r') :=
  fun c => (hr.statement true c).bind fun _ _ => .mono takes_le_clear (expect_bind Kind.noConfusion fun c₂ =>
    .mono le_top ((condition_mirrors hr _ c₂).bind fun _ c₃ =>
      (eatOperator_mirrors Kind.noConfusion c₃).bind fun _ _ => .pure le_top))

theorem forInit_mirrors (hn : n ≤ n') (B : Option Node → Outlook) :
    i.Mirrors ⊤ B (forInit r n) (forInit r' n') := by
  refine fun c => .mono le_top ((eatOperand_mirrors Kind.noConfusion c).bind fun b c₁ => ?_)
  cases b with
  | true =>
    exact .mono le_top ((commaList_mirrors (declarator_mirrors hr) hn _ c₁).bind fun _ _ => .pure le_rfl)
  | false => exact optional_mirrors hr (fun _ _ => Kind.noConfusion) B c₁

theorem forStatement_mirrors (hn : n ≤ n') :
    i.Mirrors ⊤ (fun _ => i.Clear) (forStatement r n) (forStatement r' n') := by
  have hoptional : ∀ {kind : Kind} [kind.Fixed] B, (∀ pattern flags, kind ≠ .regExp pattern flags) →
      i.Mirrors ⊤ B (optional r kind) (optional r' kind) :=
    fun B hk c => (optional_mirrors hr hk B c).mono le_top
  exact fun c => .mono le_top (expect_bind Kind.noConfusion fun c₁ =>
    (forInit_mirrors hr hn _ c₁).bind fun _ _ =>
    expect_bind Kind.noConfusion fun c₂ => (hoptional _ (fun _ _ => Kind.noConfusion) c₂).bind fun _ _ =>
    expect_bind Kind.noConfusion fun c₃ => (hoptional _ (fun _ _ => Kind.noConfusion) c₃).bind fun _ _ =>
    expect_bind Kind.noConfusion fun c₄ => .mono le_top ((hr.statement true c₄).bind fun _ _ => .pure le_rfl))

omit hr in
theorem wordStatement?_eq_none {inLoop : Bool} {w : Word} (hw : wordStatement? r inLoop n w = none) :
    wordStatement? r' inLoop n' w = none := by
  cases w <;> first | rfl | cases hw

theorem wordStatement_mirrors {inLoop : Bool} (hn : n ≤ n') {w : Word} {rest : Token → Parser Node}
    (hw : wordStatement? r inLoop n w = some rest) :
    ∃ rest', wordStatement? r' inLoop n' w = some rest' ∧ ∀ (token token' : Token) (c : Cursor),
      c.consumed.head?.any (·.token.kind = .word w) = true →
      i.MirrorsAt ⊤ (fun _ => i.Clear) (rest token) (rest' token') c := by
  cases w <;> simp only [wordStatement?, Option.some.injEq, reduceCtorEq] at hw <;> subst hw
  case «return» => exact ⟨_, rfl, fun _ _ _ hreturn => (returnStatement_mirrors hr hreturn).mono le_top⟩
  case «break» => exact ⟨_, rfl, fun _ _ c _ => (jump_mirrors c).mono le_top⟩
  case «continue» => exact ⟨_, rfl, fun _ _ c _ => (jump_mirrors c).mono le_top⟩
  case «if» => exact ⟨_, rfl, fun _ _ c _ => ifStatement_mirrors hr inLoop c⟩
  case «while» => exact ⟨_, rfl, fun _ _ c _ => whileStatement_mirrors hr c⟩
  case «do» => exact ⟨_, rfl, fun _ _ c _ => (doWhileStatement_mirrors hr c).mono le_top⟩
  case «for» => exact ⟨_, rfl, fun _ _ c _ => forStatement_mirrors hr hn c⟩
  case var =>
    exact ⟨_, rfl, fun _ _ c _ => .mono le_top
      ((commaList_mirrors (declarator_mirrors hr) hn _ c).bind fun _ c₁ =>
        (endStatement_mirrors c₁).bind fun _ _ => .pure le_rfl)⟩
  case function =>
    exact ⟨_, rfl, fun _ _ c _ => (functionParts_mirrors hr true hn _ c).bind fun _ _ => .pure le_rfl⟩

theorem expressionStatement_mirrors :
    i.Mirrors i.Clear (fun _ => i.Clear) (expressionStatement r) (expressionStatement r') :=
  fun c => .mono takes_le_clear ((hr.expression 0 _ c).bind fun _ c₁ =>
    (endStatement_mirrors c₁).bind fun _ _ => .pure le_rfl)

theorem statementWith_mirrors (hn : n ≤ n') (inLoop : Bool) :
    i.Mirrors i.Clear (fun _ => i.Clear) (statementWith r n inLoop) (statementWith r' n' inLoop) := by
  refine fun c => peekKind_bind fun k lb rest c₁ hs => ?_
  split
  · exact .mono takes_le_clear (advance_bind_of_sees hs Kind.noConfusion fun _ _ _ _ _ _ => .pure le_top)
  · exact .mono takes_le_clear ((block_mirrors hr inLoop hn _ c₁).bind fun _ _ => .pure le_rfl)
  next w =>
    cases hw : wordStatement? r inLoop n w with
    | none =>
      rw [wordStatement?_eq_none hw]
      exact expressionStatement_mirrors hr c₁
    | some tail =>
      obtain ⟨tail', hw', htail⟩ := wordStatement_mirrors hr hn hw
      rw [hw']
      refine .mono takes_le_clear (advance_bind_of_sees hs Kind.noConfusion fun l token' c₂ hk _ hc₂ => ?_)
      refine htail l.token token' c₂ ?_
      rw [hc₂]
      simpa using hk
  · exact expressionStatement_mirrors hr c₁

end Rules

theorem rules_mirror (hn : n ≤ n') : i.Mirror (rules n) (rules n') := by
  induction n generalizing n' with
  | zero => exact ⟨fun _ _ => tooDeep_mirrors, fun _ => tooDeep_mirrors⟩
  | succ n ih =>
    obtain ⟨n', rfl⟩ : ∃ m, n' = m + 1 := ⟨n' - 1, by omega⟩
    have hn := Nat.le_of_succ_le_succ hn
    exact ⟨expressionWith_mirrors (ih hn) hn, statementWith_mirrors (ih hn) hn⟩

theorem statements_mirrors {depth depth' : Nat} (hd : depth ≤ depth') (hn : n ≤ n') (B : Program → Outlook) :
    i.Mirrors i.Clear B (statements depth n) (statements depth' n') := by
  induction n generalizing n' B with
  | zero => exact tooDeep_mirrors
  | succ n ih =>
    obtain ⟨n', rfl⟩ : ∃ m, n' = m + 1 := ⟨n' - 1, by omega⟩
    refine fun c => (check_mirrors (fun _ _ => Kind.noConfusion) c).bind fun b c₁ => ?_
    cases b with
    | true => exact .pure le_top
    | false =>
      exact ((rules_mirror hd).statement false c₁).bind fun _ c₂ =>
        (ih (Nat.le_of_succ_le_succ hn) _ c₂).bind fun _ _ => .pure le_rfl

end Insertion

/-- The tokens that are taken when a program is read, in order. -/
def tokensTaken (source : String) : List Lookahead :=
  let depth := depthOf source.toList
  match statements depth depth (Cursor.start source.toList) with
  | .ok _ c | .error _ c => c.consumed.reverse

/-- The place behind the last of the tokens. -/
def endOf (tokens : List Lookahead) : Nat := (tokens.getLast?.map (·.token.stop)).getD 0

theorem Cursor.Placed.restBehind {source : List Char} {c : Cursor} {tokens : List Lookahead}
    (hc : c.Placed source) (ht : tokens.reverse <:+ c.consumed) :
    StandsAt source (endOf tokens) (restBehind source tokens.reverse) := by
  rcases List.eq_nil_or_concat tokens with rfl | ⟨tokens, l, rfl⟩
  · exact ⟨[], rfl, rfl⟩
  · have hl : l ∈ c.consumed := ht.subset (by simp)
    simpa [endOf, Scriptlet.restBehind] using (hc.consumed l hl).rest

/-- Between the tokens taken last and those taken first, the one that follows is the first of the later ones. -/
theorem head?_of_suffix {front back : List Lookahead} {l : Lookahead}
    (h : (l :: front.reverse) <:+ back.reverse ++ front.reverse) : back.head? = some l := by
  obtain ⟨later, hlater⟩ := h
  rw [← List.singleton_append, ← List.append_assoc] at hlater
  have hback := congrArg List.reverse (List.append_cancel_right hlater)
  rw [List.reverse_reverse] at hback
  simp [← hback]

theorem parse_eq_ok_run {source : String} {p : Program} (h : parse source = .ok p) :
    ∃ c, statements (depthOf source.toList) (depthOf source.toList) (Cursor.start source.toList) = .ok p c ∧
      tokensTaken source = c.consumed.reverse := by
  unfold parse Parser.read at h
  simp only at h
  split at h
  next a c hc =>
    cases h
    refine ⟨c, hc, ?_⟩
    simp only [tokensTaken, hc]
  · cases h

/-- Blanks may be written into a program behind each token that is taken when it is read, and at its start, and
the program is read as before; line ends among them only where none of the two tokens around them needs the
other one on its line. -/
theorem parse_insert_blanks (source : String) (p : Program) (hp : parse source = .ok p)
    (front back : List Lookahead) (htokens : tokensTaken source = front ++ back)
    (u v w : List Char) (huv : u ++ v = source.toList) (hu : byteLength u = endOf front)
    (hw : ∀ c ∈ w, isBlank c = true)
    (hline : w.any isLineEnd = true → ∀ b ∈ back.head?, b.sticksTo front.getLast? = false) :
    parse (String.ofList (u ++ w ++ v)) = .ok p := by
  obtain ⟨c, hc, htaken⟩ := parse_eq_ok_run hp
  have hlog : c.consumed = back.reverse ++ front.reverse := by
    rw [← List.reverse_append, ← htokens, htaken, List.reverse_reverse]
  have hmoves := (statements_walks _ _).moves hc
  let i : Insertion :=
    { source := source.toList
      later := back.reverse
      earlier := front.reverse
      trace := hlog ▸ (hmoves.tracked (Cursor.start_tracked _)).trace
      blanks := w
      blank := hw
      free := fun hl l hsuffix => by
        rw [List.head?_reverse]
        exact hline hl l (head?_of_suffix hsuffix) }
  have hafter : i.after = v :=
    ((hmoves.placed (Cursor.start_placed _)).restBehind ⟨back.reverse, hlog.symm⟩).unique ⟨u, huv, hu⟩
  have hwiden : i.widen [] = u ++ w ++ v := by
    rw [← hafter]
    exact Insertion.widen_before List.nil_suffix (by rw [hafter, huv]; rfl)
  have hdepth : depthOf source.toList ≤ depthOf (u ++ w ++ v) := by
    simp only [depthOf, ← huv, List.length_append]
    omega
  obtain ⟨-, hmirrors⟩ :=
    Insertion.statements_mirrors (i := i) hdepth hdepth (fun _ => ⊤) _ p c (Cursor.start_tracked _) hc
  obtain ⟨-, haccepts⟩ := hmirrors (by rw [hlog]; exact List.suffix_refl _) trivial
  obtain ⟨p', c', hrun, rfl, -⟩ :=
    haccepts (Cursor.start (u ++ w ++ v)) (Cursor.coherent_of_none rfl) hwiden.symm
  simp only [parse, String.toList_ofList, Parser.read, hrun]

/-- A division is read over two lines as it is read on one. -/
theorem parse_insert_blanks_division :
    parse "a/ \nb" = .ok [.binary .divide (.identifier "a") (.identifier "b")] :=
  parse_insert_blanks "a/b" _ (by cbv) ((tokensTaken "a/b").take 2) ((tokensTaken "a/b").drop 2)
    (List.take_append_drop ..).symm ['a', '/'] ['b'] [' ', '\n'] rfl (by cbv) (List.all_eq_true.1 rfl)
    fun _ b hb => by
      have hall : ((tokensTaken "a/b").drop 2).head?.all
          (fun b => !b.sticksTo ((tokensTaken "a/b").take 2).getLast?) = true := by cbv
      rw [Option.mem_def.1 hb] at hall
      simpa using hall

end Scriptlet
