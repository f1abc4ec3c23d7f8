import Scriptlet.Proofs.Progress
import Scriptlet.Proofs.WellFormed

/-!
# The list of tokens shows what was read

`stream` guesses from the token before it whether a slash divides or opens a regular expression; a parser knows
it from the rule that it follows. The two agree on every expression without functions and without updates before
their operand: the mode in which a rule takes a token is the one that is due behind the token taken before it
(`Cursor.InStep`). An expression starts where an operand is due and leaves an operator due; each rule is one step
of that invariant, and it holds of the tokens taken in a whole run.

Behind `++` and behind a closing brace the guess can be wrong: `++/a/.b` is an update of a property of a regular
expression. So the statements about rules are about trees in which no such token was taken; a rule knows this of
its parts, since they are parts of the tree that it makes.
-/

namespace Scriptlet

open Text Token

/-! ### Trees without misleading tokens -/

namespace Node

/-- A function or an update before its operand: behind the last token of the one and the first token of the other
the list of tokens expects the wrong thing. -/
def misleads : Node → Bool
  | .function .. => true
  | .update op _ => !op.yieldsOld
  | _ => false

/-- The node is of the given sort, or one inside of it is. -/
inductive Contains (p : Node → Bool) : Node → Prop where
  | here {node : Node} : p node = true → Contains p node
  | inside {node child : Node} : child ∈ node.children → Contains p child → Contains p node

/-- No node of the tree misleads. -/
def Clear (node : Node) : Prop := ¬ node.Contains misleads

theorem Clear.child {node child : Node} (h : node.Clear) (hc : child ∈ node.children) : child.Clear :=
  fun hchild => h (.inside hc hchild)

theorem Clear.misleads {node : Node} (h : node.Clear) : node.misleads = false :=
  Bool.eq_false_iff.2 fun hm => h (.here hm)

end Node

/-! ### The mode that is due -/

/-- What the list of tokens expects behind the tokens taken, the last one first. -/
def due (taken : List Lookahead) : Mode := modeAfter (taken.head?.map (·.token.kind))

/-- The cursor behind the tokens taken from a source, the last one first. -/
def cursorBehind (source : List Char) : List Lookahead → Cursor
  | [] => .start source
  | l :: taken => ⟨l.token.stop, l.rest, none, l :: taken⟩

/-- Each of the tokens was taken in the mode that was due. None is the end of the text. -/
inductive Listed (source : List Char) : List Lookahead → Prop where
  | nil : Listed source []
  | cons {l : Lookahead} {taken : List Lookahead} :
      (cursorBehind source taken).lookAhead (due taken) = .ok l → l.token.kind ≠ .eof →
      Listed source taken → Listed source (l :: taken)

section Stream

variable {c : Cursor} {before : Option Kind} {l : Lookahead} {source : List Char} {taken : List Lookahead}

/-- The tokens that the grammar knows. -/
def significant (ts : List Token) : List Token := ts.filter (·.kind ≠ .lineBreak)

theorem streamFrom_of_scanAt {i : Nat} {cs rest : List Char} {t : Token}
    (h : scanAt i (modeAfter before) cs = .ok (t, rest)) :
    streamFrom before i cs = if t.kind = .eof then ([], none)
      else (t :: (streamFrom (previous before t.kind) t.stop rest).1,
        (streamFrom (previous before t.kind) t.stop rest).2) := by
  rw [streamFrom]
  split
  next gap hs =>
    rw [scanAt, hs] at h
    cases h
  next gap found hs =>
    rw [scanAt, hs] at h
    cases h
    split <;> rfl

/-- The next token that the grammar knows is the next one of the list, scanned in the mode that is due. -/
theorem streamFrom_of_lookAhead (h : c.lookAhead (modeAfter before) = .ok l) :
    significant (streamFrom before c.offset c.rest).1 =
        (if l.token.kind = .eof then []
          else l.token :: significant (streamFrom (some l.token.kind) l.token.stop l.rest).1) ∧
      (streamFrom before c.offset c.rest).2 =
        if l.token.kind = .eof then none else (streamFrom (some l.token.kind) l.token.stop l.rest).2 := by
  have htoken : ∀ {i : Nat} {cs rest : List Char} {t : Token}, t.kind ≠ .lineBreak →
      scanAt i (modeAfter before) cs = .ok (t, rest) →
      significant (streamFrom before i cs).1 =
          (if t.kind = .eof then [] else t :: significant (streamFrom (some t.kind) t.stop rest).1) ∧
        (streamFrom before i cs).2 =
          if t.kind = .eof then none else (streamFrom (some t.kind) t.stop rest).2 := by
    intro i cs rest t hk hs
    have hprevious : previous before t.kind = some t.kind := if_neg hk
    rw [streamFrom_of_scanAt hs, hprevious]
    split
    · exact ⟨rfl, rfl⟩
    · exact ⟨by simp [significant, hk], rfl⟩
  unfold Cursor.lookAhead at h
  split at h
  · cases h
  next token rest hs =>
    split at h
    next hk =>
      -- a line break is skipped; the same mode is due behind it
      split at h
      · cases h
      next hs' =>
        cases h
        have hprevious : previous before token.kind = before := if_pos hk
        have hne : token.kind ≠ .eof := by rw [hk]; exact Kind.noConfusion
        obtain ⟨hlist, hbad⟩ := htoken (scanAt_behind_lineBreak hs hk hs') hs'
        rw [streamFrom_of_scanAt hs, if_neg hne, hprevious]
        exact ⟨by simpa [significant, hk] using hlist, hbad⟩
    next hk =>
      cases h
      exact htoken hk hs

/-- The list of a source starts with the tokens taken and goes on behind them. -/
theorem Listed.stream (h : Listed source taken) :
    significant (stream source).1 = (taken.map (·.token)).reverse ++
        significant (streamFrom (taken.head?.map (·.token.kind)) (cursorBehind source taken).offset
          (cursorBehind source taken).rest).1 ∧
      (stream source).2 = (streamFrom (taken.head?.map (·.token.kind)) (cursorBehind source taken).offset
          (cursorBehind source taken).rest).2 := by
  induction h with
  | nil => exact ⟨rfl, rfl⟩
  | cons hl hk _ ih =>
    obtain ⟨hlist, hbad⟩ := streamFrom_of_lookAhead hl
    rw [if_neg hk] at hlist hbad
    rw [ih.1, ih.2, hlist, hbad]
    simp [cursorBehind]

end Stream

/-! ### Tokens -/

/-- The cursor stands behind tokens that were taken as they are listed, and the given mode is due. -/
structure Cursor.InStep (source : List Char) (mode : Mode) (c : Cursor) : Prop where
  coherent : c.Coherent
  place : { c with ahead := none } = cursorBehind source c.consumed
  listed : Listed source c.consumed
  due : due c.consumed = mode

namespace Cursor.InStep

variable {source : List Char} {mode mode' : Mode} {c c' : Cursor} {l : Lookahead}

theorem start (source : List Char) : (Cursor.start source).InStep source .operand :=
  ⟨coherent_of_none rfl, rfl, .nil, rfl⟩

theorem look (h : c.InStep source mode) (hl : c.lookAhead mode' = .ok l) :
    { c with ahead := some l }.InStep source mode :=
  ⟨coherent_of_lookAhead hl, h.place, h.listed, h.due⟩

theorem take (h : c.InStep source mode) (hl : c.lookAhead mode = .ok l) (hk : l.token.kind ≠ .eof) :
    (⟨l.token.stop, l.rest, none, l :: c.consumed⟩ : Cursor).InStep source (modeAfter (some l.token.kind)) := by
  have hplace : (cursorBehind source c.consumed).lookAhead (Scriptlet.due c.consumed) = .ok l := by
    rw [← h.place, h.due]
    exact hl
  exact ⟨coherent_of_none rfl, rfl, .cons hplace hk h.listed, rfl⟩

end Cursor.InStep

namespace Parser

variable {α : Type} {source : List Char} {mode mode' : Mode} {kind : Kind} {c c' : Cursor} {r : Rules}

theorem peek_keeps {l : Lookahead} (hc : c.InStep source mode) (h : peek mode' c = .ok l c') :
    c'.InStep source mode := by
  obtain ⟨hl, rfl⟩ := peek_ok hc.coherent h
  exact hc.look hl

theorem advance_keeps {token : Token} (hc : c.InStep source mode) (h : advance mode c = .ok token c')
    (hk : token.kind ≠ .eof) : c'.InStep source (modeAfter (some token.kind)) := by
  obtain ⟨l, hl, rfl, rfl⟩ := advance_ok hc.coherent h
  exact hc.take hl hk

theorem expect_keeps [kind.Fixed] {token : Token} (hc : c.InStep source mode) (h : expect kind mode c = .ok token c')
    (hk : kind ≠ .eof) : c'.InStep source (modeAfter (some kind)) := by
  obtain ⟨l, hl, rfl, rfl⟩ := expect_ok hc.coherent h
  exact hc.take hl hk

theorem eat_keeps [kind.Fixed] {b : Bool} (hc : c.InStep source mode) (h : eat kind mode c = .ok b c')
    (hk : kind ≠ .eof) : c'.InStep source (if b then modeAfter (some kind) else mode) := by
  obtain ⟨l, hl, ⟨rfl, rfl, rfl⟩ | ⟨rfl, -, rfl⟩⟩ := eat_ok hc.coherent h
  · exact hc.take hl hk
  · exact hc.look hl

theorem expectName_keeps {name : String} (hc : c.InStep source .operand) (h : expectName c = .ok name c') :
    c'.InStep source .operator := by
  obtain ⟨token, c₁, ha, h⟩ := bind_ok h
  cases hk : token.kind with
  | identifier found =>
    rw [hk] at h
    cases h
    have hc₁ := advance_keeps hc ha (by rw [hk]; exact Kind.noConfusion)
    rwa [hk] at hc₁
  | _ => rw [hk] at h; cases h

theorem target_ok {token : Token} {node node' : Node} (h : target token node c = .ok node' c') :
    node' = node ∧ c' = c := by
  unfold target at h
  split at h
  · cases h; exact ⟨rfl, rfl⟩
  · cases h

/-! ### Lists -/

/-- A parser that starts where the mode is due leaves an operator due, if its result satisfies `P`. -/
def Steps (source : List Char) (mode : Mode) (P : α → Prop) (p : Parser α) : Prop :=
  ∀ c a c', p c = .ok a c' → P a → c.InStep source mode → c'.InStep source .operator

theorem commaList_steps {P : α → Prop} {part : Parser α} (hp : part.Steps source .operand P) (n : Nat) :
    (commaList part n).Steps source .operand fun as => ∀ a ∈ as, P a := by
  induction n with
  | zero => exact fun _ _ _ h => by cases h
  | succ n ih =>
    intro c as c' h has hc
    obtain ⟨a, c₁, ha, h⟩ := bind_ok h
    obtain ⟨b, c₂, hb, h⟩ := bind_ok h
    cases b with
    | true =>
      obtain ⟨as', c₃, has', h⟩ := bind_ok h
      cases h
      obtain ⟨hPa, hPas⟩ := List.forall_mem_cons.1 has
      have hc₂ := eat_keeps (hp c a c₁ ha hPa hc) hb Kind.noConfusion
      exact ih c₂ as' c' has' hPas hc₂
    | false =>
      cases h
      exact eat_keeps (hp c a c₁ ha (has a List.mem_cons_self) hc) hb Kind.noConfusion

theorem parenthesised_steps {P : α → Prop} {part : Parser α} (hp : part.Steps source .operand P) (n : Nat) :
    (parenthesised part n).Steps source .operand fun as => ∀ a ∈ as, P a := by
  intro c as c' h has hc
  obtain ⟨b, c₁, hb, h⟩ := bind_ok h
  have hc₁ := eat_keeps hc hb Kind.noConfusion
  cases b with
  | true =>
    cases h
    exact hc₁
  | false =>
    obtain ⟨as', c₂, has', h⟩ := bind_ok h
    obtain ⟨token, c₃, he, h⟩ := bind_ok h
    cases h
    exact expect_keeps (commaList_steps hp n c₁ as c₂ has' has hc₁) he Kind.noConfusion

section Kinds

variable {k : Kind}

theorem modeAfter_of_unaryOp {op : UnaryOp} (h : k.unaryOp? = some op) : modeAfter (some k) = .operand := by
  unfold Kind.unaryOp? at h
  split at h <;> cases h <;> rfl

theorem modeAfter_of_binaryOp {op : BinaryOp} (h : k.binaryOp? = some op) : modeAfter (some k) = .operand := by
  unfold Kind.binaryOp? at h
  split at h
  · split at h <;> cases h <;> rfl
  · cases h

theorem modeAfter_of_assignOp {op : AssignOp} (h : k.assignOp? = some op) : modeAfter (some k) = .operand := by
  unfold Kind.assignOp? at h
  split at h
  · split at h <;> cases h <;> rfl
  · cases h

theorem modeAfter_of_updateAfter {op : UpdateOp} (h : k.updateAfter? = some op) :
    modeAfter (some k) = .operator := by
  unfold Kind.updateAfter? at h
  split at h <;> cases h <;> rfl

theorem yieldsOld_of_updateBefore {op : UpdateOp} (h : k.updateBefore? = some op) : op.yieldsOld = false := by
  unfold Kind.updateBefore? at h
  split at h <;> cases h <;> rfl

end Kinds

/-! ### Rules -/

/-- The results of a parser satisfy `Q`. -/
def Returns (Q : α → Prop) (p : Parser α) : Prop := ∀ c a c', p c = .ok a c' → Q a

theorem Returns.bind {β : Type} {Q : β → Prop} {p : Parser α} {f : α → Parser β}
    (hf : ∀ a, (f a).Returns Q) : (p >>= f).Returns Q := by
  intro c b c' h
  obtain ⟨a, c₁, -, h⟩ := bind_ok h
  exact hf a c₁ b c' h

theorem Returns.pure {Q : α → Prop} {a : α} (h : Q a) : (pure a : Parser α).Returns Q := by
  intro c a' c' ha
  cases ha
  exact h

/-- An operator makes a tree around the operand on its left. -/
theorem suffixed_returns (r : Rules) (n : Nat) (token : Token) (left : Node) :
    (suffixed r n token left).Returns fun e => left ∈ e.children := by
  have htarget : ∀ {f : Node → Parser Node}, (f left).Returns (fun e => left ∈ e.children) →
      (target token left >>= f).Returns fun e => left ∈ e.children := by
    intro f hf c b c' h
    obtain ⟨node, c₁, ht, hrest⟩ := bind_ok h
    obtain ⟨rfl, rfl⟩ := target_ok ht
    exact hf c₁ b c' hrest
  unfold suffixed
  split
  · exact .bind fun _ => .pure (by simp [Node.children])
  split
  · exact htarget (.bind fun _ => .pure (by simp [Node.children]))
  split
  · exact htarget (.pure (by simp [Node.children]))
  split
  · exact .bind fun _ => .bind fun _ => .bind fun _ => .pure (by simp [Node.children])
  · exact .bind fun _ => .pure (by simp [Node.children])
  · exact .bind fun _ => .bind fun _ => .pure (by simp [Node.children])
  · exact .bind fun _ => .pure (by simp [Node.children])
  · exact fun _ _ _ h => by cases h

theorem suffixes_returns (r : Rules) (min n : Nat) (left : Node) :
    (suffixes r min n left).Returns fun e => e.Clear → left.Clear := by
  induction n generalizing left with
  | zero => exact fun _ _ _ h => by cases h
  | succ n ih =>
    refine .bind fun l => ?_
    split
    · refine .bind fun token c e c' h he => ?_
      obtain ⟨mid, c₁, hmid, h⟩ := bind_ok h
      exact (ih mid c₁ e c' h he).child (suffixed_returns r n token left c mid c₁ hmid)
    · exact .pure fun he => he

section Rules

variable (hr : ∀ min, (r.expression min).Steps source .operand Node.Clear)
include hr

theorem operand_steps (n : Nat) (token : Token) :
    (operand r n token).Steps source (modeAfter (some token.kind)) Node.Clear := by
  unfold operand
  split
  next op hop =>
    intro c e c' h he hc
    obtain ⟨argument, c₁, -, h⟩ := bind_ok h
    obtain ⟨node, c₂, -, h⟩ := bind_ok h
    cases h
    have hmisleads := he.misleads
    simp [Node.misleads, yieldsOld_of_updateBefore hop] at hmisleads
  split
  iterate 6
    rename_i hk
    intro c e c' h he hc
    cases h
    rw [hk] at hc
    exact hc
  next hk =>
    intro c e c' h he hc
    obtain ⟨inner, c₁, hinner, h⟩ := bind_ok h
    obtain ⟨token', c₂, hclose, h⟩ := bind_ok h
    cases h
    rw [hk] at hc
    exact expect_keeps (hr 0 c e c₁ hinner he hc) hclose Kind.noConfusion
  next hk =>
    intro c e c' h he hc
    obtain ⟨⟨name, params, body⟩, c₁, -, h⟩ := bind_ok h
    cases h
    cases he.misleads
  next =>
    split
    next op hop =>
      intro c e c' h he hc
      obtain ⟨argument, c₁, hargument, h⟩ := bind_ok h
      cases h
      rw [modeAfter_of_unaryOp hop] at hc
      exact hr _ c argument c' hargument (he.child (by simp [Node.children])) hc
    · exact fun _ _ _ h => by cases h

theorem suffixed_steps (n : Nat) (token : Token) (left : Node) :
    (suffixed r n token left).Steps source (modeAfter (some token.kind)) Node.Clear := by
  unfold suffixed
  split
  next op hop =>
    intro c e c' h he hc
    obtain ⟨right, c₁, hright, h⟩ := bind_ok h
    cases h
    rw [modeAfter_of_binaryOp hop] at hc
    exact hr _ c right c' hright (he.child (by simp [Node.children])) hc
  split
  next op hop =>
    intro c e c' h he hc
    obtain ⟨left', c₁, ht, hassign⟩ := bind_ok h
    obtain ⟨rfl, rfl⟩ := target_ok ht
    obtain ⟨value, c₂, hvalue, hresult⟩ := bind_ok hassign
    cases hresult
    rw [modeAfter_of_assignOp hop] at hc
    exact hr _ c₁ value c' hvalue (he.child (by simp [Node.children])) hc
  split
  next op hop =>
    intro c e c' h he hc
    obtain ⟨left', c₁, ht, hresult⟩ := bind_ok h
    obtain ⟨rfl, rfl⟩ := target_ok ht
    cases hresult
    rwa [modeAfter_of_updateAfter hop] at hc
  split
  next hk =>
    intro c e c' h he hc
    obtain ⟨consequent, c₁, hconsequent, h⟩ := bind_ok h
    obtain ⟨token', c₂, hcolon, h⟩ := bind_ok h
    obtain ⟨alternate, c₃, halternate, h⟩ := bind_ok h
    cases h
    rw [hk] at hc
    have hc₁ := hr _ c consequent c₁ hconsequent (he.child (by simp [Node.children])) hc
    have hc₂ := expect_keeps hc₁ hcolon Kind.noConfusion
    exact hr _ c₂ alternate c' halternate (he.child (by simp [Node.children])) hc₂
  next hk =>
    intro c e c' h he hc
    obtain ⟨name, c₁, hname, h⟩ := bind_ok h
    cases h
    rw [hk] at hc
    exact expectName_keeps hc hname
  next hk =>
    intro c e c' h he hc
    obtain ⟨key, c₁, hkey, h⟩ := bind_ok h
    obtain ⟨token', c₂, hclose, h⟩ := bind_ok h
    cases h
    rw [hk] at hc
    have hc₁ := hr _ c key c₁ hkey (he.child (by simp [Node.children])) hc
    exact expect_keeps hc₁ hclose Kind.noConfusion
  next hk =>
    intro c e c' h he hc
    obtain ⟨arguments, c₁, harguments, h⟩ := bind_ok h
    cases h
    rw [hk] at hc
    refine parenthesised_steps (hr Kind.commaPower) n c arguments c' harguments (fun a ha => ?_) hc
    exact he.child (by simp [Node.children, ha])
  · exact fun _ _ _ h => by cases h

theorem suffixes_steps (min n : Nat) (left : Node) :
    (suffixes r min n left).Steps source .operator Node.Clear := by
  induction n generalizing left with
  | zero => exact fun _ _ _ h => by cases h
  | succ n ih =>
    intro c e c' h he hc
    obtain ⟨l, c₁, hl, h⟩ := bind_ok h
    have hc₁ := peek_keeps hc hl
    split at h
    next hgo =>
      obtain ⟨token, c₂, ha, h⟩ := bind_ok h
      obtain ⟨mid, c₃, hmid, h⟩ := bind_ok h
      have hk : token.kind ≠ .eof := by
        obtain ⟨hlook, rfl⟩ := peek_ok hc.coherent hl
        obtain ⟨rfl, -⟩ := advance_seen hlook ha
        exact ne_eof_of_continues hgo
      have hclear := suffixes_returns r min n mid c₃ e c' h he
      exact ih mid c₃ e c' h he (suffixed_steps hr n token left c₂ mid c₃ hmid hclear (advance_keeps hc₁ ha hk))
    · cases h
      exact hc₁

theorem expressionWith_steps (n min : Nat) : (expressionWith r n min).Steps source .operand Node.Clear := by
  intro c e c' h he hc
  obtain ⟨token, c₁, ha, h⟩ := bind_ok h
  obtain ⟨left, c₂, hleft, h⟩ := bind_ok h
  have hk : token.kind ≠ .eof := by
    intro hk
    rw [operand_of_eof hk] at hleft
    cases hleft
  have hclear := suffixes_returns r min n left c₂ e c' h he
  have hc₂ := operand_steps hr n token c₁ left c₂ hleft hclear (advance_keeps hc ha hk)
  exact suffixes_steps hr min n left c₂ e c' h he hc₂

end Rules

theorem expression_steps (source : List Char) (n min : Nat) :
    (expression n min).Steps source .operand Node.Clear := by
  induction n generalizing min with
  | zero => exact fun _ _ _ h => by cases h
  | succ n ih => exact expressionWith_steps ih n min

end Parser

/-- The tokens that are taken when a source is read as one expression, in order. -/
def expressionTokens (source : String) : List Token :=
  match Parser.wholeExpression (Parser.depthOf source.toList) (Cursor.start source.toList) with
  | .ok _ c | .error _ c => (c.consumed.map (·.token)).reverse

/-- The list of the tokens of an expression without functions and without updates before their operand is made
without a failure, and without its line breaks it holds the tokens that were taken when the expression was read,
up to the end of the text. -/
theorem stream_eq_expressionTokens (source : String) (e : Node) (he : parseExpression source = .ok e)
    (hclear : ¬ e.Contains Node.misleads) :
    (stream source.toList).2 = none ∧ ∃ last, last.kind = .eof ∧
      expressionTokens source = (stream source.toList).1.filter (·.kind ≠ .lineBreak) ++ [last] := by
  unfold parseExpression Parser.read at he
  split at he
  next node c hrun =>
    cases he
    have htokens : expressionTokens source = (c.consumed.map (·.token)).reverse := by
      simp only [expressionTokens, hrun]
    obtain ⟨node', c₁, hnode, h⟩ := Parser.bind_ok hrun
    obtain ⟨token, c₂, heof, h⟩ := Parser.bind_ok h
    cases h
    have hc₁ := Parser.expression_steps source.toList _ 0 _ e c₁ hnode hclear (.start source.toList)
    obtain ⟨l, hl, hk, rfl⟩ := Parser.expect_ok hc₁.coherent heof
    -- the end of the text is seen in the mode that is due, so the list ends there too
    have hend : (cursorBehind source.toList c₁.consumed).lookAhead (due c₁.consumed) = .ok l := by
      rw [← hc₁.place, hc₁.due]
      exact hl
    obtain ⟨hrest, hbad⟩ := streamFrom_of_lookAhead hend
    obtain ⟨hlist, hstream⟩ := hc₁.listed.stream
    rw [if_pos hk] at hrest hbad
    refine ⟨hstream.trans hbad, l.token, hk, ?_⟩
    rw [hrest, List.append_nil] at hlist
    change _ = significant _ ++ _
    rw [htokens, hlist, List.map_cons, List.reverse_cons]
  · cases he

/-- A division by a regular expression whose pattern holds a slash, over two lines. -/
theorem stream_eq_expressionTokens_slashes :
    (stream "a /\n/[/]/g".toList).2 = none ∧ ∃ last, last.kind = .eof ∧
      expressionTokens "a /\n/[/]/g" =
        (stream "a /\n/[/]/g".toList).1.filter (·.kind ≠ .lineBreak) ++ [last] := by
  refine stream_eq_expressionTokens "a /\n/[/]/g" (.binary .divide (.identifier "a") (.regExp "[/]" "g"))
    (by cbv) ?_
  rintro (h | ⟨hc, h⟩)
  · cases h
  · simp only [Node.children, List.mem_cons, List.not_mem_nil, or_false] at hc
    rcases hc with rfl | rfl
    all_goals
      rcases h with h | ⟨hc, -⟩
      · cases h
      · cases hc

end Scriptlet
