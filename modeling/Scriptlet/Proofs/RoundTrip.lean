import Scriptlet.Proofs.Completeness
import Scriptlet.Proofs.RenderedStatements

/-!
# What was rendered is read back

Two numbers tell how a rendered expression meets its surroundings: its operators are no looser than
`Term.left`, and it does not take over operators behind it up to `Term.right`. They agree with the
level for most expressions. An operator before its operand can stand anywhere, and an assignment and a
conditional reach as far to their right as the next comma. Every position asks for two such numbers,
and an expression that needs no parentheses there has them (`Term.fits`).

The round trip is one induction over expressions and statements. By `parse_eq_ok_iff` and
`parseExpression_eq_ok_iff` it is enough that the relation `Reads` holds of the text.
-/

namespace Scriptlet

open Token

/-! ### Levels -/

namespace Term

/-- The power that all operators on the left edge have at least. -/
def left : Term → Nat
  | .unary .. => 170
  | .update op _ => if op.yieldsOld then 150 else 170
  | t => t.level

/-- The power up to which operators behind the expression leave it alone. -/
def right : Term → Nat
  | .unary .. => Kind.unaryPower
  | .update op _ => if op.yieldsOld then 170 else Kind.unaryPower
  | .binary op _ _ => (Kind.punct op.punct).power
  | .assign .. | .conditional .. => Kind.commaPower
  | .leaf _ | .property .. | .call .. | .function .. => 170

end Term

/-- What a position asks for on the left edge of an expression. -/
def Position.leftNeed : Position → Nat
  | .left p => (Kind.punct p).power
  | .right p => (Kind.punct p).power + 1
  | .operand => Kind.unaryPower + 1
  | .test => 30
  | .part => Kind.commaPower + 1
  | .whole => 1

/-- What a position asks for on the right edge. -/
def Position.rightNeed : Position → Nat
  | .left p | .right p => (Kind.punct p).power
  | .operand => Kind.unaryPower
  | .test => 30
  | .part => Kind.commaPower
  | .whole => 0

/-- The operators between the comma and the binary ones are the assignments, and on their left stands
what can be assigned to. -/
def Position.Suits (pos : Position) (t : Term) : Prop :=
  match pos with
  | .left p | .right p =>
    (Kind.punct p).power ≤ 10 ∨ 30 < (Kind.punct p).power ∨ t.node.isTarget = true
  | _ => True

theorem binary_power (op : BinaryOp) : (Kind.punct op.punct).power = 10 ∨
    30 < (Kind.punct op.punct).power ∧ (Kind.punct op.punct).power ≤ 130 := by
  cases op <;> decide

namespace Term

/-- The level and the two edges. Only assignments and conditionals have a right edge below their level. -/
theorem edges (t : Term) : 10 ≤ t.level ∧ t.level ≤ t.left ∧ (140 ≤ t.level → 141 ≤ t.left) ∧
    (t.level ≤ t.right ∨ 10 < t.level ∧ t.level ≤ 30 ∧ t.right = 10) := by
  cases t with
  | binary op l r =>
    have := binary_power op
    simp only [level, left, right]
    omega
  | update op t => cases op <;> simp [level, left, right, UpdateOp.yieldsOld, Kind.unaryPower]
  | _ => simp [level, left, right, Kind.unaryPower, Kind.commaPower]

/-- What can be assigned to is as tight as an expression gets. -/
theorem target_edges {t : Term} (h : t.node.isTarget = true) : 160 ≤ t.left ∧ 160 ≤ t.right := by
  cases t with
  | leaf | property => simp [left, right, level]
  | _ => cases h

/-- An expression fits where it needs no parentheses. -/
theorem fits {t : Term} {pos : Position} (h : pos.bound ≤ t.level) (hpos : pos.Suits t) :
    pos.leftNeed ≤ t.left ∧ pos.rightNeed ≤ t.right := by
  have he := t.edges
  cases pos with
  | left p =>
    have hp := power_le p
    simp only [Position.bound, Position.leftNeed, Position.rightNeed, Position.Suits] at *
    rcases hpos with hp' | hp' | ht
    · omega
    · omega
    · have := target_edges ht
      omega
  | right p =>
    have hp := power_le p
    simp only [Position.bound, Position.leftNeed, Position.rightNeed, Position.Suits] at *
    rcases hpos with hp' | hp' | ht
    · omega
    · omega
    · have := target_edges ht
      omega
  | _ =>
    simp only [Position.bound, Position.leftNeed, Position.rightNeed, Kind.unaryPower, Kind.commaPower] at *
    omega

end Term

/-! ### Expressions and statements -/

variable {policy : Policy}

theorem Operand.whole {t : Term} (h : Operand (t.pieces policy) t.node t.left t.right) :
    Operand (t.pieces policy) t.node 1 0 := by
  have he := t.edges
  exact h.mono (by omega) (Nat.zero_le _)

/-- An expression where it stands, in parentheses or not. -/
theorem Operand.placed {t : Term} (hp : policy.Enough) (pos : Position)
    (h : Operand (t.pieces policy) t.node t.left t.right)
    (hpos : pos.Suits t) :
    Operand (wrap (policy pos t) (t.pieces policy)) t.node pos.leftNeed pos.rightNeed := by
  cases hw : policy pos t with
  | true => exact .group h.whole
  | false =>
    have hbound : pos.bound ≤ t.level := by
      refine Nat.not_lt.1 fun hlt => ?_
      rw [hp pos t hlt] at hw
      cases hw
    obtain ⟨hl, hr⟩ := Term.fits hbound hpos
    exact h.mono hl hr

theorem Term.leads (policy : Policy) : (t : Term) → Leads (t.pieces policy)
  | .leaf l => by
    have hl : l.kind ≠ .lineBreak := fun h => by have := l.leaf; rw [h] at this; cases this
    have he : l.kind ≠ .eof := fun h => by have := l.leaf; rw [h] at this; cases this
    refine ⟨_, _, l.kind, rfl, shows_text l.spells hl he, fun h => ?_⟩
    have := l.leaf
    unfold Kind.leaf? at this
    split at this <;> simp_all [Kind.opensStatement]
  | .unary op t => by
    cases op with
    | plus | minus | not | bitNot =>
      exact ⟨_, _, _, rfl, shows_punct (by decide) (by decide), fun h => by cases h⟩
    | typeOf | void | delete => exact ⟨_, _, _, rfl, shows_word _ _, fun h => by cases h⟩
  | .update op t => by
    cases op with
    | preIncrement | preDecrement =>
      exact ⟨_, _, _, rfl, shows_punct (by decide) (by decide), fun h => by cases h⟩
    | postIncrement | postDecrement => exact (leads_wrap (t.leads policy)).append _
  | .binary op l r => (leads_wrap (l.leads policy)).append _
  | .property o k => (leads_wrap (o.leads policy)).append _
  | .assign op t v => (leads_wrap (t.leads policy)).append _
  | .conditional c a b => (leads_wrap (c.leads policy)).append _
  | .call f ts => (leads_wrap (f.leads policy)).append _
  | .function name params body => ⟨_, _, _, rfl, shows_word _ _, fun _ => rfl⟩

mutual

theorem Term.operand (hp : policy.Enough) :
    (t : Term) → t.valid = true → Operand (t.pieces policy) t.node t.left t.right
  | .leaf l, _ => .leaf l.spells l.leaf
  | .unary op t, hv => .unary ((t.operand hp hv).placed hp .operand trivial)
  | .update op t, hv => by
    obtain ⟨ht, hv⟩ := Bool.and_eq_true_iff.1 hv
    have h := t.operand hp hv
    cases op with
    | preIncrement | preDecrement => exact .updateBefore rfl ht (h.placed hp .operand trivial)
    | postIncrement => exact .updateAfter rfl ht (h.placed hp (.left .plusPlus) (.inr (.inr ht)))
    | postDecrement => exact .updateAfter rfl ht (h.placed hp (.left .minusMinus) (.inr (.inr ht)))
  | .binary op l r, hv => by
    obtain ⟨hl, hr⟩ := Bool.and_eq_true_iff.1 hv
    have hpower := binary_power op
    exact .binary ((l.operand hp hl).placed hp (.left op.punct) (by simp only [Position.Suits]; omega))
      ((r.operand hp hr).placed hp (.right op.punct) (by simp only [Position.Suits]; omega))
  | .property o k, hv => by
    obtain ⟨ho, hk⟩ := Bool.and_eq_true_iff.1 hv
    exact .index ((o.operand hp ho).placed hp (.left .leftBracket) (.inr (.inl (by decide))))
      ((k.operand hp hk).placed hp .whole trivial)
  | .assign op t v, hv => by
    obtain ⟨ht, hv⟩ := Bool.and_eq_true_iff.1 hv
    obtain ⟨htarget, ht⟩ := Bool.and_eq_true_iff.1 ht
    have hpower : (Kind.punct op.punct).power = 20 := by cases op <;> rfl
    have h := Operand.assign htarget
      ((t.operand hp ht).placed hp (.left op.punct) (.inr (.inr htarget)))
      ((v.operand hp hv).placed hp .part trivial)
    rwa [hpower] at h
  | .conditional c a b, hv => by
    obtain ⟨hv, hb⟩ := Bool.and_eq_true_iff.1 hv
    obtain ⟨hc, ha⟩ := Bool.and_eq_true_iff.1 hv
    exact .conditional ((c.operand hp hc).placed hp .test trivial)
      ((a.operand hp ha).placed hp .part trivial) ((b.operand hp hb).placed hp .part trivial)
  | .call f ts, hv => by
    obtain ⟨hf, hts⟩ := Bool.and_eq_true_iff.1 hv
    exact .call ((f.operand hp hf).placed hp (.left .leftParen) (.inr (.inl (by decide))))
      (arguments_operands hp ts hts)
  | .function name params body, hv => .function name (stmts_block hp false body hv)

theorem arguments_operands (hp : policy.Enough) : (ts : List Term) → termsValid ts = true →
    List.Forall₂ (fun ys e => Operand ys e (Kind.commaPower + 1) Kind.commaPower)
      (argumentPieces policy ts) (termNodes ts)
  | [], _ => .nil
  | t :: ts, hv => by
    obtain ⟨ht, hts⟩ := Bool.and_eq_true_iff.1 hv
    exact .cons ((t.operand hp ht).placed hp .part trivial) (arguments_operands hp ts hts)

theorem option_reads (hp : policy.Enough) : (o : Option Term) → optionValid o = true →
    OptionReads (optionPieces policy o) (optionNode o)
  | none, _ => rfl
  | some t, hv => ⟨(t.operand hp hv).placed hp .whole trivial, leads_wrap (t.leads policy)⟩

theorem declarator_reads (hp : policy.Enough) : (d : Name × Option Term) →
    declaratorValid d = true → ItemReads (declaratorText policy d) (.declarator (declaratorNode d))
  | (name, none), _ => declared_reads name
  | (name, some t), hv => initialised_reads name ((t.operand hp hv).placed hp .part trivial)

theorem declarators_reads (hp : policy.Enough) : (ds : List (Name × Option Term)) →
    declaratorsValid ds = true →
    List.Forall₂ ItemReads (declaratorPieces policy ds) ((declaratorNodes ds).map .declarator)
  | [], _ => .nil
  | d :: ds, hv => by
    obtain ⟨hd, hds⟩ := Bool.and_eq_true_iff.1 hv
    exact .cons (declarator_reads hp d hd) (declarators_reads hp ds hds)

theorem Stmt.reads (hp : policy.Enough) (inLoop : Bool) : (s : Stmt) → s.valid inLoop = true →
    StmtReads (s.pieces policy) inLoop s.endsOpen s.node
  | .expression t e, hv => by
    have h := (t.operand hp hv).whole
    unfold Stmt.pieces
    cases hflag : policy .whole t || opensFunction (t.pieces policy) with
    | true => exact .expression h.group (leads_inParens _) rfl
    | false => exact .expression h (t.leads policy) (Bool.or_eq_false_iff.1 hflag).2
  | .empty, _ => .empty
  | .block ss, hv => .block (stmts_block hp inLoop ss hv)
  | .vars d ds e, hv => by
    obtain ⟨hd, hds⟩ := Bool.and_eq_true_iff.1 hv
    exact .varList (List.cons_ne_nil _ _) (.cons (declarator_reads hp d hd) (declarators_reads hp ds hds))
  | .returning t e, hv => .returning (option_reads hp t hv)
  | .branch c s, hv => by
    obtain ⟨hc, hs⟩ := Bool.and_eq_true_iff.1 hv
    exact .branch ((c.operand hp hc).placed hp .whole trivial) (s.reads hp inLoop hs)
  | .branchElse c s s', hv => by
    obtain ⟨hv, hs'⟩ := Bool.and_eq_true_iff.1 hv
    obtain ⟨hv, hopen⟩ := Bool.and_eq_true_iff.1 hv
    obtain ⟨hc, hs⟩ := Bool.and_eq_true_iff.1 hv
    have h := s.reads hp inLoop hs
    rw [Bool.not_eq_true'] at hopen
    rw [hopen] at h
    exact .branchElse ((c.operand hp hc).placed hp .whole trivial) h (s'.reads hp inLoop hs')
  | .whileLoop c s, hv => by
    obtain ⟨hc, hs⟩ := Bool.and_eq_true_iff.1 hv
    exact .whileLoop ((c.operand hp hc).placed hp .whole trivial) (s.reads hp true hs)
  | .doWhileLoop c s e, hv => by
    obtain ⟨hc, hs⟩ := Bool.and_eq_true_iff.1 hv
    exact .doWhileLoop ((c.operand hp hc).placed hp .whole trivial) (s.reads hp true hs)
  | .forLoop i c u s, hv => by
    obtain ⟨hv, hs⟩ := Bool.and_eq_true_iff.1 hv
    obtain ⟨hv, hu⟩ := Bool.and_eq_true_iff.1 hv
    obtain ⟨hi, hc⟩ := Bool.and_eq_true_iff.1 hv
    exact .forLoop (fun post => forInit_reads (option_reads hp i hi)) (option_reads hp c hc)
      (option_reads hp u hu) (s.reads hp true hs)
  | .forVars d ds c u s, hv => by
    obtain ⟨hv, hs⟩ := Bool.and_eq_true_iff.1 hv
    obtain ⟨hv, hu⟩ := Bool.and_eq_true_iff.1 hv
    obtain ⟨hv, hc⟩ := Bool.and_eq_true_iff.1 hv
    obtain ⟨hd, hds⟩ := Bool.and_eq_true_iff.1 hv
    have hitems := List.Forall₂.cons (declarator_reads hp d hd) (declarators_reads hp ds hds)
    exact .forLoop (forVars_reads (List.cons_ne_nil _ _) hitems) (option_reads hp c hc) (option_reads hp u hu)
      (s.reads hp true hs)
  | .breakLoop e, hv => by
    cases inLoop with
    | true => exact .jump fun _ _ => .breakLoop
    | false => cases hv
  | .continueLoop e, hv => by
    cases inLoop with
    | true => exact .jump fun _ _ => .continueLoop
    | false => cases hv
  | .declaration name params body, hv => .declaration name (stmts_block hp false body hv)

theorem stmts_block (hp : policy.Enough) (inLoop : Bool) : (ss : List Stmt) →
    stmtsValid inLoop ss = true → BlockReads (stmtPieces policy ss) inLoop (stmtNodes ss)
  | [], _ => .nil
  | s :: ss, hv => by
    obtain ⟨hs, hss⟩ := Bool.and_eq_true_iff.1 hv
    exact .cons (s.reads hp inLoop hs) (stmts_block hp inLoop ss hss)

end

theorem stmts_program (hp : policy.Enough) : (ss : List Stmt) → stmtsValid false ss = true →
    ProgramReads (stmtPieces policy ss) (stmtNodes ss)
  | [], _ => .nil
  | s :: ss, hv => by
    obtain ⟨hs, hss⟩ := Bool.and_eq_true_iff.1 hv
    exact .cons (s.reads hp false hs) (stmts_program hp ss hss)

/-! ### Sources -/

theorem toList_render (ps : List Piece) : (render ps).toList = (textOf ps).tail := String.toList_ofList

theorem parseExpression_render (hp : policy.Enough) {t : Term} (hv : t.valid = true)
    (ha : admissible (t.pieces policy) = true) :
    parseExpression (render (t.pieces policy)) = .ok t.node := by
  have heof : Sees .operator (textOf []) .eof false [] := Sees.eof (by simp [textOf])
  have hr := (t.operand hp hv).whole.reads (by rwa [List.append_nil]) ⟨_, _, _, heof, rfl⟩
  rw [List.append_nil] at hr
  refine parseExpression_eq_ok_iff.2 ⟨_, _, _, ?_, heof⟩
  rw [toList_render]
  exact hr.resume_expression (resumes_tail _)

theorem stmtNodes_eq_map (ss : List Stmt) : stmtNodes ss = ss.map Stmt.node := by
  induction ss with
  | nil => rfl
  | cons s ss ih => rw [stmtNodes, ih, List.map_cons]

theorem stmtsValid_of_forall {inLoop : Bool} {ss : List Stmt} (h : ∀ s ∈ ss, s.valid inLoop = true) :
    stmtsValid inLoop ss = true := by
  induction ss with
  | nil => rfl
  | cons s ss ih =>
    obtain ⟨hs, hss⟩ := List.forall_mem_cons.1 h
    exact Bool.and_eq_true_iff.2 ⟨hs, ih hss⟩

/-- Every program is read back from its rendering, whatever endings its statements choose among those
that are admitted where they stand, and wherever parentheses stand beyond those required. -/
theorem parse_render {policy : Policy} (hp : policy.Enough) (p : List Stmt)
    (hv : ∀ s ∈ p, s.valid false = true) (ha : admissible (stmtPieces policy p) = true) :
    parse (render (stmtPieces policy p)) = .ok (p.map Stmt.node) := by
  obtain ⟨cs, hr⟩ := stmts_program hp p (stmtsValid_of_forall hv) ha
  obtain ⟨cs', hr'⟩ := hr.resume_program (resumes_tail _)
  refine parse_eq_ok_iff.2 ⟨cs', ?_⟩
  rw [toList_render, ← stmtNodes_eq_map]
  exact hr'

/-- A bare `return` and an update end at line breaks, the last statement at the end of the text. -/
theorem parse_render_lines : parse "if ( a ) return\n else b ++\n ++ b" =
    .ok [.branch (.identifier "a") (.returning none) (some (.update .postIncrement (.identifier "b"))),
      .update .preIncrement (.identifier "b")] := by
  let p : List Stmt :=
    [.branchElse (Name.term ⟨"a", rfl⟩) (.returning none .newline)
        (.expression (.update .postIncrement (Name.term ⟨"b", rfl⟩)) .newline),
      .expression (.update .preIncrement (Name.term ⟨"b", rfl⟩)) .nothing]
  have hr : render (stmtPieces generous p) = "if ( a ) return\n else b ++\n ++ b" := rfl
  rw [← hr]
  exact parse_render generous_enough p (by decide) (by decide +kernel)

/-! ### Expressions without functions -/

def Piece.isEnding : Piece → Bool
  | .ending _ => true
  | _ => false

/-- No statement ends among the pieces. -/
def plain (ps : List Piece) : Bool := ps.all fun x => !x.isEnding

theorem admissible_of_plain {ps : List Piece} (h : plain ps = true) : admissible ps = true := by
  induction ps with
  | nil => rfl
  | cons x ps ih =>
    obtain ⟨hx, hps⟩ := Bool.and_eq_true_iff.1 h
    cases x with
    | ending e => cases hx
    | _ => exact ih hps

theorem plain_append {ps qs : List Piece} (hps : plain ps = true) (hqs : plain qs = true) :
    plain (ps ++ qs) = true := by
  rw [plain, List.all_append]
  exact Bool.and_eq_true_iff.2 ⟨hps, hqs⟩

theorem plain_inParens {ps : List Piece} (h : plain ps = true) : plain (inParens ps) = true :=
  plain_append h rfl

theorem plain_wrap {flag : Bool} {ps : List Piece} (h : plain ps = true) : plain (wrap flag ps) = true := by
  cases flag with
  | false => exact h
  | true => exact plain_inParens h

theorem plain_separated {pss : List (List Piece)} (h : ∀ ps ∈ pss, plain ps = true) :
    plain (separated pss) = true := by
  induction pss with
  | nil => rfl
  | cons ps pss ih =>
    obtain ⟨hps, hpss⟩ := List.forall_mem_cons.1 h
    cases pss with
    | nil => exact hps
    | cons qs pss => exact plain_append hps (ih hpss)

mutual

theorem Term.plain_pieces (policy : Policy) : (t : Term) → t.functionFree = true →
    plain (t.pieces policy) = true
  | .leaf l, _ => rfl
  | .unary op t, hf => by
    have ht := t.plain_pieces policy hf
    cases op <;> exact plain_wrap ht
  | .update op t, hf => by
    have ht := t.plain_pieces policy hf
    cases op with
    | preIncrement | preDecrement => exact plain_wrap ht
    | postIncrement | postDecrement => exact plain_append (plain_wrap ht) rfl
  | .binary op l r, hf => by
    obtain ⟨hl, hr⟩ := Bool.and_eq_true_iff.1 hf
    exact plain_append (plain_wrap (l.plain_pieces policy hl)) (plain_wrap (r.plain_pieces policy hr))
  | .property o k, hf => by
    obtain ⟨ho, hk⟩ := Bool.and_eq_true_iff.1 hf
    exact plain_append (plain_wrap (o.plain_pieces policy ho))
      (plain_append (plain_wrap (k.plain_pieces policy hk)) rfl)
  | .assign op t v, hf => by
    obtain ⟨ht, hv⟩ := Bool.and_eq_true_iff.1 hf
    exact plain_append (plain_wrap (t.plain_pieces policy ht)) (plain_wrap (v.plain_pieces policy hv))
  | .conditional c a b, hf => by
    obtain ⟨hf, hb⟩ := Bool.and_eq_true_iff.1 hf
    obtain ⟨hc, ha⟩ := Bool.and_eq_true_iff.1 hf
    exact plain_append (plain_wrap (c.plain_pieces policy hc)) (plain_append
      (plain_wrap (a.plain_pieces policy ha)) (plain_wrap (b.plain_pieces policy hb)))
  | .call f ts, hf => by
    obtain ⟨hf, hts⟩ := Bool.and_eq_true_iff.1 hf
    exact plain_append (plain_wrap (f.plain_pieces policy hf))
      (plain_inParens (plain_separated (plain_argumentPieces policy ts hts)))
  | .function .., hf => by cases hf

theorem plain_argumentPieces (policy : Policy) : (ts : List Term) → termsFunctionFree ts = true →
    ∀ ps ∈ argumentPieces policy ts, plain ps = true
  | [], _ => fun _ h => by cases h
  | t :: ts, hf => by
    obtain ⟨ht, hts⟩ := Bool.and_eq_true_iff.1 hf
    exact List.forall_mem_cons.2 ⟨plain_wrap (t.plain_pieces policy ht), plain_argumentPieces policy ts hts⟩

end

/-- Precedence and associativity are those of the binding powers: an expression with parentheses only
where the powers require them is read back. -/
theorem parseExpression_render_minimal (t : Term) (hf : t.functionFree = true) (hv : t.valid = true) :
    parseExpression (render (t.pieces minimal)) = .ok t.node :=
  parseExpression_render minimal_enough hv (admissible_of_plain (t.plain_pieces minimal hf))

theorem parseExpression_render_minimal_difference : parseExpression "a - ( b - c )" =
    .ok (.binary .subtract (.identifier "a") (.binary .subtract (.identifier "b") (.identifier "c"))) := by
  let t : Term := .binary .subtract (Name.term ⟨"a", rfl⟩)
    (.binary .subtract (Name.term ⟨"b", rfl⟩) (Name.term ⟨"c", rfl⟩))
  have hr : render (t.pieces minimal) = "a - ( b - c )" := rfl
  rw [← hr]
  exact parseExpression_render_minimal t rfl rfl

end Scriptlet
