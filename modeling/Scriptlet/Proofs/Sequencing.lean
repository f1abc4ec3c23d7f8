import Scriptlet.Proofs.Completeness
import Scriptlet.Session

/-!
# One source after the other

Two programs joined by a semicolon are one program, and running it is running the one and then the
other. The parts of the first program are read as before: where they looked at the end of their text,
they now see the semicolon, which ends the same things. A statement that was ended by the end of the
text takes the semicolon as its own and leaves off right before the second program (`Joined`). Only the
`else` of a conditional is looked for beyond that, and no program starts with an `else`.
-/

namespace Scriptlet

open Text Token

/-- Nothing but blanks is left. -/
def AtEnd (cs : List Char) : Prop := ∀ c ∈ cs, isBlank c = true

section Reading

variable {b cs cs' rest : List Char} {k : Kind} {lb : Bool} {mode : Mode}

theorem detached_semicolon (b : List Char) : Detached (';' :: b) := detached_cons b (by decide)

theorem Sees.atEnd (h : Sees mode cs .eof lb rest) : AtEnd cs := by
  rcases h.shape with ⟨-, -, -, hcs⟩ | ⟨_, _, _, -, -, -, hr, -⟩
  · exact hcs
  · exact absurd rfl (rule?_kind hr).2

theorem Sees.not_atEnd (hs : Sees mode cs k lb rest) (hk : k ≠ .eof) : ¬ AtEnd cs :=
  fun hend => hk (hs.unique (Sees.eof hend)).1

/-- The next token stays the same, or the end of the text becomes a semicolon. -/
theorem Sees.join (b : List Char) (h : Sees mode cs k lb rest) :
    k ≠ .eof ∧ Sees mode (cs ++ ';' :: b) k lb (rest ++ ';' :: b) ∨
      k = .eof ∧ AtEnd cs ∧ Sees mode (cs ++ ';' :: b) (.punct .semicolon) lb b := by
  by_cases hk : k = .eof
  · subst hk
    exact .inr ⟨rfl, h.atEnd, h.semicolon b⟩
  · exact .inl ⟨hk, h.append (detached_semicolon b) hk⟩

/-- A token that is not the end of the text stays ahead. -/
theorem Sees.stay (b : List Char) (h : Sees mode cs k lb rest) (hk : k ≠ .eof) :
    Sees mode (cs ++ ';' :: b) k lb (rest ++ ';' :: b) :=
  h.append (detached_semicolon b) hk

/-- What was read up to `cs'` goes up to there, or at the end of the text it takes the semicolon. -/
def Ends (b cs' : List Char) (reads : List Char → Prop) : Prop :=
  reads (cs' ++ ';' :: b) ∨ AtEnd cs' ∧ reads b

theorem Ends.map {reads reads' : List Char → Prop} (h : Ends b cs' reads)
    (himp : ∀ rest, reads rest → reads' rest) : Ends b cs' reads' := by
  rcases h with h | ⟨hend, h⟩
  · exact .inl (himp _ h)
  · exact .inr ⟨hend, himp _ h⟩

/-- Before another token, the semicolon is not taken. -/
theorem Ends.before {reads : List Char → Prop} (h : Ends b cs' reads) (hend : ¬ AtEnd cs') :
    reads (cs' ++ ';' :: b) := by
  rcases h with h | ⟨hend', -⟩
  · exact h
  · exact absurd hend' hend

/-- What becomes of a phrase when a semicolon and the text `b` are appended. -/
def Joined (b : List Char) (p : Phrase) (cs cs' : List Char) : Prop :=
  match p with
  | .ending | .loopEnding | .statement .. | .opened .. => Ends b cs' (Reads p (cs ++ ';' :: b))
  | .optional k _ => k ≠ .eof → Reads p (cs ++ ';' :: b) (cs' ++ ';' :: b)
  | .program ss => ∀ q rest, Reads (.program q) b rest →
      ∃ e rest', (e = [] ∨ e = [.empty]) ∧ Reads (.program (ss ++ e ++ q)) (cs ++ ';' :: b) rest'
  | p => Reads p (cs ++ ';' :: b) (cs' ++ ';' :: b)

theorem Reads.expression_ne_eof {m : Nat} {e : Node} (h : Reads (.expression m e) cs cs')
    (hs : Sees .operand cs k lb rest) : k ≠ .eof := by
  obtain ⟨k', lb', rest', hs', hk⟩ := h.expression_starts
  rw [(hs.unique hs').1]
  rintro rfl
  cases hk

theorem Reads.statement_not_atEnd {inLoop : Bool} {s : Node} (h : Reads (.statement inLoop s) cs cs') :
    ¬ AtEnd cs := by
  obtain ⟨k, lb, rest, hs, hk⟩ := h.statement_starts
  exact hs.not_atEnd fun h => by cases h ▸ hk

theorem Reads.blockRest_not_atEnd {inLoop : Bool} {ss : List Node}
    (h : Reads (.blockRest inLoop ss) cs cs') : ¬ AtEnd cs := by
  obtain ⟨k, lb, rest, hs, hk, -⟩ := h.blockRest_starts
  exact hs.not_atEnd hk

theorem Reads.joined (hb : ∃ k lb rest, Sees .operand b k lb rest ∧ k ≠ .word .«else») {p : Phrase}
    (h : Reads p cs cs') : Joined b p cs cs' := by
  induction h with
  | expression hs ho _ iho ihs =>
    exact .expression (hs.stay b fun h => by cases h ▸ ho.operand_starts) iho ihs
  | leaf hk => exact .leaf hk
  | group _ hs ih => exact .group ih (hs.stay b Kind.noConfusion)
  | unary hop _ ih => exact .unary hop ih
  | updateBefore hop _ ht ih => exact .updateBefore hop ih ht
  | function _ ih => exact .function ih
  | stop hs hgo =>
    rcases hs.join b with ⟨-, hs'⟩ | ⟨-, -, hs'⟩
    · exact .stop hs' hgo
    · exact .stop hs' rfl
  | step hs hgo _ _ ih ihs =>
    refine .step (hs.stay b ?_) hgo ih ihs
    rintro rfl
    cases hgo
  | binary hop _ ih => exact .binary hop ih
  | assign hop ht _ ih => exact .assign hop ht ih
  | updateAfter hop ht => exact .updateAfter hop ht
  | conditional _ hs _ ih₁ ih₂ => exact .conditional ih₁ (hs.stay b Kind.noConfusion) ih₂
  | dot hs => exact .dot (hs.stay b Kind.noConfusion)
  | index _ hs ih => exact .index ih (hs.stay b Kind.noConfusion)
  | call _ ih => exact .call ih
  | argument _ ih => exact .argument ih
  | param hs => exact .param (hs.stay b Kind.noConfusion)
  | declared hs hs' hk =>
    have hname := hs.stay b Kind.noConfusion
    rcases hs'.join b with ⟨-, hs'⟩ | ⟨-, -, hs'⟩
    · exact .declared hname hs' hk
    · exact .declared hname hs' (by decide)
  | initialised hs hs' _ ih =>
    exact .initialised (hs.stay b Kind.noConfusion) (hs'.stay b Kind.noConfusion) ih
  | single _ hs hk ih =>
    rcases hs.join b with ⟨-, hs'⟩ | ⟨-, -, hs'⟩
    · exact .single ih hs' hk
    · exact .single ih hs' (by decide)
  | more _ hs _ ih ihs => exact .more ih (hs.stay b Kind.noConfusion) ihs
  | noItems hs => exact .noItems (hs.stay b Kind.noConfusion)
  | someItems hs hk _ hs' ih =>
    have hclose := hs'.stay b Kind.noConfusion
    rcases hs.join b with ⟨-, hs⟩ | ⟨-, -, hs⟩
    · exact .someItems hs hk ih hclose
    · exact .someItems hs (by decide) ih hclose
  | named hs hs' _ _ ih ihb =>
    exact .named (hs.stay b Kind.noConfusion) (hs'.stay b Kind.noConfusion) ih ihb
  | anonymous hs _ _ ih ihb => exact .anonymous (hs.stay b Kind.noConfusion) ih ihb
  | block hs _ ih => exact .block (hs.stay b Kind.noConfusion) ih
  | blockEnd hs => exact .blockEnd (hs.stay b Kind.noConfusion)
  | blockMore _ hss ih ihs =>
    exact .blockMore (ih.before hss.blockRest_not_atEnd) ihs
  | condition hs _ hs' ih => exact .condition (hs.stay b Kind.noConfusion) ih (hs'.stay b Kind.noConfusion)
  | absent hs => exact fun hk => .absent (hs.stay b hk)
  | present hs hk he ih => exact fun _ => .present (hs.stay b (he.expression_ne_eof hs)) hk ih
  | forVar hs _ ih => exact .forVar (hs.stay b Kind.noConfusion) ih
  | forOther hs hk _ ih =>
    have ih := ih Kind.noConfusion
    rcases hs.join b with ⟨-, hs⟩ | ⟨-, -, hs⟩
    · exact .forOther hs hk ih
    · exact .forOther hs (by decide) ih
  | semicolon hs => exact .inl (.semicolon (hs.stay b Kind.noConfusion))
  | inserted hs hk hends =>
    -- what the end of the text ended, the semicolon ends
    rcases hs.join b with ⟨-, hs'⟩ | ⟨-, hend, hs'⟩
    · exact .inl (.inserted hs' hk hends)
    · exact .inr ⟨hend, .semicolon hs'⟩
  | loopSemicolon hs => exact .inl (.loopSemicolon (hs.stay b Kind.noConfusion))
  | loopBare hs hk =>
    rcases hs.join b with ⟨-, hs'⟩ | ⟨-, hend, hs'⟩
    · exact .inl (.loopBare hs' hk)
    · exact .inr ⟨hend, .loopSemicolon hs'⟩
  | expressionStatement hs hk he _ ih ihend =>
    have hs' := hs.stay b (he.expression_ne_eof hs)
    exact ihend.map fun _ hend => .expressionStatement hs' hk ih hend
  | opened hs ho ih =>
    have hs' := hs.stay b fun h => by cases h ▸ ho.opened_opens
    exact ih.map fun _ ho' => .opened hs' ho'
  | empty => exact .inl .empty
  | blockStatement _ ih => exact .inl (.blockStatement ih)
  | returnNothing hs hk =>
    rcases hs.join b with ⟨-, hs'⟩ | ⟨-, -, hs'⟩
    · exact .returnNothing hs' hk
    · exact .returnNothing hs' (by simp [Kind.endsReturn])
  | returnSome hs hk he ih => exact .returnSome (hs.stay b (he.expression_ne_eof hs)) hk ih
  | returning _ _ ih ihend => exact ihend.map fun _ hend => .returning ih hend
  | breakLoop _ ih => exact ih.map fun _ hend => .breakLoop hend
  | continueLoop _ ih => exact ih.map fun _ hend => .continueLoop hend
  | branch _ _ hs hk ihc ihs =>
    rcases ihs with ihs | ⟨hend, ihs⟩
    · rcases hs.join b with ⟨-, hs'⟩ | ⟨-, -, hs'⟩
      · exact .inl (.branch ihc ihs hs' hk)
      · exact .inl (.branch ihc ihs hs' Kind.noConfusion)
    · -- the consequent took the semicolon, so the look for an `else` meets the second program
      obtain ⟨k, lb, rest, hb, hk⟩ := hb
      exact .inr ⟨hend, .branch ihc ihs hb hk⟩
  | branchElse _ _ hs _ ihc ihs ihs' =>
    have ihs := ihs.before (hs.not_atEnd Kind.noConfusion)
    exact ihs'.map fun _ hs' => .branchElse ihc ihs (hs.stay b Kind.noConfusion) hs'
  | whileLoop _ _ ihc ihs => exact ihs.map fun _ hs => .whileLoop ihc hs
  | doWhileLoop _ hs _ _ ihs ihc ihend =>
    have ihs := ihs.before (hs.not_atEnd Kind.noConfusion)
    exact ihend.map fun _ hend => .doWhileLoop ihs (hs.stay b Kind.noConfusion) ihc hend
  | forLoop s₁ _ s₃ _ s₅ _ s₇ _ ih₂ ih₄ ih₆ ih₈ =>
    exact ih₈.map fun _ hs => .forLoop (s₁.stay b Kind.noConfusion) ih₂ (s₃.stay b Kind.noConfusion)
      (ih₄ Kind.noConfusion) (s₅.stay b Kind.noConfusion) (ih₆ Kind.noConfusion)
      (s₇.stay b Kind.noConfusion) hs
  | varList _ _ ih ihend => exact ihend.map fun _ hend => .varList ih hend
  | declaration _ ih => exact .inl (.declaration ih)
  | programEnd hs =>
    -- no statement takes the semicolon, so it is one of its own
    intro q rest hq
    have hs' := hs.semicolon b
    exact ⟨[.empty], rest, .inr rfl, .programMore (.opened hs' .empty) hq⟩
  | programMore _ hss ih ihs =>
    intro q rest hq
    rcases ih with ih | ⟨hend, ih⟩
    · obtain ⟨e, rest', he, hr⟩ := ihs q rest hq
      exact ⟨e, rest', he, .programMore ih hr⟩
    · -- the statement took the semicolon: it was the last one, and `q` comes right behind it
      cases hss with
      | programEnd => exact ⟨[], rest, .inl rfl, .programMore ih hq⟩
      | programMore hs => exact absurd hend hs.statement_not_atEnd

end Reading

theorem parse_join {a b : String} {p q : Program} (ha : parse a = .ok p) (hb : parse b = .ok q) :
    ∃ e, (e = [] ∨ e = [.empty]) ∧ parse (a ++ ";" ++ b) = .ok (p ++ e ++ q) := by
  obtain ⟨rest, hp⟩ := parse_eq_ok_iff.1 ha
  obtain ⟨rest', hq⟩ := parse_eq_ok_iff.1 hb
  obtain ⟨e, rest'', he, hr⟩ := hp.joined hq.program_starts q rest' hq
  refine ⟨e, he, parse_eq_ok_iff.2 ⟨rest'', ?_⟩⟩
  have htext : (a ++ ";" ++ b).toList = a.toList ++ ';' :: b.toList := by simp
  rw [htext]
  exact hr

/-! ### Running -/

namespace Eval

variable {exec : Exec} {env : FrameId} {st st' : Store}

theorem statements_cons (last : Value) (s : Node) (p : List Node) (st : Store) :
    statements exec env last (s :: p) st =
      match exec s env st with
      | .ok (.normal v) st' => statements exec env v p st'
      | other => other := by
  simp only [statements, bind, EStateM.bind]
  cases exec s env st with
  | error halt st' => rfl
  | ok c st' => cases c <;> rfl

/-- Statements run one list after the other, up to the first that completes abruptly. -/
theorem statements_append (last : Value) (p q : List Node) (st : Store) :
    statements exec env last (p ++ q) st =
      match statements exec env last p st with
      | .ok (.normal v) st' => statements exec env v q st'
      | other => other := by
  induction p generalizing last st with
  | nil => rfl
  | cons s p ih =>
    rw [List.cons_append, statements_cons, statements_cons]
    cases exec s env st with
    | error halt st' => rfl
    | ok c st' =>
      cases c with
      | normal v => exact ih v st'
      | returned | broken | continued => rfl

/-- The value that statements start with is lost if there is one among them. -/
theorem statements_last {q : List Node} (hq : q ≠ []) (v w : Value) :
    statements exec env v q = statements exec env w q := by
  cases q with
  | nil => exact absurd rfl hq
  | cons s q => rfl

/-- An empty statement between two lists changes nothing. At the bound zero neither list runs. -/
theorem statements_separated {e q : List Node} (he : e = [] ∨ e = [.empty]) (hq : q ≠ []) (limit : Nat)
    (v w : Value) : statements (Eval.exec limit) env v (e ++ q) = statements (Eval.exec limit) env w q := by
  rcases he with rfl | rfl
  · exact statements_last hq v w
  · cases limit with
    | zero =>
      cases q with
      | nil => exact absurd rfl hq
      | cons s q => rfl
    | succ n => exact statements_last hq .undefined w

theorem program_eq (limit : Nat) (p : Program) (env : FrameId) (st : Store) :
    program limit p env st =
      match statements (Eval.exec limit) env .undefined p st with
      | .ok c st' => result c st'
      | .error halt st' => .error halt st' := by
  show EStateM.bind _ _ st = _
  unfold EStateM.bind
  cases statements (Eval.exec limit) env .undefined p st <;> rfl

end Eval

namespace Session

variable {limit : Nat} {s : Session} {p q : Program}

/-- How the statements of a program complete in a session. -/
def completes (limit : Nat) (s : Session) (p : Program) : EStateM.Result Halt Store Completion :=
  Eval.statements (Eval.exec limit) s.global .undefined p s.store

/-- The program ends at a `return` of `v` outside of all functions. -/
def Returns (limit : Nat) (s : Session) (p : Program) (v : Value) : Prop :=
  ∃ st, s.completes limit p = .ok (.returned v) st

theorem eval_eq {source : String} (h : parse source = .ok p) :
    s.eval limit source = s.perform (Eval.program limit p) := by
  simp only [eval, perform, Run.source, h, Run.ofParsed]

theorem perform_congr {f g : FrameId → Run Value} (h : f s.global s.store = g s.global s.store) :
    s.perform f = s.perform g := by
  unfold perform
  rw [h]

theorem perform_of_ok {c : Completion} {st : Store} (h : s.completes limit p = .ok c st) :
    s.perform (Eval.program limit p) =
      (match c with
        | .normal v | .returned v => .value v
        | .broken | .continued => .error (.internal .strayJump), { s with store := st }) := by
  unfold completes at h
  unfold perform
  rw [Eval.program_eq, h]
  cases c <;> rfl

theorem perform_of_error {halt : Halt} {st : Store} (h : s.completes limit p = .error halt st) (v : Value) :
    (s.perform (Eval.program limit p)).1 ≠ .value v := by
  unfold completes at h
  unfold perform
  rw [Eval.program_eq, h]
  cases halt <;> exact Outcome.noConfusion

/-- After a program that does not run to its end, nothing runs. -/
theorem perform_append_of_abrupt (hp : ∀ v st, s.completes limit p ≠ .ok (.normal v) st) :
    s.perform (Eval.program limit (p ++ q)) = s.perform (Eval.program limit p) := by
  refine perform_congr ?_
  have happ : s.completes limit (p ++ q) = s.completes limit p := by
    unfold completes at hp ⊢
    rw [Eval.statements_append]
    split
    next v st h => exact absurd h (hp v st)
    · rfl
  unfold completes at happ
  rw [Eval.program_eq, Eval.program_eq, happ]

/-- After a program that runs to its end, the next one runs in the store that it left. -/
theorem perform_append_of_normal {v : Value} {st : Store} {e : List Node}
    (hp : s.completes limit p = .ok (.normal v) st) (he : e = [] ∨ e = [.empty]) (hq : q ≠ []) :
    s.perform (Eval.program limit (p ++ (e ++ q))) =
      ({ s with store := st } : Session).perform (Eval.program limit q) := by
  have happ : Eval.program limit (p ++ (e ++ q)) s.global s.store = Eval.program limit q s.global st := by
    unfold completes at hp
    rw [Eval.program_eq, Eval.program_eq, Eval.statements_append, hp]
    simp only [Eval.statements_separated he hq limit v .undefined]
  unfold perform
  rw [happ]

end Session

/-- One evaluation of two sources joined by a semicolon is the evaluation of the one and then of the
other, unless the first one fails or returns. -/
theorem eval_join {a b : String} {p q : Program} (ha : parse a = .ok p) (hb : parse b = .ok q) :
    ∃ e, (e = [] ∨ e = [.empty]) ∧ parse (a ++ ";" ++ b) = .ok (p ++ e ++ q) ∧
      (q ≠ [] → ∀ (limit : Nat) (s : Session),
        (∀ err, (s.eval limit a).1 = .error err → s.eval limit (a ++ ";" ++ b) = s.eval limit a) ∧
        ((s.eval limit a).1 = .exhausted → s.eval limit (a ++ ";" ++ b) = s.eval limit a) ∧
        (∀ v, s.Returns limit p v → (s.eval limit (a ++ ";" ++ b)).1 = .value v ∧
          (s.eval limit (a ++ ";" ++ b)).2 = (s.eval limit a).2) ∧
        (∀ v, (s.eval limit a).1 = .value v → (∀ w, ¬ s.Returns limit p w) →
          s.eval limit (a ++ ";" ++ b) = (s.eval limit a).2.eval limit b)) := by
  obtain ⟨e, he, hparse⟩ := parse_join ha hb
  refine ⟨e, he, hparse, fun hq limit s => ?_⟩
  rw [Session.eval_eq ha, Session.eval_eq hparse, Session.eval_eq hb, List.append_assoc]
  have habrupt (hp : ∀ v st, s.completes limit p ≠ .ok (.normal v) st) :
      s.perform (Eval.program limit (p ++ (e ++ q))) = s.perform (Eval.program limit p) :=
    Session.perform_append_of_abrupt hp
  refine ⟨fun err herr => habrupt fun v st hp => ?_, fun hex => habrupt fun v st hp => ?_, ?_, ?_⟩
  · rw [Session.perform_of_ok hp] at herr
    cases herr
  · rw [Session.perform_of_ok hp] at hex
    cases hex
  · rintro v ⟨st, hp⟩
    have habs : ∀ w st', s.completes limit p ≠ .ok (.normal w) st' := fun w st' h => by
      rw [hp] at h
      cases h
    rw [habrupt habs, Session.perform_of_ok hp]
    exact ⟨rfl, rfl⟩
  · intro v hv hreturn
    cases hp : s.completes limit p with
    | error halt st => exact absurd hv (Session.perform_of_error hp v)
    | ok c st =>
      have hfirst := Session.perform_of_ok hp
      cases c with
      | normal w => rw [Session.perform_append_of_normal hp he hq, hfirst]
      | returned w => exact absurd ⟨st, hp⟩ (hreturn w)
      | broken | continued => rw [hfirst] at hv; cases hv

/-- A declaration, and then a call of what it declares. -/
theorem eval_join_call : Session.new.eval 9 ("function f()\x7b\x7d" ++ ";" ++ "f()") =
    (Session.new.eval 9 "function f()\x7b\x7d").2.eval 9 "f()" := by
  have ha : parse "function f()\x7b\x7d" = .ok [.declaration (some "f") [] []] := by cbv
  have hb : parse "f()" = .ok [.call (.identifier "f") []] := by cbv
  obtain ⟨e, -, -, h⟩ := eval_join ha hb
  obtain ⟨-, -, -, hnext⟩ := h (List.cons_ne_nil _ _) 9 Session.new
  refine hnext (.function ⟨0, some "f", [], [], 0, false⟩) ?_ ?_
  · rw [Session.eval_eq ha]
    rfl
  · rintro w ⟨st, hw⟩
    cases hw

end Scriptlet
