import Scriptlet.Proofs.Loops

/-!
# How control comes to a `return`

A statement runs the statements inside of it: a block those in its list, one after the other, a branch one of two,
a loop its body, round after round. `Control.Enters` says from which one control goes on to which, and in which store
it comes there. A `return` that control comes to so is carried through all of them, and nothing behind it runs
(`Control.Enters.returned`); and what completes with a `return` has come to one (`exists_returning`). The first part
of a `for` loop is not among the statements inside of it: it is a declaration or an expression.
-/

namespace Scriptlet

open Run Eval Relation

namespace Run

variable {α β : Type}

/-- One run after another that gives a result has given one at the first. -/
theorem exists_of_bind_eq_ok {r : Run α} {f : α → Run β} {st st' : Store} {b : β} (h : (r >>= f) st = .ok b st') :
    ∃ a st₁, r st = .ok a st₁ ∧ f a st₁ = .ok b st' := by
  change EStateM.bind r f st = _ at h
  unfold EStateM.bind at h
  split at h
  next a st₁ hr => exact ⟨a, st₁, hr, h⟩
  · cases h

theorem bind_of_eq_ok {r : Run α} {f : α → Run β} {st st' : Store} {a : α} (h : r st = .ok a st') :
    (r >>= f) st = f a st' := by
  change EStateM.bind r f st = _
  rw [EStateM.bind, h]

end Run

/-- The statements run in the frame from the store `st`, they complete or fail with `o` and leave the store `st'`. -/
def Program.Ends (p : Program) (env : FrameId) (st : Store) (o : Except Error Completion) (st' : Store) : Prop :=
  Run.Ends (fun limit => statements (exec limit) env .undefined p) st o st'

/-- A node that is about to run in a frame, and the store that it is to find. -/
structure Control where
  node : Node
  env : FrameId
  store : Store

namespace Node

/-- From one body of a loop to the next one: the body completes, the update runs and the test holds. -/
def NextRound (test update : Option Node) (body : Node) (env : FrameId) (st st' : Store) : Prop :=
  ∃ c st₁ u st₂, body.Ends env st (.ok c) st₁ ∧ ((∃ v, c = .normal v) ∨ c = .continued) ∧
    Run.Ends (fun limit => optionalValue (exec limit) update env) st₁ (.ok u) st₂ ∧
    Run.Ends (fun limit => holds (exec limit) test env) st₂ (.ok true) st'

/-- Run one after the other from the store `st`, the statements complete normally up to the one that is about to
run. -/
inductive ComesTo (env : FrameId) : List Node → Store → Control → Prop where
  | here {s : Node} {ss : List Node} {st : Store} : ComesTo env (s :: ss) st ⟨s, env, st⟩
  | next {s : Node} {ss : List Node} {st st₁ : Store} {v : Value} {p : Control} :
      s.Ends env st (.ok (.normal v)) st₁ → ComesTo env ss st₁ p → ComesTo env (s :: ss) st p

end Node

open Node

/-- The node that is about to run comes to run a statement inside of it. -/
inductive Control.Enters : Control → Control → Prop where
  | block {nodes : List Node} {env : FrameId} {st : Store} {p : Control} :
      ComesTo (st.newChild env).1 nodes (st.newChild env).2 p → Enters ⟨.block nodes, env, st⟩ p
  | consequent {test s : Node} {s' : Option Node} {env : FrameId} {st st' : Store} {v : Value} :
      test.Yields env st (.ok v) st' → v.toBoolean = true → Enters ⟨.branch test s s', env, st⟩ ⟨s, env, st'⟩
  | alternate {test s s' : Node} {env : FrameId} {st st' : Store} {v : Value} :
      test.Yields env st (.ok v) st' → v.toBoolean = false → Enters ⟨.branch test s (some s'), env, st⟩ ⟨s', env, st'⟩
  | whileLoop {test body : Node} {env : FrameId} {st st₁ st' : Store} :
      Run.Ends (fun limit => holds (exec limit) (some test) env) st (.ok true) st₁ →
      ReflTransGen (NextRound (some test) none body env) st₁ st' →
      Enters ⟨.whileLoop test body, env, st⟩ ⟨body, env, st'⟩
  | doWhileLoop {test body : Node} {env : FrameId} {st st' : Store} :
      ReflTransGen (NextRound (some test) none body env) st st' →
      Enters ⟨.doWhileLoop test body, env, st⟩ ⟨body, env, st'⟩
  | forLoop {first test update : Option Node} {body : Node} {env : FrameId} {st st₁ st₂ st' : Store} :
      Run.Ends (fun limit => init (exec limit) first env) st (.ok ()) st₁ →
      Run.Ends (fun limit => holds (exec limit) test env) st₁ (.ok true) st₂ →
      ReflTransGen (NextRound test update body env) st₂ st' →
      Enters ⟨.forLoop first test update body, env, st⟩ ⟨body, env, st'⟩

/-! ### Lists -/

namespace Eval

theorem growing_statements (nodes : List Node) (env : FrameId) (last : Value) :
    Growing fun limit => statements (exec limit) env last nodes :=
  fun _ _ h => statements_prolonged (exec_prolonged h)

theorem growing_holds (test : Option Node) (env : FrameId) : Growing fun limit => holds (exec limit) test env :=
  fun _ _ h => holds_prolonged (exec_prolonged h)

theorem growing_optionalValue (node : Option Node) (env : FrameId) :
    Growing fun limit => optionalValue (exec limit) node env :=
  fun _ _ h => optionalValue_prolonged (exec_prolonged h)

theorem growing_init (first : Option Node) (env : FrameId) : Growing fun limit => init (exec limit) first env :=
  fun _ _ h => init_prolonged (exec_prolonged h)

variable {env : FrameId} {nodes : List Node} {st st' : Store} {v last : Value} {p : Control}

/-- A list ends as its first statement does if that returns, and as the rest does behind a value. -/
theorem ends_statements_cons {s : Node} {o : Except Error Completion}
    (h : (∃ w st₁, s.Ends env st (.ok (.normal w)) st₁ ∧
        Run.Ends (fun limit => statements (exec limit) env w nodes) st₁ o st') ∨
      ∃ v, o = .ok (.returned v) ∧ s.Ends env st o st') :
    Run.Ends (fun limit => statements (exec limit) env last (s :: nodes)) st o st' := by
  refine (ends_bind (growing_exec s env) fun c => ?_).2 (.inr ?_)
  · cases c with
    | normal w => exact growing_statements nodes env w
    | returned | broken | continued => exact .const _
  · rcases h with ⟨w, st₁, hs, h⟩ | ⟨v, rfl, hs⟩
    · exact ⟨_, st₁, hs, h⟩
    · exact ⟨_, st', hs, ends_pure.2 ⟨rfl, rfl⟩⟩

/-- A list returns what a statement in it returns that control comes to. -/
theorem ends_of_comesTo (h : ComesTo env nodes st p) (hp : p.node.Ends p.env p.store (.ok (.returned v)) st')
    (last : Value) : Run.Ends (fun limit => statements (exec limit) env last nodes) st (.ok (.returned v)) st' := by
  induction h generalizing last with
  | here => exact ends_statements_cons (.inr ⟨v, rfl, hp⟩)
  | next hs _ ih => exact ends_statements_cons (.inl ⟨_, _, hs, ih hp _⟩)

/-- A list that returns has come to a statement that does. -/
theorem exists_comesTo {n : Nat} (h : statements (exec n) env last nodes st = .ok (.returned v) st') :
    ∃ p, ComesTo env nodes st p ∧ exec n p.node p.env p.store = .ok (.returned v) st' := by
  induction nodes generalizing last st with
  | nil => cases h
  | cons s ss ih =>
    obtain ⟨c, st₁, hs, h⟩ := exists_of_bind_eq_ok h
    cases c with
    | normal w =>
      obtain ⟨p, hp, he⟩ := ih h
      exact ⟨p, .next ⟨n, hs⟩ hp, he⟩
    | returned w =>
      cases h
      exact ⟨_, .here, hs⟩
    | broken | continued => cases h

end Eval

/-! ### Loops -/

namespace Eval

variable {exec : Exec} {test update : Option Node} {body : Node} {env : FrameId} {last : Value} {n : Nat}

/-- A loop from one of its bodies on. -/
def fromBody (exec : Exec) (test update : Option Node) (body : Node) (env : FrameId) (n : Nat) (last : Value) :
    Run Completion := do
  match loopStep last (← exec body env) with
  | .next last =>
    let _ ← optionalValue exec update env
    forRounds exec test update body env n last
  | .exit last => return .normal last
  | .propagate c => return c

theorem fromBody_prolonged {exec' : Exec} (hx : exec.Prolonged exec') {m : Nat} (h : m ≤ n) :
    Prolonged (fromBody exec test update body env m last) (fromBody exec' test update body env n last) := by
  refine (hx body env).bind fun c => ?_
  cases c with
  | normal | continued => exact (optionalValue_prolonged hx).bind fun _ => forRounds_prolonged hx h
  | broken | returned => exact .refl _

/-- A loop without an update goes on behind its body as a `while` loop does. -/
theorem fromBody_eq_whileRounds {test : Node} : fromBody exec (some test) none body env n last = do
    match loopStep last (← exec body env) with
    | .next last => whileRounds exec test body env n last
    | .exit last => return .normal last
    | .propagate c => return c := by
  simp only [fromBody, optionalValue, pure_bind, forRounds_eq_whileRounds]

/-- A loop that is tested after each round does no more from a body on than one that is tested before. -/
theorem doWhile_prolonged_fromBody {test : Node} :
    Prolonged (doWhileRounds exec test body env (n + 1) last)
      (fromBody exec (some test) none body env (n + 1) last) := by
  rw [doWhileRounds_succ, fromBody_eq_whileRounds]
  refine (Prolonged.refl _).bind fun c => ?_
  cases c with
  | normal v => exact behindBody_prolonged_whileRounds n v
  | continued => exact behindBody_prolonged_whileRounds n last
  | broken | returned => exact .refl _

/-- Nor does it less. -/
theorem fromBody_prolonged_doWhileRounds {test : Node} :
    Prolonged (fromBody exec (some test) none body env n last) (doWhileRounds exec test body env (n + 1) last) := by
  rw [doWhileRounds_succ, fromBody_eq_whileRounds]
  refine (Prolonged.refl _).bind fun c => ?_
  cases c with
  | normal v => exact whileRounds_prolonged_behindBody n v
  | continued => exact whileRounds_prolonged_behindBody n last
  | broken | returned => exact .refl _

end Eval

namespace Node

variable {test update : Option Node} {body : Node} {env : FrameId} {st st₁ st' : Store} {v last : Value}

theorem growing_forRounds (last : Value) :
    Growing fun limit => forRounds (exec limit) test update body env limit last :=
  fun _ _ h => forRounds_prolonged (exec_prolonged h) h

theorem growing_fromBody (last : Value) :
    Growing fun limit => fromBody (exec limit) test update body env limit last :=
  fun _ _ h => fromBody_prolonged (exec_prolonged h) h

/-- Before a round whose test holds, a loop ends as it does from the body on. -/
theorem ends_forRounds_of_holds {o : Except Error Completion}
    (ht : Run.Ends (fun limit => holds (exec limit) test env) st (.ok true) st₁)
    (h : Run.Ends (fun limit => fromBody (exec limit) test update body env limit last) st₁ o st') :
    Run.Ends (fun limit => forRounds (exec limit) test update body env limit last) st o st' := by
  have hround : Run.Ends (fun limit => forRounds (exec limit) test update body env (limit + 1) last) st o st' := by
    have hnext : ∀ b : Bool, Growing fun limit =>
        if b then fromBody (exec limit) test update body env limit last else pure (.normal last) := by
      intro b
      cases b with
      | true => exact growing_fromBody last
      | false => exact .const _
    exact (ends_bind (growing_holds test env) hnext).2 (.inr ⟨true, st₁, ht, h⟩)
  obtain ⟨limit, hl⟩ := hround
  exact ⟨limit + 1, (forRounds_prolonged (exec_prolonged (Nat.le_succ limit)) le_rfl).ends hl⟩

/-- A loop ends as its first body does if that returns, and else as its next rounds do unless the body breaks. -/
theorem ends_fromBody_round {o : Except Error Completion}
    (h : (∃ c st₁, body.Ends env st (.ok c) st₁ ∧ ((∃ w, c = .normal w) ∨ c = .continued) ∧
        ∀ w, Run.Ends (fun limit => optionalValue (exec limit) update env >>= fun _ =>
          forRounds (exec limit) test update body env limit w) st₁ o st') ∨
      ∃ v, o = .ok (.returned v) ∧ body.Ends env st o st') :
    Run.Ends (fun limit => fromBody (exec limit) test update body env limit last) st o st' := by
  have hrest : ∀ w : Value, Growing fun limit =>
      optionalValue (exec limit) update env >>= fun _ => forRounds (exec limit) test update body env limit w :=
    fun w => (growing_optionalValue update env).bind fun _ => growing_forRounds w
  refine (ends_bind (growing_exec body env) fun c => ?_).2 (.inr ?_)
  · cases c with
    | normal w => exact hrest w
    | continued => exact hrest last
    | broken | returned => exact .const _
  · rcases h with ⟨c, st₁, hb, ⟨w, rfl⟩ | rfl, h⟩ | ⟨v, rfl, hb⟩
    · exact ⟨_, st₁, hb, h w⟩
    · exact ⟨_, st₁, hb, h last⟩
    · exact ⟨_, st', hb, ends_pure.2 ⟨rfl, rfl⟩⟩

/-- A loop returns what a later one of its bodies returns. -/
theorem ends_fromBody (h : ReflTransGen (NextRound test update body env) st st₁)
    (hb : body.Ends env st₁ (.ok (.returned v)) st') (last : Value) :
    Run.Ends (fun limit => fromBody (exec limit) test update body env limit last) st (.ok (.returned v)) st' := by
  induction h using ReflTransGen.head_induction_on generalizing last with
  | refl => exact ends_fromBody_round (.inr ⟨v, rfl, hb⟩)
  | head hround _ ih =>
    obtain ⟨c, st₂, u, st₃, hbody, hc, hu, ht⟩ := hround
    refine ends_fromBody_round (.inl ⟨c, st₂, hbody, hc, fun w => ?_⟩)
    exact (ends_bind (growing_optionalValue update env) fun _ => growing_forRounds w).2
      (.inr ⟨u, st₃, hu, ends_forRounds_of_holds ht (ih w)⟩)

/-- Rounds that return begin with a test that holds. -/
theorem holds_of_forRounds {k n : Nat}
    (h : forRounds (exec k) test update body env n last st = .ok (.returned v) st') :
    ∃ m st₁, n = m + 1 ∧ holds (exec k) test env st = .ok true st₁ ∧
      fromBody (exec k) test update body env m last st₁ = .ok (.returned v) st' := by
  cases n with
  | zero => cases h
  | succ n =>
    obtain ⟨b, st₁, ht, h⟩ := exists_of_bind_eq_ok h
    cases b with
    | true => exact ⟨n, st₁, rfl, ht, h⟩
    | false => cases h

/-- A loop that returns from its first body on does so in a later one. -/
theorem exists_later_body {k n : Nat}
    (h : fromBody (exec k) test update body env n last st = .ok (.returned v) st') :
    ∃ st₁, ReflTransGen (NextRound test update body env) st st₁ ∧ exec k body env st₁ = .ok (.returned v) st' := by
  -- a round that goes on leaves fewer of them
  induction n using Nat.strong_induction_on generalizing st last with
  | _ n ih =>
    obtain ⟨c, st₁, hb, h⟩ := exists_of_bind_eq_ok h
    have hround : ∀ (w : Value) (hc : (∃ v, c = .normal v) ∨ c = .continued),
        (optionalValue (exec k) update env >>= fun _ => forRounds (exec k) test update body env n w) st₁ =
          .ok (.returned v) st' →
        ∃ st₁, ReflTransGen (NextRound test update body env) st st₁ ∧
          exec k body env st₁ = .ok (.returned v) st' := by
      intro w hc h
      obtain ⟨u, st₂, hu, h⟩ := exists_of_bind_eq_ok h
      obtain ⟨m, st₃, rfl, ht, h⟩ := holds_of_forRounds h
      obtain ⟨st₄, hr, he⟩ := ih m (Nat.lt_succ_self m) h
      exact ⟨st₄, .head ⟨c, st₁, u, st₂, ⟨k, hb⟩, hc, ⟨k, hu⟩, ⟨k, ht⟩⟩ hr, he⟩
    cases c with
    | normal w => exact hround w (.inl ⟨w, rfl⟩) h
    | continued => exact hround last (.inr rfl) h
    | returned w =>
      cases h
      exact ⟨st, .refl, hb⟩
    | broken => cases h

theorem exists_body_of_forRounds {k n : Nat}
    (h : forRounds (exec k) test update body env n last st = .ok (.returned v) st') :
    ∃ st₁ st₂, Run.Ends (fun limit => holds (exec limit) test env) st (.ok true) st₁ ∧
      ReflTransGen (NextRound test update body env) st₁ st₂ ∧ exec k body env st₂ = .ok (.returned v) st' := by
  obtain ⟨m, st₁, rfl, ht, h⟩ := holds_of_forRounds h
  obtain ⟨st₂, hr, he⟩ := exists_later_body h
  exact ⟨st₁, st₂, ⟨k, ht⟩, hr, he⟩

end Node

/-! ### Statements -/

namespace Eval

/-- The branch of a conditional that the value of its test chooses. -/
def chosen (exec : Exec) (s : Node) (s' : Option Node) (env : FrameId) (v : Value) : Run Completion :=
  if v.toBoolean then exec s env
  else match s' with
    | some s' => exec s' env
    | none => return .normal .undefined

theorem growing_chosen (s : Node) (s' : Option Node) (env : FrameId) (v : Value) :
    Growing fun limit => chosen (exec limit) s s' env v := by
  intro m n h
  unfold chosen
  split
  · exact exec_prolonged h s env
  · cases s' with
    | some s' => exact exec_prolonged h s' env
    | none => exact .refl _

end Eval

namespace Control

variable {p q : Control} {v : Value} {st' : Store}

/-- What a statement inside of a node returns, the node returns, and nothing behind it runs. -/
theorem Enters.returned (h : p.Enters q) (hq : q.node.Ends q.env q.store (.ok (.returned v)) st') :
    p.node.Ends p.env p.store (.ok (.returned v)) st' := by
  refine Node.ends_iff.2 ?_
  cases h with
  | block hin =>
    obtain ⟨limit, h⟩ := ends_of_comesTo hin hq .undefined
    exact ⟨limit, h⟩
  | @consequent test s s' env st st₁ w ht hw =>
    refine (ends_bind (growing_value test env) (growing_chosen s s' env)).2 (.inr ⟨w, st₁, ht, ?_⟩)
    simp only [chosen, hw, if_true]
    exact hq
  | @alternate test s s' env st st₁ w ht hw =>
    refine (ends_bind (growing_value test env) (growing_chosen s s' env)).2 (.inr ⟨w, st₁, ht, ?_⟩)
    simp only [chosen, hw, Bool.false_eq_true, if_false]
    exact hq
  | @whileLoop test body env st st₁ st₂ ht hr =>
    simp only [execWith, ← forRounds_eq_whileRounds]
    exact ends_forRounds_of_holds ht (ends_fromBody hr hq .undefined)
  | doWhileLoop hr =>
    obtain ⟨limit, h⟩ := ends_fromBody hr hq .undefined
    have hdo := fromBody_prolonged_doWhileRounds.ends h
    exact ⟨limit + 1, (doWhileRounds_prolonged (exec_prolonged (Nat.le_succ limit)) le_rfl).ends hdo⟩
  | @forLoop first test update body env st st₁ st₂ st₃ hi ht hr =>
    exact (ends_bind (growing_init first env) fun _ => growing_forRounds .undefined).2
      (.inr ⟨(), st₁, hi, ends_forRounds_of_holds ht (ends_fromBody hr hq .undefined)⟩)

/-- What a statement returns that control comes to from a node, the node returns. -/
theorem returned_of_enters (h : ReflTransGen Enters p q)
    (hq : q.node.Ends q.env q.store (.ok (.returned v)) st') :
    p.node.Ends p.env p.store (.ok (.returned v)) st' := by
  induction h using ReflTransGen.head_induction_on with
  | refl => exact hq
  | head hstep _ ih => exact hstep.returned ih

end Control

namespace Node

variable {e : Node} {env : FrameId} {st st' : Store} {v : Value} {n : Nat}

/-- A node that returns is a `return`, or a statement inside of it returns. -/
theorem exists_enters (h : exec (n + 1) e env st = .ok (.returned v) st') :
    (∃ argument, e = .returning argument ∧ optionalValue (exec n) argument env st = .ok v st') ∨
      ∃ p, Control.Enters ⟨e, env, st⟩ p ∧ exec n p.node p.env p.store = .ok (.returned v) st' := by
  cases e with
  | number | boolean | string | regExp | null | breakLoop | continueLoop | empty => cases h
  | identifier | unary | update | binary | assign | call | function | varList =>
    obtain ⟨_, _, -, h⟩ := exists_of_bind_eq_ok h
    cases h
  | property | conditional =>
    obtain ⟨_, _, -, h⟩ := exists_of_bind_eq_ok h
    obtain ⟨_, _, -, h⟩ := exists_of_bind_eq_ok h
    cases h
  | declaration name =>
    obtain ⟨_, _, -, h⟩ := exists_of_bind_eq_ok h
    cases name <;> cases h
  | returning argument =>
    obtain ⟨w, st₁, ha, h⟩ := exists_of_bind_eq_ok h
    cases h
    exact .inl ⟨argument, rfl, ha⟩
  | block nodes =>
    have hlist : statements (exec n) (st.newChild env).1 .undefined nodes (st.newChild env).2 =
        .ok (.returned v) st' := h
    obtain ⟨p, hp, he⟩ := exists_comesTo hlist
    exact .inr ⟨p, .block hp, he⟩
  | branch test s s' =>
    obtain ⟨w, st₁, ht, h⟩ := exists_of_bind_eq_ok h
    split at h
    next hw => exact .inr ⟨_, .consequent ⟨n, ht⟩ hw, h⟩
    next hw =>
      cases s' with
      | some s' => exact .inr ⟨_, .alternate ⟨n, ht⟩ (Bool.eq_false_iff.2 hw), h⟩
      | none => cases h
  | whileLoop test body =>
    simp only [exec, execWith, ← forRounds_eq_whileRounds] at h
    obtain ⟨st₁, st₂, ht, hr, he⟩ := exists_body_of_forRounds h
    exact .inr ⟨_, .whileLoop ht hr, he⟩
  | doWhileLoop test body =>
    -- with one more round, the loop goes on from its first body as one that is tested before
    have hloop : doWhileRounds (exec n) test body env n .undefined st = ending (.ok (.returned v)) st' := h
    have hdo := (doWhileRounds_prolonged (fun _ _ => .refl _) (Nat.le_succ n)).ends hloop
    obtain ⟨st₁, hr, he⟩ := exists_later_body (doWhile_prolonged_fromBody.ends hdo)
    exact .inr ⟨_, .doWhileLoop hr, he⟩
  | forLoop first test update body =>
    obtain ⟨_, st₁, hi, h⟩ := exists_of_bind_eq_ok h
    obtain ⟨st₂, st₃, ht, hr, he⟩ := exists_body_of_forRounds h
    exact .inr ⟨_, .forLoop ⟨n, hi⟩ ht hr, he⟩

/-- In a node that returns, control comes to a `return`, whose argument has the value. -/
theorem exists_returning (h : exec n e env st = .ok (.returned v) st') :
    ∃ argument env' st₁, ReflTransGen Control.Enters ⟨e, env, st⟩ ⟨.returning argument, env', st₁⟩ ∧
      Run.Ends (fun limit => optionalValue (exec limit) argument env') st₁ (.ok v) st' := by
  induction n generalizing e env st with
  | zero => cases h
  | succ n ih =>
    rcases exists_enters h with ⟨argument, rfl, ha⟩ | ⟨p, hp, he⟩
    · exact ⟨argument, env, st, .refl, n, ha⟩
    · obtain ⟨argument, env', st₁, hr, ha⟩ := ih he
      exact ⟨argument, env', st₁, .head hp hr, ha⟩

/-- A `return` returns the value of its argument. -/
theorem returning_ends {argument : Option Node}
    (h : Run.Ends (fun limit => optionalValue (exec limit) argument env) st (.ok v) st') :
    (returning argument).Ends env st (.ok (.returned v)) st' :=
  ends_iff.2 ((ends_map Completion.returned (growing_optionalValue argument env)).2 ⟨.ok v, h, rfl⟩)

end Node

namespace Program

variable {p : Program} {env : FrameId} {st st' st'' : Store} {v w : Value}

/-- Among the statements, control comes to a `return`: those before it complete normally, it may stand inside of
blocks, branches and loops, and its argument has the value `v`. -/
def Returns (p : Program) (env : FrameId) (st : Store) (v : Value) (st' : Store) : Prop :=
  ∃ c argument env' st₁, ComesTo env p st c ∧
    ReflTransGen Control.Enters c ⟨.returning argument, env', st₁⟩ ∧
    Run.Ends (fun limit => optionalValue (exec limit) argument env') st₁ (.ok v) st'

theorem Ends.unique {o o' : Except Error Completion} (h : p.Ends env st o st') (h' : p.Ends env st o' st'') :
    o = o' ∧ st' = st'' :=
  Run.Ends.unique (growing_statements p env .undefined) h h'

/-- Statements complete with a `return` if control comes to one. -/
theorem returns_iff : p.Returns env st v st' ↔ p.Ends env st (.ok (.returned v)) st' := by
  constructor
  · rintro ⟨c, argument, env', st₁, hc, hr, ha⟩
    exact ends_of_comesTo hc (Control.returned_of_enters hr (returning_ends ha)) .undefined
  · rintro ⟨n, h⟩
    obtain ⟨c, hc, he⟩ := exists_comesTo h
    obtain ⟨argument, env', st₁, hr, ha⟩ := exists_returning he
    exact ⟨c, argument, env', st₁, hc, hr, ha⟩

end Program

end Scriptlet
