import Mathlib
import Scriptlet.Eval

/-!
# How runs end

The bound of a run only decides whether the run is long enough: one that ends, with a result or with an error,
ends so at every greater bound (`exec_prolonged`). A family of runs with growing bounds `Ends` in the way in which
one of them does, hence in at most one way (`Ends.unique`), and `Diverges` if none of them ends. How one run after
another ends is said by the endings of the two (`ends_bind`), so no bound is left in statements about constructs.
-/

namespace Scriptlet

namespace Run

variable {α β : Type}

/-! ### Longer runs -/

/-- Unless the first run is exhausted, the second one ends as it does. -/
def Prolonged (r r' : Run α) : Prop := ∀ st, (∃ st', r st = .error .exhausted st') ∨ r' st = r st

namespace Prolonged

theorem refl (r : Run α) : Prolonged r r := fun _ => .inr rfl

theorem trans {r r' r'' : Run α} (h : Prolonged r r') (h' : Prolonged r' r'') : Prolonged r r'' := by
  intro st
  rcases h st with hx | h
  · exact .inl hx
  · rcases h' st with ⟨st', hx⟩ | h'
    · exact .inl ⟨st', h.symm.trans hx⟩
    · exact .inr (h'.trans h)

theorem exhausted {r' : Run α} : Prolonged (throw .exhausted) r' := fun st => .inl ⟨st, rfl⟩

theorem bind {r r' : Run α} {f f' : α → Run β} (hr : Prolonged r r') (hf : ∀ a, Prolonged (f a) (f' a)) :
    Prolonged (r >>= f) (r' >>= f') := by
  intro st
  change (∃ st', EStateM.bind r f st = _) ∨ EStateM.bind r' f' st = EStateM.bind r f st
  unfold EStateM.bind
  rcases hr st with ⟨st', h⟩ | h
  · rw [h]
    exact .inl ⟨st', rfl⟩
  · rw [h]
    cases r st with
    | ok a st₁ => exact hf a st₁
    | error halt st₁ => exact .inr rfl

end Prolonged

/-! ### Endings -/

/-- What a run gives that ends so, with a result or an error, and leaves the store. -/
def ending : Except Error α → Store → EStateM.Result Halt Store α
  | .ok a, st => .ok a st
  | .error e, st => .error (.failed e) st

theorem ending_inj {o o' : Except Error α} {st st' : Store} (h : ending o st = ending o' st') : o = o' ∧ st = st' := by
  cases o <;> cases o' <;> cases h <;> exact ⟨rfl, rfl⟩

theorem eq_of_ok_eq_ending {a : α} {o : Except Error α} {st st' : Store} (h : .ok a st = ending o st') :
    o = .ok a ∧ st' = st := by
  cases o <;> cases h
  exact ⟨rfl, rfl⟩

theorem eq_of_error_eq_ending {halt : Halt} {o : Except Error α} {st st' : Store} (h : .error halt st = ending o st') :
    ∃ e, halt = .failed e ∧ o = .error e ∧ st' = st := by
  cases o <;> cases h
  exact ⟨_, rfl, rfl, rfl⟩

theorem ending_ne_exhausted {o : Except Error α} {st st' : Store} : ending o st ≠ .error .exhausted st' := by
  cases o <;> exact fun h => by cases h

theorem Prolonged.ends {r r' : Run α} {o : Except Error α} {st st' : Store} (h : Prolonged r r')
    (he : r st = ending o st') : r' st = ending o st' := by
  rcases h st with ⟨st'', hx⟩ | h
  · exact absurd (he.symm.trans hx) ending_ne_exhausted
  · rw [h, he]

/-- With some bound the run ends with the result or the error `o` and leaves the store `st'`. -/
def Ends (run : Nat → Run α) (st : Store) (o : Except Error α) (st' : Store) : Prop :=
  ∃ limit, run limit st = ending o st'

/-- No bound is enough for the run. -/
def Diverges (run : Nat → Run α) (st : Store) : Prop := ∀ limit, ∃ st', run limit st = .error .exhausted st'

/-- Runs with growing bounds, where each prolongs the ones before it. -/
def Growing (run : Nat → Run α) : Prop := ∀ m n, m ≤ n → Prolonged (run m) (run n)

variable {run : Nat → Run α} {next : α → Nat → Run β} {st st' st'' : Store} {o o' : Except Error α}

theorem Growing.const (r : Run α) : Growing fun _ => r := fun _ _ _ => .refl r

theorem Growing.bind (hr : Growing run) (hn : ∀ a, Growing (next a)) :
    Growing fun limit => run limit >>= fun a => next a limit :=
  fun m n h => (hr m n h).bind fun a => hn a m n h

theorem Ends.eventually (hr : Growing run) (h : Ends run st o st') :
    ∃ m, ∀ n, m ≤ n → run n st = ending o st' := by
  obtain ⟨m, hm⟩ := h
  exact ⟨m, fun n hn => (hr m n hn).ends hm⟩

/-- A run ends in one way only. -/
theorem Ends.unique (hr : Growing run) (h : Ends run st o st') (h' : Ends run st o' st'') : o = o' ∧ st' = st'' := by
  obtain ⟨m, hm⟩ := h.eventually hr
  obtain ⟨n, hn⟩ := h'.eventually hr
  exact ending_inj ((hm _ (Nat.le_max_left m n)).symm.trans (hn _ (Nat.le_max_right m n)))

theorem diverges_iff : Diverges run st ↔ ∀ o st', ¬ Ends run st o st' := by
  constructor
  · rintro h o st' ⟨limit, he⟩
    obtain ⟨st'', hx⟩ := h limit
    exact ending_ne_exhausted (he.symm.trans hx)
  · intro h limit
    cases hrun : run limit st with
    | ok a st' => exact absurd ⟨limit, hrun⟩ (h (.ok a) st')
    | error halt st' =>
      cases halt with
      | failed e => exact absurd ⟨limit, hrun⟩ (h (.error e) st')
      | exhausted => exact ⟨st', rfl⟩

theorem ends_of_eq {r : Run α} {o' : Except Error α} (h : r st = ending o' st'') :
    Ends (fun _ => r) st o st' ↔ o = o' ∧ st' = st'' := by
  constructor
  · rintro ⟨_, he⟩
    exact ending_inj (he.symm.trans h)
  · rintro ⟨rfl, rfl⟩
    exact ⟨0, h⟩

theorem ends_pure {a : α} : Ends (fun _ => (pure a : Run α)) st o st' ↔ o = .ok a ∧ st' = st :=
  ends_of_eq (show (pure a : Run α) st = ending (.ok a) st from rfl)

theorem ends_read {env : FrameId} {name : String} {o : Except Error Value} :
    Ends (fun _ => read env name) st o st' ↔ o = .ok (st.read env name) ∧ st' = st :=
  ends_of_eq (show read env name st = ending (.ok (st.read env name)) st from rfl)

/-- The bound of a run may be counted from anywhere. -/
theorem ends_succ (hr : Growing run) : Ends (fun limit => run (limit + 1)) st o st' ↔ Ends run st o st' := by
  constructor
  · rintro ⟨limit, h⟩
    exact ⟨limit + 1, h⟩
  · intro h
    obtain ⟨m, hm⟩ := h.eventually hr
    exact ⟨m, hm (m + 1) (Nat.le_succ m)⟩

/-- Runs that prolong each other, if the one may have a greater bound, end alike. -/
theorem ends_between {run' : Nat → Run α} (h : ∀ limit, Prolonged (run limit) (run' limit))
    (h' : ∀ limit, Prolonged (run' limit) (run (limit + 1))) : Ends run st o st' ↔ Ends run' st o st' := by
  constructor
  · rintro ⟨limit, he⟩
    exact ⟨limit, (h limit).ends he⟩
  · rintro ⟨limit, he⟩
    exact ⟨limit + 1, (h' limit).ends he⟩

/-- One run after another ends with the error of the first one, or as the second one does from where the first one
ended. -/
theorem ends_bind {o : Except Error β} (hr : Growing run) (hn : ∀ a, Growing (next a)) :
    Ends (fun limit => run limit >>= fun a => next a limit) st o st' ↔
      (∃ e, o = .error e ∧ Ends run st (.error e) st') ∨
      ∃ a st₁, Ends run st (.ok a) st₁ ∧ Ends (next a) st₁ o st' := by
  constructor
  · rintro ⟨limit, h⟩
    change EStateM.bind (run limit) (fun a => next a limit) st = _ at h
    unfold EStateM.bind at h
    cases hrun : run limit st with
    | ok a st₁ =>
      rw [hrun] at h
      exact .inr ⟨a, st₁, ⟨limit, hrun⟩, ⟨limit, h⟩⟩
    | error halt st₁ =>
      rw [hrun] at h
      cases o with
      | ok b => cases h
      | error e =>
        cases h
        exact .inl ⟨e, rfl, limit, hrun⟩
  · rintro (⟨e, rfl, limit, h⟩ | ⟨a, st₁, h₁, h₂⟩)
    · refine ⟨limit, ?_⟩
      change EStateM.bind (run limit) (fun a => next a limit) st = _
      rw [EStateM.bind, h]
      rfl
    · obtain ⟨m, hm⟩ := h₁.eventually hr
      obtain ⟨n, hn⟩ := h₂.eventually (hn a)
      refine ⟨max m n, ?_⟩
      change EStateM.bind (run (max m n)) (fun a => next a (max m n)) st = _
      rw [EStateM.bind, hm _ (Nat.le_max_left m n)]
      exact hn _ (Nat.le_max_right m n)

/-- What is made of a result ends as the run does. -/
theorem ends_map {o : Except Error β} (f : α → β) (hr : Growing run) :
    Ends (fun limit => run limit >>= fun a => pure (f a)) st o st' ↔ ∃ o', Ends run st o' st' ∧ o = o'.map f := by
  rw [ends_bind hr fun _ => .const _]
  constructor
  · rintro (⟨e, rfl, h⟩ | ⟨a, st₁, h, h'⟩)
    · exact ⟨.error e, h, rfl⟩
    · obtain ⟨rfl, rfl⟩ := ends_pure.1 h'
      exact ⟨.ok a, h, rfl⟩
  · rintro ⟨o', h, rfl⟩
    cases o' with
    | ok a => exact .inr ⟨a, st', h, ends_pure.2 ⟨rfl, rfl⟩⟩
    | error e => exact .inl ⟨e, rfl, h⟩

end Run

namespace Eval

open Run

/-! ### Longer bounds of nodes -/

/-- What the first one runs, the second one prolongs. -/
def Exec.Prolonged (exec exec' : Exec) : Prop := ∀ node env, Run.Prolonged (exec node env) (exec' node env)

section Constructs

variable {exec exec' : Exec} {env : FrameId} {node : Node} (hx : exec.Prolonged exec')
include hx

theorem value_prolonged : Prolonged (value exec node env) (value exec' node env) := by
  refine (hx node env).bind fun c => ?_
  cases c with
  | normal | returned | broken | continued => exact .refl _

theorem optionalValue_prolonged {node : Option Node} :
    Prolonged (optionalValue exec node env) (optionalValue exec' node env) := by
  cases node with
  | none => exact .refl _
  | some e => exact value_prolonged hx

theorem values_prolonged {nodes : List Node} : Prolonged (values exec env nodes) (values exec' env nodes) := by
  induction nodes with
  | nil => exact .refl _
  | cons e es ih => exact (value_prolonged hx).bind fun _ => ih.bind fun _ => .refl _

theorem statements_prolonged {nodes : List Node} {last : Value} :
    Prolonged (statements exec env last nodes) (statements exec' env last nodes) := by
  induction nodes generalizing last with
  | nil => exact .refl _
  | cons s ss ih =>
    refine (hx s env).bind fun c => ?_
    cases c with
    | normal v => exact ih
    | returned | broken | continued => exact .refl _

theorem call_prolonged {f : Closure} {args : List Value} : Prolonged (call exec f args) (call exec' f args) := by
  refine (Prolonged.refl (openCall f args)).bind fun env => (statements_prolonged hx).bind fun c => ?_
  cases c with
  | normal | returned | broken | continued => exact .refl _

theorem callNode_prolonged {args : List Node} :
    Prolonged (callNode exec node args env) (callNode exec' node args env) := by
  refine (value_prolonged hx).bind fun f => (values_prolonged hx).bind fun args => ?_
  cases f with
  | function f => exact call_prolonged hx
  | undefined | null | boolean | number | string => exact .refl _

theorem resolve_prolonged : Prolonged (resolve exec env node) (resolve exec' env node) := by
  unfold resolve
  split
  · exact .refl _
  · exact (value_prolonged hx).bind fun _ => (value_prolonged hx).bind fun _ => .refl _
  · exact .refl _

theorem assign_prolonged {op : AssignOp} {source : Node} :
    Prolonged (assign exec op node source env) (assign exec' op node source env) := by
  refine (resolve_prolonged hx).bind fun reference => ?_
  split
  · exact (value_prolonged hx).bind fun _ => .refl _
  · exact (Prolonged.refl _).bind fun old => (value_prolonged hx).bind fun _ => .refl _

theorem update_prolonged {op : UpdateOp} : Prolonged (update exec op node env) (update exec' op node env) :=
  (resolve_prolonged hx).bind fun _ => .refl _

theorem unary_prolonged {op : UnaryOp} : Prolonged (unary exec op node env) (unary exec' op node env) := by
  unfold unary
  split
  · exact .refl _
  · exact (value_prolonged hx).bind fun _ => .refl _

theorem binary_prolonged {op : BinaryOp} {right : Node} :
    Prolonged (binary exec op node right env) (binary exec' op node right env) := by
  refine (value_prolonged hx).bind fun a => ?_
  have hright : Prolonged (value exec right env) (value exec' right env) := value_prolonged hx
  split
  · split
    · exact hright
    · exact .refl _
  · split
    · exact .refl _
    · exact hright
  · exact hright
  · exact hright.bind fun _ => .refl _

theorem declareAll_prolonged {ds : List (String × Option Node)} :
    Prolonged (declareAll exec env ds) (declareAll exec' env ds) := by
  induction ds with
  | nil => exact .refl _
  | cons d ds ih => exact (optionalValue_prolonged hx).bind fun _ => (Prolonged.refl _).bind fun _ => ih

theorem holds_prolonged {test : Option Node} : Prolonged (holds exec test env) (holds exec' test env) := by
  cases test with
  | none => exact .refl _
  | some e => exact (value_prolonged hx).bind fun _ => .refl _

theorem forRounds_prolonged {test update : Option Node} {body : Node} {last : Value} {m n : Nat} (h : m ≤ n) :
    Prolonged (forRounds exec test update body env m last) (forRounds exec' test update body env n last) := by
  induction m generalizing n last with
  | zero => exact .exhausted
  | succ m ih =>
    obtain ⟨n, rfl⟩ := Nat.exists_eq_add_of_lt h
    have hle : m ≤ m + n := Nat.le_add_right m n
    refine (holds_prolonged hx).bind fun b => ?_
    split
    · refine (hx body env).bind fun c => ?_
      cases c with
      | normal | continued => exact (optionalValue_prolonged hx).bind fun _ => ih hle
      | broken | returned => exact .refl _
    · exact .refl _

theorem whileRounds_prolonged {test body : Node} {last : Value} {m n : Nat} (h : m ≤ n) :
    Prolonged (whileRounds exec test body env m last) (whileRounds exec' test body env n last) := by
  simp only [← forRounds_eq_whileRounds]
  exact forRounds_prolonged hx h

theorem doWhileRounds_prolonged {test body : Node} {last : Value} {m n : Nat} (h : m ≤ n) :
    Prolonged (doWhileRounds exec test body env m last) (doWhileRounds exec' test body env n last) := by
  induction m generalizing n last with
  | zero => exact .exhausted
  | succ m ih =>
    obtain ⟨n, rfl⟩ := Nat.exists_eq_add_of_lt h
    have hle : m ≤ m + n := Nat.le_add_right m n
    refine (hx body env).bind fun c => ?_
    cases c with
    | normal | continued =>
      refine (value_prolonged hx).bind fun b => ?_
      split
      · exact ih hle
      · exact .refl _
    | broken | returned => exact .refl _

theorem init_prolonged {first : Option Node} : Prolonged (init exec first env) (init exec' first env) := by
  cases first with
  | none => exact .refl _
  | some e => exact (hx e env).bind fun _ => .refl _

/-- One step of the evaluator: a construct is prolonged if the nodes inside of it are. -/
theorem execWith_prolonged {m n : Nat} (h : m ≤ n) : Exec.Prolonged (execWith exec m) (execWith exec' n) := by
  intro node env
  cases node with
  | number | boolean | string | regExp | null | breakLoop | continueLoop | empty => exact .refl _
  | identifier | function | declaration => exact .refl _
  | unary => exact (unary_prolonged hx).bind fun _ => .refl _
  | update => exact (update_prolonged hx).bind fun _ => .refl _
  | binary => exact (binary_prolonged hx).bind fun _ => .refl _
  | property => exact (value_prolonged hx).bind fun _ => (value_prolonged hx).bind fun _ => .refl _
  | assign => exact (assign_prolonged hx).bind fun _ => .refl _
  | conditional =>
    exact (value_prolonged hx).bind fun _ => (value_prolonged hx).bind fun _ => .refl _
  | call => exact (callNode_prolonged hx).bind fun _ => .refl _
  | block => exact (Prolonged.refl _).bind fun _ => statements_prolonged hx
  | varList => exact (declareAll_prolonged hx).bind fun _ => .refl _
  | returning => exact (optionalValue_prolonged hx).bind fun _ => .refl _
  | branch test consequent alternate =>
    refine (value_prolonged hx).bind fun v => ?_
    split
    · exact hx consequent env
    · cases alternate with
      | none => exact .refl _
      | some alternate => exact hx alternate env
  | whileLoop => exact whileRounds_prolonged hx h
  | doWhileLoop => exact doWhileRounds_prolonged hx h
  | forLoop => exact (init_prolonged hx).bind fun _ => forRounds_prolonged hx h

end Constructs

/-- A greater bound changes nothing about a run that ends. -/
theorem exec_prolonged {m n : Nat} (h : m ≤ n) : Exec.Prolonged (exec m) (exec n) := by
  induction m generalizing n with
  | zero => exact fun _ _ => .exhausted
  | succ m ih =>
    obtain ⟨n, rfl⟩ := Nat.exists_eq_add_of_lt h
    have hle : m ≤ m + n := Nat.le_add_right m n
    exact execWith_prolonged (ih hle) hle

theorem growing_exec (node : Node) (env : FrameId) : Growing fun limit => exec limit node env :=
  fun _ _ h => exec_prolonged h node env

theorem growing_value (node : Node) (env : FrameId) : Growing fun limit => value (exec limit) node env :=
  fun _ _ h => value_prolonged (exec_prolonged h)

end Eval

namespace Node

variable {e : Node} {env : FrameId} {st st' st'' : Store}

/-- Run in the frame from the store `st`, the node completes or fails with `o` and leaves the store `st'`. -/
def Ends (e : Node) (env : FrameId) (st : Store) (o : Except Error Completion) (st' : Store) : Prop :=
  Run.Ends (fun limit => Eval.exec limit e env) st o st'

/-- Run as an operand, the node has the value or fails with `o` and leaves the store `st'`. -/
def Yields (e : Node) (env : FrameId) (st : Store) (o : Except Error Value) (st' : Store) : Prop :=
  Run.Ends (fun limit => Eval.value (Eval.exec limit) e env) st o st'

/-- The node runs for ever. -/
def Diverges (e : Node) (env : FrameId) (st : Store) : Prop := Run.Diverges (fun limit => Eval.exec limit e env) st

theorem Ends.unique {o o' : Except Error Completion} (h : e.Ends env st o st') (h' : e.Ends env st o' st'') :
    o = o' ∧ st' = st'' :=
  Run.Ends.unique (Eval.growing_exec e env) h h'

theorem diverges_iff : e.Diverges env st ↔ ∀ o st', ¬ e.Ends env st o st' := Run.diverges_iff

/-- A node ends as its construct does. -/
theorem ends_iff {o : Except Error Completion} :
    e.Ends env st o st' ↔ Run.Ends (fun limit => Eval.execWith (Eval.exec limit) limit e env) st o st' :=
  (Run.ends_succ (Eval.growing_exec e env)).symm

end Node

end Scriptlet
