import Scriptlet.Proofs.Endings

/-!
# Loops

A loop that is tested before each round does what `Node.Rounds` says: rounds of a test and a body, up to the first
test that does not hold, a jump out of the loop, or an error. Behind its first body a loop that is tested after each
round goes on as one that is tested before (`ends_behind_body`): with the same bounds, each of the two is prolonged
by the other one with one more round. The value of such a loop is that of the last round that completed normally, so
it is the value of the first body only if no later round completed normally.
-/

namespace Scriptlet

open Run Eval

namespace Eval

variable {exec : Exec} {test body : Node} {env : FrameId} {st : Store}

/-- A round of a `while` loop: the test, then the body, then the other rounds. -/
theorem whileRounds_succ (n : Nat) (last : Value) :
    whileRounds exec test body env (n + 1) last st =
      match value exec test env st with
      | .ok v st₁ =>
        if v.toBoolean then
          match exec body env st₁ with
          | .ok (.normal w) st₂ => whileRounds exec test body env n w st₂
          | .ok .continued st₂ => whileRounds exec test body env n last st₂
          | .ok .broken st₂ => .ok (.normal last) st₂
          | .ok (.returned w) st₂ => .ok (.returned w) st₂
          | .error halt st₂ => .error halt st₂
        else .ok (.normal last) st₁
      | .error halt st₁ => .error halt st₁ := by
  simp only [whileRounds, bind, EStateM.bind]
  cases value exec test env st with
  | error halt st₁ => rfl
  | ok v st₁ =>
    by_cases hv : v.toBoolean = true
    · simp only [hv, if_true]
      unfold EStateM.bind
      cases exec body env st₁ with
      | error halt st₂ => rfl
      | ok c st₂ => cases c <;> rfl
    · simp only [hv]
      rfl

/-- What a loop that is tested after each round does behind a body: the test, and the next round if it holds. -/
def behindBody (exec : Exec) (test body : Node) (env : FrameId) (n : Nat) (last : Value) : Run Completion := do
  if (← value exec test env).toBoolean then doWhileRounds exec test body env n last else return .normal last

theorem doWhileRounds_succ (n : Nat) (last : Value) :
    doWhileRounds exec test body env (n + 1) last = exec body env >>= fun
      | .normal v => behindBody exec test body env n v
      | .continued => behindBody exec test body env n last
      | .broken => return .normal last
      | .returned v => return .returned v :=
  bind_congr fun c => by cases c <;> rfl

/-- Behind a body, a loop that is tested after each round does no less than one that is tested before. -/
theorem whileRounds_prolonged_behindBody (n : Nat) (last : Value) :
    Prolonged (whileRounds exec test body env n last) (behindBody exec test body env n last) := by
  induction n generalizing last with
  | zero => exact .exhausted
  | succ n ih =>
    refine (Prolonged.refl _).bind fun b => ?_
    split
    · refine (Prolonged.refl _).bind fun c => ?_
      cases c with
      | normal v => exact ih v
      | continued => exact ih last
      | broken | returned => exact .refl _
    · exact .refl _

/-- Nor does it more, if the other one may have one more round. -/
theorem behindBody_prolonged_whileRounds (n : Nat) (last : Value) :
    Prolonged (behindBody exec test body env n last) (whileRounds exec test body env (n + 1) last) := by
  induction n generalizing last with
  | zero =>
    refine (Prolonged.refl _).bind fun b => ?_
    split
    · exact .exhausted
    · exact .refl _
  | succ n ih =>
    refine (Prolonged.refl _).bind fun b => ?_
    split
    · refine (Prolonged.refl _).bind fun c => ?_
      cases c with
      | normal v => exact ih v
      | continued => exact ih last
      | broken | returned => exact .refl _
    · exact .refl _

theorem growing_behindBody (last : Value) :
    Growing fun limit => behindBody (Eval.exec limit) test body env limit last := by
  intro m n h
  refine (value_prolonged (exec_prolonged h)).bind fun b => ?_
  split
  · exact doWhileRounds_prolonged (exec_prolonged h) h
  · exact .refl _

/-- Behind a body, the two sorts of loops end alike. -/
theorem ends_behindBody (test body : Node) (env : FrameId) (last : Value) {o : Except Error Completion}
    {st st' : Store} :
    Run.Ends (fun limit => behindBody (Eval.exec limit) test body env limit last) st o st' ↔
      Run.Ends (fun limit => whileRounds (Eval.exec limit) test body env limit last) st o st' := by
  refine (ends_between ?_ ?_).symm
  · exact fun limit => whileRounds_prolonged_behindBody limit last
  · intro limit
    refine (behindBody_prolonged_whileRounds limit last).trans ?_
    exact whileRounds_prolonged (exec_prolonged (Nat.le_succ limit)) le_rfl

end Eval

namespace Node

variable {test body : Node} {env : FrameId} {st st' : Store} {vs : List Value} {r : Except Error (Option Value)}

/-! ### Rounds -/

/-- The rounds of a loop that is tested before each of them, from the store `st`: the bodies that complete normally
do so with the values `vs`. The loop is left by an error, by a `return` of a value, or without one: by a test that
does not hold or a `break`. -/
inductive Rounds (test body : Node) (env : FrameId) :
    Store → List Value → Except Error (Option Value) → Store → Prop where
  | testFails {st st' : Store} {err : Error} :
      test.Yields env st (.error err) st' → Rounds test body env st [] (.error err) st'
  | stop {st st' : Store} {v : Value} :
      test.Yields env st (.ok v) st' → v.toBoolean = false → Rounds test body env st [] (.ok none) st'
  | bodyFails {st st₁ st' : Store} {v : Value} {err : Error} :
      test.Yields env st (.ok v) st₁ → v.toBoolean = true → body.Ends env st₁ (.error err) st' →
      Rounds test body env st [] (.error err) st'
  | broken {st st₁ st' : Store} {v : Value} :
      test.Yields env st (.ok v) st₁ → v.toBoolean = true → body.Ends env st₁ (.ok .broken) st' →
      Rounds test body env st [] (.ok none) st'
  | returned {st st₁ st' : Store} {v w : Value} :
      test.Yields env st (.ok v) st₁ → v.toBoolean = true → body.Ends env st₁ (.ok (.returned w)) st' →
      Rounds test body env st [] (.ok (some w)) st'
  | normal {st st₁ st₂ st' : Store} {v w : Value} {vs : List Value} {r : Except Error (Option Value)} :
      test.Yields env st (.ok v) st₁ → v.toBoolean = true → body.Ends env st₁ (.ok (.normal w)) st₂ →
      Rounds test body env st₂ vs r st' → Rounds test body env st (w :: vs) r st'
  | continued {st st₁ st₂ st' : Store} {v : Value} {vs : List Value} {r : Except Error (Option Value)} :
      test.Yields env st (.ok v) st₁ → v.toBoolean = true → body.Ends env st₁ (.ok .continued) st₂ →
      Rounds test body env st₂ vs r st' → Rounds test body env st vs r st'

/-- How a loop completes whose last normal round had the value `last`. -/
def loopCompletion (last : Value) : Option Value → Completion
  | none => .normal last
  | some v => .returned v

/-- A round whose test holds goes on as its body completes, if the bounds are large enough. -/
theorem round_eventually {v : Value} {st₁ : Store} {o : Except Error Completion} (ht : test.Yields env st (.ok v) st₁)
    (hv : v.toBoolean = true) (hb : body.Ends env st₁ o st') :
    ∃ m, ∀ k, m ≤ k → ∀ n last, whileRounds (exec k) test body env (n + 1) last st =
      match o with
      | .ok (.normal w) => whileRounds (exec k) test body env n w st'
      | .ok .continued => whileRounds (exec k) test body env n last st'
      | .ok .broken => .ok (.normal last) st'
      | .ok (.returned w) => .ok (.returned w) st'
      | .error e => .error (.failed e) st' := by
  obtain ⟨m₁, ht⟩ := Run.Ends.eventually (growing_value test env) ht
  obtain ⟨m₂, hb⟩ := Run.Ends.eventually (growing_exec body env) hb
  refine ⟨max m₁ m₂, fun k hk n last => ?_⟩
  rw [whileRounds_succ, ht k (by omega)]
  simp only [ending, hv, if_true, hb k (by omega)]
  rcases o with e | c
  · rfl
  · cases c <;> rfl

/-- The loop takes the rounds, whatever bounds it has as long as they are large enough. -/
theorem Rounds.eventually (h : Rounds test body env st vs r st') :
    ∃ m, ∀ k, m ≤ k → ∀ n, m ≤ n → ∀ last, whileRounds (exec k) test body env (n + 1) last st =
      ending (r.map (loopCompletion (vs.getLastD last))) st' := by
  induction h with
  | testFails ht =>
    obtain ⟨m, ht⟩ := Run.Ends.eventually (growing_value test env) ht
    exact ⟨m, fun k hk n _ last => by rw [whileRounds_succ, ht k hk]; rfl⟩
  | stop ht hv =>
    obtain ⟨m, ht⟩ := Run.Ends.eventually (growing_value test env) ht
    exact ⟨m, fun k hk n _ last => by rw [whileRounds_succ, ht k hk]; simp only [ending, hv]; rfl⟩
  | bodyFails ht hv hb | broken ht hv hb | returned ht hv hb =>
    obtain ⟨m, hround⟩ := round_eventually ht hv hb
    exact ⟨m, fun k hk n _ last => hround k hk n last⟩
  | normal ht hv hb _ ih | continued ht hv hb _ ih =>
    obtain ⟨m₁, hround⟩ := round_eventually ht hv hb
    obtain ⟨m₂, ih⟩ := ih
    refine ⟨max m₁ m₂ + 1, fun k hk n hn last => ?_⟩
    obtain ⟨n, rfl⟩ := Nat.exists_eq_add_one_of_ne_zero (n := n) (by omega)
    rw [hround k (by omega)]
    simp only [ih k (by omega) n (by omega), List.getLastD_cons]

/-- A loop that ends has taken rounds. -/
theorem exists_rounds {k n : Nat} {last : Value} {o : Except Error Completion}
    (h : whileRounds (exec k) test body env n last st = ending o st') :
    ∃ vs r, Rounds test body env st vs r st' ∧ o = r.map (loopCompletion (vs.getLastD last)) := by
  induction n generalizing st last with
  | zero => exact absurd h.symm ending_ne_exhausted
  | succ n ih =>
    rw [whileRounds_succ] at h
    split at h
    next v st₁ ht =>
      have ht : test.Yields env st (.ok v) st₁ := ⟨k, ht⟩
      split at h
      next hv =>
        split at h
        next w st₂ hb =>
          obtain ⟨vs, r, hr, rfl⟩ := ih h
          exact ⟨w :: vs, r, .normal ht hv ⟨k, hb⟩ hr, by rw [List.getLastD_cons]⟩
        next st₂ hb =>
          obtain ⟨vs, r, hr, rfl⟩ := ih h
          exact ⟨vs, r, .continued ht hv ⟨k, hb⟩ hr, rfl⟩
        next st₂ hb =>
          obtain ⟨rfl, rfl⟩ := eq_of_ok_eq_ending h
          exact ⟨[], .ok none, .broken ht hv ⟨k, hb⟩, rfl⟩
        next w st₂ hb =>
          obtain ⟨rfl, rfl⟩ := eq_of_ok_eq_ending h
          exact ⟨[], .ok (some w), .returned ht hv ⟨k, hb⟩, rfl⟩
        next halt st₂ hb =>
          obtain ⟨e, rfl, rfl, rfl⟩ := eq_of_error_eq_ending h
          exact ⟨[], .error e, .bodyFails ht hv ⟨k, hb⟩, rfl⟩
      next hv =>
        obtain ⟨rfl, rfl⟩ := eq_of_ok_eq_ending h
        exact ⟨[], .ok none, .stop ht (Bool.eq_false_iff.2 hv), rfl⟩
    next halt st₁ ht =>
      obtain ⟨e, rfl, rfl, rfl⟩ := eq_of_error_eq_ending h
      exact ⟨[], .error e, .testFails ⟨k, ht⟩, rfl⟩

/-- A loop whose last normal round had the value `last` so far ends as its rounds do, with the value of their last
normal one if there is one. -/
theorem ends_whileRounds_iff {last : Value} {o : Except Error Completion} :
    Run.Ends (fun limit => whileRounds (exec limit) test body env limit last) st o st' ↔
      ∃ vs r, Rounds test body env st vs r st' ∧ o = r.map (loopCompletion (vs.getLastD last)) := by
  constructor
  · rintro ⟨limit, h⟩
    exact exists_rounds h
  · rintro ⟨vs, r, h, rfl⟩
    obtain ⟨m, h⟩ := h.eventually
    exact ⟨m + 1, h (m + 1) (Nat.le_succ m) m le_rfl last⟩

/-! ### Loops -/

theorem whileLoop_ends_iff {o : Except Error Completion} : (whileLoop test body).Ends env st o st' ↔
    ∃ vs r, Rounds test body env st vs r st' ∧ o = r.map (loopCompletion (vs.getLastD .undefined)) :=
  ends_iff.trans ends_whileRounds_iff

theorem forLoop_ends_iff {o : Except Error Completion} :
    (forLoop none (some test) none body).Ends env st o st' ↔ (whileLoop test body).Ends env st o st' := by
  rw [ends_iff, ends_iff]
  simp only [execWith, init, pure_bind, forRounds_eq_whileRounds]

/-- The body first, and behind it what a loop does that is tested before each round. -/
theorem doWhileLoop_ends_iff {o : Except Error Completion} : (doWhileLoop test body).Ends env st o st' ↔
    (∃ err, o = .error err ∧ body.Ends env st (.error err) st') ∨
    ∃ c st₁, body.Ends env st (.ok c) st₁ ∧
      match c with
      | .normal v => ∃ vs r, Rounds test body env st₁ vs r st' ∧ o = r.map (loopCompletion (vs.getLastD v))
      | .continued => ∃ vs r, Rounds test body env st₁ vs r st' ∧ o = r.map (loopCompletion (vs.getLastD .undefined))
      | .broken => o = .ok (.normal .undefined) ∧ st' = st₁
      | .returned v => o = .ok (.returned v) ∧ st' = st₁ := by
  have hround : Run.Ends (fun limit => doWhileRounds (exec limit) test body env limit .undefined) st o st' ↔
      Run.Ends (fun limit => doWhileRounds (exec limit) test body env (limit + 1) .undefined) st o st' := by
    refine ends_between (fun limit => ?_) fun limit => ?_
    · exact doWhileRounds_prolonged (fun _ _ => .refl _) (Nat.le_succ limit)
    · exact doWhileRounds_prolonged (exec_prolonged (Nat.le_succ limit)) le_rfl
  refine ends_iff.trans (hround.trans ?_)
  simp only [doWhileRounds_succ]
  refine (ends_bind (growing_exec body env) fun c => ?_).trans ?_
  · cases c with
    | normal v => exact growing_behindBody v
    | continued => exact growing_behindBody .undefined
    | broken | returned => exact .const _
  · refine or_congr Iff.rfl (exists_congr fun c => exists_congr fun st₁ => and_congr Iff.rfl ?_)
    cases c with
    | normal v => exact (ends_behindBody test body env v).trans ends_whileRounds_iff
    | continued => exact (ends_behindBody test body env .undefined).trans ends_whileRounds_iff
    | broken | returned => exact ends_pure

/-- Behind a first body that does not leave the loop, the rounds decide; `v` is the value of this body. -/
theorem doWhileLoop_goes_on {c : Completion} {v : Value} {st₁ : Store} {o : Except Error Completion}
    (h : body.Ends env st (.ok c) st₁) (hc : c = .normal v ∨ c = .continued ∧ v = .undefined) :
    (doWhileLoop test body).Ends env st o st' ↔
      ∃ vs r, Rounds test body env st₁ vs r st' ∧ o = r.map (loopCompletion (vs.getLastD v)) := by
  rw [doWhileLoop_ends_iff]
  constructor
  · rintro (⟨err, rfl, hb⟩ | ⟨c', st₂, hb, hrest⟩)
    · cases (h.unique hb).1
    · obtain ⟨he, rfl⟩ := h.unique hb
      cases he
      rcases hc with rfl | ⟨rfl, rfl⟩ <;> exact hrest
  · intro hrest
    refine .inr ⟨c, st₁, h, ?_⟩
    rcases hc with rfl | ⟨rfl, rfl⟩ <;> exact hrest

end Node

/-! ### Jumps -/

namespace Run

variable {α : Type}

/-- If the run completes, no jump leaves it but a `return`. -/
def TakesJumps (r : Run Completion) : Prop := ∀ st c st', r st = .ok c st' → c ≠ .broken ∧ c ≠ .continued

namespace TakesJumps

theorem normal {v : Value} : TakesJumps (pure (.normal v)) := fun _ _ _ h => by cases h; exact ⟨nofun, nofun⟩

theorem returned {v : Value} : TakesJumps (pure (.returned v)) := fun _ _ _ h => by cases h; exact ⟨nofun, nofun⟩

theorem exhausted : TakesJumps (throw .exhausted) := fun _ _ _ h => by cases h

theorem bind {r : Run α} {f : α → Run Completion} (hf : ∀ a, (f a).TakesJumps) : (r >>= f).TakesJumps := by
  intro st c st' h
  change EStateM.bind r f st = _ at h
  unfold EStateM.bind at h
  split at h
  next a st₁ _ => exact hf a st₁ c st' h
  next => cases h

end TakesJumps

end Run

namespace Eval

variable {exec : Exec} {body : Node} {env : FrameId}

theorem forRounds_takesJumps {test update : Option Node} (n : Nat) (last : Value) :
    (forRounds exec test update body env n last).TakesJumps := by
  induction n generalizing last with
  | zero => exact .exhausted
  | succ n ih =>
    refine .bind fun b => ?_
    split
    · refine .bind fun c => ?_
      cases c with
      | normal v => exact .bind fun _ => ih v
      | continued => exact .bind fun _ => ih last
      | broken => exact .normal
      | returned v => exact .returned
    · exact .normal

theorem whileRounds_takesJumps {test : Node} (n : Nat) (last : Value) :
    (whileRounds exec test body env n last).TakesJumps := by
  rw [← forRounds_eq_whileRounds]
  exact forRounds_takesJumps n last

theorem doWhileRounds_takesJumps {test : Node} (n : Nat) (last : Value) :
    (doWhileRounds exec test body env n last).TakesJumps := by
  induction n generalizing last with
  | zero => exact .exhausted
  | succ n ih =>
    have hbehind : ∀ v, (behindBody exec test body env n v).TakesJumps := by
      intro v
      refine .bind fun b => ?_
      split
      · exact ih v
      · exact .normal
    refine .bind fun c => ?_
    cases c with
    | normal v => exact hbehind v
    | continued => exact hbehind last
    | broken => exact .normal
    | returned v => exact .returned

end Eval

namespace Node

variable {e : Node} {env : FrameId} {st st' : Store}

/-- Whether the node is a loop. -/
def isLoop : Node → Bool
  | whileLoop .. | doWhileLoop .. | forLoop .. => true
  | _ => false

/-- A loop completes with no jump but a `return`. -/
theorem not_ends_jump_of_isLoop (h : e.isLoop = true) :
    ¬ e.Ends env st (.ok .broken) st' ∧ ¬ e.Ends env st (.ok .continued) st' := by
  have hjumps : ∀ limit, (execWith (exec limit) limit e env).TakesJumps := by
    intro limit
    cases e with
    | whileLoop => exact whileRounds_takesJumps limit .undefined
    | doWhileLoop => exact doWhileRounds_takesJumps limit .undefined
    | forLoop => exact .bind fun _ => forRounds_takesJumps limit .undefined
    | _ => cases h
  refine ⟨fun hends => ?_, fun hends => ?_⟩ <;> obtain ⟨limit, hends⟩ := ends_iff.1 hends
  · exact (hjumps limit st .broken st' hends).1 rfl
  · exact (hjumps limit st .continued st' hends).2 rfl

end Node

/-- A `for` loop with a test alone ends as the `while` loop does: as its rounds do, with the value of the last one
that completed normally. A `do` loop ends at its first body or goes on as the `while` loop does; the value of the first
body is its own only if no later round completed normally. No loop completes with a jump that is for loops. -/
theorem loops_agree (test body : Node) (env : FrameId) (st : Store) :
    ((∀ o st', (Node.forLoop none (some test) none body).Ends env st o st' ↔
        (Node.whileLoop test body).Ends env st o st') ∧
      ((Node.forLoop none (some test) none body).Diverges env st ↔ (Node.whileLoop test body).Diverges env st)) ∧
    (∀ st₀ o st', (Node.whileLoop test body).Ends env st₀ o st' ↔
      ∃ vs r, Node.Rounds test body env st₀ vs r st' ∧
        o = r.map (Node.loopCompletion (vs.getLastD .undefined))) ∧
    (∀ st', body.Ends env st (.ok .broken) st' →
      (Node.doWhileLoop test body).Ends env st (.ok (.normal .undefined)) st') ∧
    (∀ v st', body.Ends env st (.ok (.returned v)) st' →
      (Node.doWhileLoop test body).Ends env st (.ok (.returned v)) st') ∧
    (∀ e st', body.Ends env st (.error e) st' → (Node.doWhileLoop test body).Ends env st (.error e) st') ∧
    (body.Diverges env st → (Node.doWhileLoop test body).Diverges env st) ∧
    (∀ c v st₁, body.Ends env st (.ok c) st₁ → c = .normal v ∨ c = .continued ∧ v = .undefined →
      (∀ o st', (Node.doWhileLoop test body).Ends env st o st' ↔
        ∃ vs r, Node.Rounds test body env st₁ vs r st' ∧ o = r.map (Node.loopCompletion (vs.getLastD v))) ∧
      ((Node.doWhileLoop test body).Diverges env st ↔ (Node.whileLoop test body).Diverges env st₁)) ∧
    ∀ e : Node, e.isLoop = true → ∀ st st',
      ¬ e.Ends env st (.ok .broken) st' ∧ ¬ e.Ends env st (.ok .continued) st' := by
  refine ⟨⟨fun _ _ => Node.forLoop_ends_iff, ?_⟩, fun _ _ _ => Node.whileLoop_ends_iff, fun st' h => ?_,
    fun v st' h => ?_, fun e st' h => ?_, fun h => ?_, fun c v st₁ h hc => ?_,
    fun e h _ _ => Node.not_ends_jump_of_isLoop h⟩
  · simp only [Node.diverges_iff, Node.forLoop_ends_iff]
  · exact Node.doWhileLoop_ends_iff.2 (.inr ⟨.broken, st', h, rfl, rfl⟩)
  · exact Node.doWhileLoop_ends_iff.2 (.inr ⟨.returned v, st', h, rfl, rfl⟩)
  · exact Node.doWhileLoop_ends_iff.2 (.inl ⟨e, rfl, h⟩)
  · rw [Node.diverges_iff] at h ⊢
    intro o st' hends
    rcases Node.doWhileLoop_ends_iff.1 hends with ⟨err, -, hb⟩ | ⟨c, st₁, hb, -⟩
    · exact h _ _ hb
    · exact h _ _ hb
  · have hends : ∀ o st', (Node.doWhileLoop test body).Ends env st o st' ↔
        ∃ vs r, Node.Rounds test body env st₁ vs r st' ∧ o = r.map (Node.loopCompletion (vs.getLastD v)) :=
      fun _ _ => Node.doWhileLoop_goes_on h hc
    refine ⟨hends, ?_⟩
    -- both run for ever if there are no rounds that end
    simp only [Node.diverges_iff, hends, Node.whileLoop_ends_iff]
    constructor
    · rintro hno o st' ⟨vs, r, hr, -⟩
      exact hno _ st' ⟨vs, r, hr, rfl⟩
    · rintro hno o st' ⟨vs, r, hr, -⟩
      exact hno _ st' ⟨vs, r, hr, rfl⟩

/-- `do "a" while (false)` has the value of its only body; the `while` loop behind it has none. -/
theorem loops_agree_once :
    (Node.string "a").Ends 0 Store.empty (.ok (.normal (.string "a"))) Store.empty ∧
    (Node.doWhileLoop (.boolean false) (.string "a")).Ends 0 Store.empty (.ok (.normal (.string "a"))) Store.empty ∧
    (Node.whileLoop (.boolean false) (.string "a")).Ends 0 Store.empty (.ok (.normal .undefined)) Store.empty ∧
    (Node.doWhileLoop (.boolean true) .breakLoop).Ends 0 Store.empty (.ok (.normal .undefined)) Store.empty ∧
    (Node.doWhileLoop (.boolean true) (.returning none)).Ends 0 Store.empty (.ok (.returned .undefined))
      Store.empty ∧
    ¬ (Node.doWhileLoop (.boolean true) .breakLoop).Ends 0 Store.empty (.ok .broken) Store.empty := by
  have hbody : (Node.string "a").Ends 0 Store.empty (.ok (.normal (.string "a"))) Store.empty := ⟨1, rfl⟩
  have hrounds : Node.Rounds (.boolean false) (.string "a") 0 Store.empty [] (.ok none) Store.empty :=
    .stop (v := .boolean false) ⟨1, rfl⟩ rfl
  have hagree := loops_agree (.boolean false) (.string "a") 0 Store.empty
  have hjump := loops_agree (.boolean true) .breakLoop 0 Store.empty
  refine ⟨hbody, ?_, ?_, ?_, ?_, ?_⟩
  · exact ((hagree.2.2.2.2.2.2.1 _ _ _ hbody (.inl rfl)).1 _ _).2 ⟨[], .ok none, hrounds, rfl⟩
  · exact (hagree.2.1 _ _ _).2 ⟨[], .ok none, hrounds, rfl⟩
  · exact hjump.2.2.1 _ ⟨1, rfl⟩
  · exact (loops_agree (.boolean true) (.returning none) 0 Store.empty).2.2.2.1 _ _ ⟨1, rfl⟩
  · exact (hjump.2.2.2.2.2.2.2 (.doWhileLoop (.boolean true) .breakLoop) rfl _ _).1

end Scriptlet
