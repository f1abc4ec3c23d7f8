import Scriptlet.Proofs.Returns
import Scriptlet.Proofs.ScopeChains
import Scriptlet.Proofs.Access

/-!
# Calls

A call opens one frame, inside the frame that the function was made in (`Closure.Opens`). Parameters are bound in order,
so one that is repeated has the argument at its last place, and they are bound behind the function's own name, so
they hide it. Of the arguments only as many count as there are parameters, and missing ones count as undefined
(`call_rightpad`). The body then runs in that frame, and the first `return` that control comes to is what the call
yields (`Program.returns_iff`).
-/

namespace Scriptlet

open Run Eval

/-! ### The frame of a call -/

namespace Store

variable {st st' st'' : Store} {t : FrameId}

/-- `st'` is `st` but for what the frame `t` binds. -/
structure SameBut (st st' : Store) (t : FrameId) : Prop where
  size_eq : st'.frames.size = st.frames.size
  closures_eq : st'.closures = st.closures
  outer?_eq : ∀ i, st'.outer? i = st.outer? i
  getElem?_eq : ∀ i ≠ t, st'.frames[i]? = st.frames[i]?

namespace SameBut

theorem refl (st : Store) (t : FrameId) : st.SameBut st t := ⟨rfl, rfl, fun _ => rfl, fun _ _ => rfl⟩

theorem trans (h : st.SameBut st' t) (h' : st'.SameBut st'' t) : st.SameBut st'' t :=
  ⟨h'.size_eq.trans h.size_eq, h'.closures_eq.trans h.closures_eq,
    fun i => (h'.outer?_eq i).trans (h.outer?_eq i), fun i hi => (h'.getElem?_eq i hi).trans (h.getElem?_eq i hi)⟩

theorem declare (st : Store) (t : FrameId) (x : String) (v : Value) : st.SameBut (st.declare t x v) t :=
  ⟨size_declare, rfl, fun _ => outer?_declare, fun _ hi => getElem?_modify_of_ne hi.symm⟩

end SameBut

theorem binding?_declare (ht : t < st.frames.size) (x y : String) (v : Value) :
    (st.declare t x v).binding? t y = if y = x then some v else st.binding? t y := by
  rw [binding?, declare, bindings_modify, if_pos ⟨rfl, ht⟩, Bindings.get?_insert]
  rfl

end Store

/-- The store in which the body of a call starts: a frame was opened inside the frame that the function was made in.
It binds each parameter to the argument at its last place, and the function's own name if the body is to see it and
no parameter has it. -/
structure Closure.Opens (f : Closure) (args : List Value) (st st' : Store) : Prop where
  size_eq : st'.frames.size = st.frames.size + 1
  closures_eq : st'.closures = st.closures
  getElem?_eq : ∀ i < st.frames.size, st'.frames[i]? = st.frames[i]?
  outer?_eq : st'.outer? st.frames.size = some f.env
  binding?_param : ∀ i x, f.params[i]? = some x → (∀ j, i < j → f.params[j]? ≠ some x) →
    st'.binding? st.frames.size x = some (args.getD i .undefined)
  binding?_other : ∀ x, x ∉ f.params →
    st'.binding? st.frames.size x = if f.bindsOwnName = true ∧ f.name = some x then some (.function f) else none

namespace Eval

variable {f : Closure} {args args' : List Value} {st : Store} {t : FrameId} {exec : Exec}

/-- The last place of a name among the parameters decides. -/
theorem bindParams_ok (names : List String) (ht : t < st.frames.size) :
    ∃ st', bindParams t names args st = .ok () st' ∧ st.SameBut st' t ∧
      (∀ i x, names[i]? = some x → (∀ j, i < j → names[j]? ≠ some x) →
        st'.binding? t x = some (args.getD i .undefined)) ∧
      ∀ x, x ∉ names → st'.binding? t x = st.binding? t x := by
  induction names generalizing args st with
  | nil => exact ⟨st, rfl, .refl st t, nofun, fun _ _ => rfl⟩
  | cons name names ih =>
    have hsame := Store.SameBut.declare st t name (args.headD .undefined)
    obtain ⟨st', hst', hrest, hparam, hother⟩ := @ih args.tail (st.declare t name (args.headD .undefined))
      (hsame.size_eq.symm ▸ ht)
    refine ⟨st', hst', hsame.trans hrest, fun i x hi hlast => ?_, fun x hx => ?_⟩
    · cases i with
      | zero =>
        obtain rfl : name = x := by simpa using hi
        have hnot : name ∉ names := by
          intro hmem
          obtain ⟨j, hj⟩ := List.mem_iff_getElem?.1 hmem
          exact hlast (j + 1) (Nat.succ_pos j) hj
        rw [hother name hnot, Store.binding?_declare ht, if_pos rfl]
        cases args <;> rfl
      | succ i =>
        rw [hparam i x hi fun j hj => hlast (j + 1) (Nat.succ_lt_succ hj)]
        cases args <;> rfl
    · obtain ⟨hne, hmem⟩ := not_or.1 (mt List.mem_cons.2 hx)
      rw [hother x hmem, Store.binding?_declare ht, if_neg hne]

theorem bindOwnName_ok (f : Closure) (ht : t < st.frames.size) :
    ∃ st', bindOwnName t f st = .ok () st' ∧ st.SameBut st' t ∧
      ∀ x, st'.binding? t x =
        if f.bindsOwnName = true ∧ f.name = some x then some (.function f) else st.binding? t x := by
  cases hname : f.name with
  | none => exact ⟨st, by simp only [bindOwnName, hname]; rfl, .refl st t, fun x => by simp⟩
  | some name =>
    by_cases hown : f.bindsOwnName = true
    · refine ⟨_, by simp only [bindOwnName, hname, if_pos hown]; rfl, .declare st t name (.function f), fun x => ?_⟩
      rw [Store.binding?_declare ht]
      simp only [hown, true_and, Option.some.injEq, eq_comm]
    · exact ⟨st, by simp only [bindOwnName, hname, if_neg hown]; rfl, .refl st t, fun x => by simp [hown]⟩

/-- What a call does before its body starts. -/
theorem call_opens (f : Closure) (args : List Value) (st : Store) :
    ∃ st', f.Opens args st st' ∧ ∀ exec : Exec, call exec f args st =
      (statements exec st.frames.size .undefined f.body >>= yielded) st' := by
  have hlt : st.frames.size < (st.newChild f.env).2.frames.size := st.newChild_lt
  obtain ⟨st₁, h₁, hsame₁, hown⟩ := bindOwnName_ok f hlt
  obtain ⟨st₂, h₂, hsame₂, hparam, hother⟩ := @bindParams_ok args st₁ _ f.params (hsame₁.size_eq.symm ▸ hlt)
  have hsame := hsame₁.trans hsame₂
  refine ⟨st₂, ⟨?_, hsame.closures_eq, fun i hi => ?_, ?_, hparam, fun x hx => ?_⟩, fun exec => ?_⟩
  · rw [hsame.size_eq, Store.size_newChild]
  · rw [hsame.getElem?_eq i (Nat.ne_of_lt hi), Store.getElem?_newChild_of_lt hi]
  · rw [hsame.outer?_eq, Store.outer?_newChild, if_pos rfl]
  · rw [hother x hx, hown, Store.binding?, Store.bindings_newChild, Store.bindings_of_size_le le_rfl]
    rfl
  · have hnew : newChild f.env st = .ok st.frames.size (st.newChild f.env).2 := rfl
    rw [call_eq, bind_of_eq_ok hnew, bind_of_eq_ok h₁, bind_of_eq_ok h₂]

/-- Only as many arguments are looked at as there are parameters. -/
theorem bindParams_congr (names : List String)
    (h : ∀ i < names.length, args.getD i .undefined = args'.getD i .undefined) :
    bindParams t names args = bindParams t names args' := by
  induction names generalizing args args' with
  | nil => rfl
  | cons name names ih =>
    have hhead : args.headD .undefined = args'.headD .undefined := by
      have h0 := h 0 (Nat.succ_pos _)
      cases args <;> cases args' <;> exact h0
    have htail : ∀ i < names.length, args.tail.getD i .undefined = args'.tail.getD i .undefined := by
      intro i hi
      have hi := h (i + 1) (Nat.succ_lt_succ hi)
      cases args <;> cases args' <;> exact hi
    rw [bindParams, bindParams, hhead, ih htail]

/-- A call with fewer or more arguments than parameters is one with as many: the first ones, and undefined for those
that are missing. -/
theorem call_rightpad (exec : Exec) (f : Closure) (args : List Value) :
    call exec f args = call exec f ((args.take f.params.length).rightpad f.params.length .undefined) := by
  have hargs : ∀ i < f.params.length, args.getD i .undefined =
      ((args.take f.params.length).rightpad f.params.length .undefined).getD i .undefined := by
    intro i hi
    simp only [List.getD_eq_getElem?_getD, List.rightpad, List.getElem?_append, List.getElem?_take,
      List.getElem?_replicate, List.length_take]
    grind
  rw [call_eq, call_eq]
  simp only [bindParams_congr f.params hargs]

end Eval

namespace Closure

/-- Called with the arguments, the function has the value or fails with `o` and leaves the store `st'`. -/
def Ends (f : Closure) (args : List Value) (st : Store) (o : Except Error Value) (st' : Store) : Prop :=
  Run.Ends (fun limit => call (exec limit) f args) st o st'

/-- What a call gives whose body completes so. -/
def outcome : Completion → Except Error Value
  | .returned v => .ok v
  | .normal _ => .ok .undefined
  | .broken | .continued => .error (.internal .escapedJump)

variable {f : Closure} {args : List Value} {st st₁ st' : Store} {v : Value}

/-- A call ends as its body does in the store that it opens. -/
theorem ends_iff_body {o : Except Error Value}
    (hst : ∀ exec : Exec, call exec f args st = (statements exec st.frames.size .undefined f.body >>= yielded) st₁) :
    f.Ends args st o st' ↔
      ∃ o', Program.Ends f.body st.frames.size st₁ o' st' ∧ o = o'.bind outcome := by
  have hyield : ∀ (c : Completion) (st : Store), yielded c st = ending (outcome c) st := by
    intro c st
    cases c <;> rfl
  have hbody : f.Ends args st o st' ↔ Run.Ends (fun limit =>
      statements (exec limit) st.frames.size .undefined f.body >>= yielded) st₁ o st' := by
    simp only [Ends, Run.Ends, hst]
  rw [hbody, ends_bind (growing_statements f.body st.frames.size .undefined) fun c => .const (yielded c)]
  simp only [ends_of_eq (hyield _ _)]
  constructor
  · rintro (⟨e, rfl, h⟩ | ⟨c, st₂, h, rfl, rfl⟩)
    · exact ⟨.error e, h, rfl⟩
    · exact ⟨.ok c, h, rfl⟩
  · rintro ⟨e | c, h, rfl⟩
    · exact .inl ⟨e, rfl, h⟩
    · exact .inr ⟨c, st', h, rfl, rfl⟩

end Closure

/-- A call is one with as many arguments as there are parameters: the first ones, and undefined for those that are
missing. Its body runs in a frame that the call opens, which binds the parameters and, behind them, the own name of
a function expression; the call ends as the body does. It has the value of the first `return` that control comes to,
in the store that this leaves, and it is undefined if its body completes and control comes to none. -/
theorem calls_bind_and_return (f : Closure) (args : List Value) (st : Store) :
    (∀ limit, call (exec limit) f args =
      call (exec limit) f ((args.take f.params.length).rightpad f.params.length .undefined)) ∧
    (∃ st₁, f.Opens args st st₁ ∧
      (∀ o st', f.Ends args st o st' ↔
        ∃ o', Program.Ends f.body st.frames.size st₁ o' st' ∧ o = o'.bind Closure.outcome) ∧
      (∀ v st', Program.Returns f.body st.frames.size st₁ v st' → f.Ends args st (.ok v) st') ∧
      ∀ v st', f.Ends args st (.ok v) st' → Program.Returns f.body st.frames.size st₁ v st' ∨
        v = .undefined ∧ ∀ w st'', ¬ Program.Returns f.body st.frames.size st₁ w st'') ∧
    ∀ (name : Option String) (params : List String) (body : List Node) (env : FrameId),
      (Node.function name params body).Ends env st
        (.ok (.normal (.function ⟨st.closures, name, params, body, env, name.isSome⟩)))
        { st with closures := st.closures + 1 } ∧
      ∃ st', (Node.declaration name params body).Ends env st
        (.ok (.normal (.function ⟨st.closures, name, params, body, env, false⟩))) st' := by
  obtain ⟨st₁, hopens, hcall⟩ := call_opens f args st
  have hends : ∀ o st', f.Ends args st o st' ↔
      ∃ o', Program.Ends f.body st.frames.size st₁ o' st' ∧ o = o'.bind Closure.outcome :=
    fun _ _ => Closure.ends_iff_body hcall
  refine ⟨fun limit => call_rightpad (exec limit) f args, ⟨st₁, hopens, hends, fun v st' h => ?_, fun v st' h => ?_⟩,
    fun name params body env => ⟨⟨1, rfl⟩, ?_⟩⟩
  · exact (hends _ _).2 ⟨_, Program.returns_iff.1 h, rfl⟩
  · obtain ⟨e | c, hbody, ho⟩ := (hends _ _).1 h
    · cases ho
    cases c with
    | returned w =>
      cases ho
      exact .inl (Program.returns_iff.2 hbody)
    | normal w =>
      cases ho
      refine .inr ⟨rfl, fun w st'' hw => ?_⟩
      cases (hbody.unique (Program.returns_iff.1 hw)).1
    | broken | continued => cases ho
  · cases name with
    | none => exact ⟨_, 1, rfl⟩
    | some name => exact ⟨_, 1, rfl⟩

/-- A function expression with its own name among its parameters, one of them twice, that returns out of a block in a
loop. -/
theorem calls_bind_and_return_nested :
    let body := [Node.doWhileLoop .null (.block [.returning (some (.identifier "a")), .returning none])]
    ∃ st₁ st', Store.binding? st₁ 1 "a" = some (.string "x") ∧ Store.binding? st₁ 1 "b" = some (.boolean true) ∧
      Closure.Ends ⟨0, some "b", ["a", "b", "a"], body, 0, true⟩ [.null, .boolean true, .string "x", .null]
        Session.new.store (.ok (.string "x")) st' ∧
      Program.Returns body 1 st₁ (.string "x") st' := by
  intro body
  obtain ⟨-, ⟨st₁, hopens, -, -, hvalue⟩, -⟩ := calls_bind_and_return ⟨0, some "b", ["a", "b", "a"], body, 0, true⟩
    [.null, .boolean true, .string "x", .null] Session.new.store
  have hends : Closure.Ends ⟨0, some "b", ["a", "b", "a"], body, 0, true⟩ [.null, .boolean true, .string "x", .null]
      Session.new.store (.ok (.string "x"))
      ⟨#[⟨[], none⟩, ⟨[("b", .boolean true), ("a", .string "x")], some 0⟩, ⟨[], some 1⟩], 0⟩ := ⟨9, by cbv⟩
  refine ⟨st₁, _, hopens.binding?_param 2 "a" rfl ?_, hopens.binding?_param 1 "b" rfl ?_, hends, ?_⟩
  · rintro (_ | _ | _ | j) hj <;> simp at hj ⊢
  · rintro (_ | _ | _ | j) hj <;> simp at hj ⊢
  · rcases hvalue _ _ hends with h | ⟨h, -⟩
    · exact h
    · cases h

end Scriptlet
