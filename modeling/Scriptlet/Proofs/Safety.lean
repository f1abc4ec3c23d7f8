import Scriptlet.Proofs.WellFormed
import Scriptlet.Session

/-!
# Programs that were read meet no defect

A run is safe for a predicate `B` on function bodies if it takes every store whose functions have
bodies in `B` to another such store, and ends with a result of the expected form, with a call of
something that is no function, or since its bound was reached. Each construct is safe if what runs the
nodes inside of it is, so nodes that fit are safe by induction on the bound (`exec_safe`). A call runs
the body of a closure that the store held or that was made on the way; that its statements fit is
`Closed B`.
-/

namespace Scriptlet

variable {B : List Node → Prop}

/-! ### Stores -/

/-- A function has a body in `B`. -/
def Value.Sound (B : List Node → Prop) : Value → Prop
  | .function f => B f.body
  | _ => True

/-- All functions bound to names have bodies in `B`. -/
def Bindings.Sound (B : List Node → Prop) (b : Bindings) : Prop := ∀ x ∈ b, x.2.Sound B

/-- All functions in the frames have bodies in `B`. -/
def Store.Sound (B : List Node → Prop) (st : Store) : Prop := ∀ env, (st.bindings env).Sound B

namespace Bindings.Sound

variable {b : Bindings} {name : String} {v : Value}

theorem insert (hb : b.Sound B) (hv : v.Sound B) : (b.insert name v).Sound B := by
  induction b with
  | nil => exact List.forall_mem_singleton.2 hv
  | cons x b ih =>
    obtain ⟨hx, hb⟩ := List.forall_mem_cons.1 hb
    unfold Bindings.insert
    split
    · exact List.forall_mem_cons.2 ⟨hv, hb⟩
    · exact List.forall_mem_cons.2 ⟨hx, ih hb⟩

theorem erase (hb : b.Sound B) : (b.erase name).Sound B :=
  fun x hx => hb x ((List.mem_filter.1 hx).1)

theorem get? (hb : b.Sound B) : ((b.get? name).getD .undefined).Sound B := by
  induction b with
  | nil => trivial
  | cons x b ih =>
    obtain ⟨hx, hb⟩ := List.forall_mem_cons.1 hb
    unfold Bindings.get? List.lookup
    split
    · exact hx
    · exact ih hb

end Bindings.Sound

namespace Store.Sound

variable {st : Store} {env : FrameId} {name : String} {v : Value}

theorem modify {change : Bindings → Bindings} (h : st.Sound B)
    (hc : ∀ b : Bindings, b.Sound B → (change b).Sound B) : (st.modify env change).Sound B := by
  intro env'
  have hb := h env'
  unfold Store.bindings Store.modify at *
  by_cases henv : env = env'
  · simp only [Array.getElem?_modify, if_pos henv]
    cases hf : st.frames[env']? with
    | none => rw [hf] at hb; exact hb
    | some f => rw [hf] at hb; exact hc _ hb
  · simp only [Array.getElem?_modify, if_neg henv]
    exact hb

theorem declare (h : st.Sound B) (hv : v.Sound B) : (st.declare env name v).Sound B :=
  h.modify fun _ hb => hb.insert hv

theorem write (h : st.Sound B) (hv : v.Sound B) : (st.write env name v).Sound B :=
  h.declare hv

theorem delete (h : st.Sound B) : (st.delete env name).2.Sound B := by
  unfold Store.delete
  split
  · exact h.modify fun _ hb => hb.erase
  · exact h

theorem read (h : st.Sound B) : (st.read env name).Sound B := by
  unfold Store.read
  split
  · exact (h _).get?
  · trivial

theorem newChild (h : st.Sound B) : (st.newChild env).2.Sound B := by
  intro env'
  have hb := h env'
  unfold Store.bindings Store.newChild at *
  by_cases henv : env' = st.frames.size
  · simp only [Array.getElem?_push, if_pos henv]
    exact fun x hx => by cases hx
  · simp only [Array.getElem?_push, if_neg henv]
    exact hb

end Store.Sound

/-! ### Runs -/

/-- Whether a program that was read from text can halt so. -/
def Halt.isOrderly : Halt → Bool
  | .exhausted | .failed (.notCallable _) => true
  | _ => false

namespace Run

variable {α β : Type} {Q : α → Prop} {R : β → Prop} {env : FrameId} {name : String} {v : Value}

/-- The run keeps stores sound, and gives a result that satisfies `Q` unless it halts in order. -/
def Safe (B : List Node → Prop) (Q : α → Prop) (r : Run α) : Prop :=
  ∀ st : Store, st.Sound B →
    match r st with
    | .ok a st' => Q a ∧ st'.Sound B
    | .error halt st' => halt.isOrderly = true ∧ st'.Sound B

namespace Safe

theorem pure {a : α} (h : Q a) : (pure a : Run α).Safe B Q := fun _ hst => ⟨h, hst⟩

theorem bind {r : Run α} {f : α → Run β} (hr : r.Safe B Q) (hf : ∀ a, Q a → (f a).Safe B R) :
    (r >>= f).Safe B R := by
  intro st hst
  have h := hr st hst
  show match EStateM.bind r f st with | .ok .. => _ | .error .. => _
  unfold EStateM.bind
  split at h
  next a st' hrun =>
    rw [hrun]
    exact hf a h.1 st' h.2
  next halt st' hrun =>
    rw [hrun]
    exact h

theorem halt {h : Halt} (ho : h.isOrderly = true) : (throw h : Run α).Safe B Q :=
  fun _ hst => ⟨ho, hst⟩

end Safe

theorem read_safe : (read env name).Safe B (Value.Sound B) := fun _ hst => ⟨hst.read, hst⟩

theorem write_safe (hv : v.Sound B) : (write env name v).Safe B (fun _ => True) :=
  fun _ hst => ⟨trivial, hst.write hv⟩

theorem declare_safe (hv : v.Sound B) : (declare env name v).Safe B (fun _ => True) :=
  fun _ hst => ⟨trivial, hst.declare hv⟩

theorem delete_safe : (delete env name).Safe B (fun _ => True) :=
  fun _ hst => ⟨trivial, hst.delete⟩

theorem newChild_safe : (newChild env).Safe B (fun _ => True) :=
  fun _ hst => ⟨trivial, hst.newChild⟩

theorem newClosure_safe {name : Option String} {params : List String} {body : List Node} {own : Bool}
    (hb : B body) : (newClosure env name params body own).Safe B (fun f => B f.body) :=
  fun _ hst => ⟨hb, hst⟩

end Run

/-- Operators make no functions: they give one of their operands or a value of another type. -/
theorem BinaryOp.apply_sound {a b : Value} (op : BinaryOp) (ha : a.Sound B) (hb : b.Sound B) :
    (op.apply a b).Sound B := by
  cases op with
  | add => show (Value.add a b).Sound B; unfold Value.add; split <;> trivial
  | and => show (if a.toBoolean then b else a).Sound B; split <;> assumption
  | or => show (if a.toBoolean then a else b).Sound B; split <;> assumption
  | sequence => exact hb
  | _ => trivial

theorem UnaryOp.apply_sound {a : Value} (op : UnaryOp) : (op.apply a).Sound B := by
  cases op <;> trivial

/-- A node at the place can complete so, with functions that have bodies in `B`. -/
def Completion.Fits (B : List Node → Prop) : Place → Completion → Prop
  | _, .normal v => v.Sound B
  | .statement _, .returned v => v.Sound B
  | .statement true, .broken | .statement true, .continued => True
  | _, _ => False

namespace Eval

open Run

/-- What runs nodes does so safely, wherever they stand. -/
def Exec.Safe (B : List Node → Prop) (exec : Exec) : Prop :=
  ∀ place node env, node.Fits B place → (exec node env).Safe B (Completion.Fits B place)

section Constructs

variable {exec : Exec} {env : FrameId} {node : Node} {inLoop : Bool}

theorem value_safe (hx : exec.Safe B) (h : node.Fits B .expression) :
    (value exec node env).Safe B (Value.Sound B) := by
  refine (hx _ _ env h).bind fun c hc => ?_
  cases c with
  | normal v => exact .pure hc
  | returned | broken | continued => exact hc.elim

theorem optionalValue_safe {node : Option Node} (hx : exec.Safe B)
    (h : ∀ e ∈ node, e.Fits B .expression) : (optionalValue exec node env).Safe B (Value.Sound B) := by
  cases node with
  | none => exact .pure trivial
  | some e => exact value_safe hx (h e rfl)

theorem values_safe (hx : exec.Safe B) {nodes : List Node} (h : ∀ e ∈ nodes, e.Fits B .expression) :
    (values exec env nodes).Safe B (fun vs => ∀ v ∈ vs, v.Sound B) := by
  induction nodes with
  | nil => exact .pure fun v hv => by cases hv
  | cons e es ih =>
    obtain ⟨he, hes⟩ := List.forall_mem_cons.1 h
    refine (value_safe hx he).bind fun v hv => (ih hes).bind fun vs hvs => ?_
    exact .pure (List.forall_mem_cons.2 ⟨hv, hvs⟩)

theorem statements_safe (hx : exec.Safe B) {nodes : List Node} {last : Value}
    (h : ∀ s ∈ nodes, s.Fits B (.statement inLoop)) (hl : last.Sound B) :
    (statements exec env last nodes).Safe B (Completion.Fits B (.statement inLoop)) := by
  induction nodes generalizing last with
  | nil => exact .pure hl
  | cons s ss ih =>
    obtain ⟨hs, hss⟩ := List.forall_mem_cons.1 h
    refine (hx _ _ env hs).bind fun c hc => ?_
    cases c with
    | normal v => exact ih hss hc
    | returned | broken | continued => exact .pure hc

theorem bindParams_safe {names : List String} {args : List Value} (h : ∀ v ∈ args, v.Sound B) :
    (bindParams env names args).Safe B (fun _ => True) := by
  induction names generalizing args with
  | nil => exact .pure trivial
  | cons name names ih =>
    refine Safe.bind (declare_safe ?_) fun _ _ => ih fun v hv => h v (List.mem_of_mem_tail hv)
    cases args with
    | nil => trivial
    | cons v args => exact h v List.mem_cons_self

theorem openCall_safe {f : Closure} {args : List Value} (hf : B f.body) (h : ∀ v ∈ args, v.Sound B) :
    (openCall f args).Safe B (fun _ => True) := by
  refine newChild_safe.bind fun env _ => ?_
  have hparams : (bindParams env f.params args >>= fun _ => pure env : Run FrameId).Safe B
      (fun _ => True) := (bindParams_safe h).bind fun _ _ => .pure trivial
  split
  · split
    · exact Safe.bind (declare_safe hf) fun _ _ => hparams
    · exact hparams
  · exact hparams

theorem call_safe (hB : Closed B) (hx : exec.Safe B) {f : Closure} {args : List Value} (hf : B f.body)
    (h : ∀ v ∈ args, v.Sound B) : (call exec f args).Safe B (Value.Sound B) := by
  refine (openCall_safe hf h).bind fun env _ => ?_
  have hundefined : Value.undefined.Sound B := trivial
  refine (statements_safe hx (hB _ hf) hundefined).bind fun c hc => ?_
  cases c with
  | normal => exact .pure trivial
  | returned v => exact .pure hc
  | broken | continued => exact hc.elim

theorem callNode_safe (hB : Closed B) (hx : exec.Safe B) {args : List Node}
    (h : node.Fits B .expression) (hargs : ∀ e ∈ args, e.Fits B .expression) :
    (callNode exec node args env).Safe B (Value.Sound B) := by
  refine (value_safe hx h).bind fun v hv => (values_safe hx hargs).bind fun vs hvs => ?_
  cases v with
  | function f => exact call_safe hB hx hv hvs
  | _ => cases node <;> exact .halt rfl

theorem resolve_safe (hx : exec.Safe B) (h : node.Fits B .expression) (ht : node.isTarget = true) :
    (resolve exec env node).Safe B (fun _ => True) := by
  cases h <;> try cases ht
  case identifier => exact .pure trivial
  case property hobject hkey =>
    exact (value_safe hx hobject).bind fun _ _ => (value_safe hx hkey).bind fun _ _ => .pure trivial

theorem get_safe (reference : Reference) : (reference.get env).Safe B (Value.Sound B) := by
  cases reference with
  | «variable» name => exact read_safe
  | property => exact .pure trivial

theorem put_safe {v : Value} (reference : Reference) (hv : v.Sound B) :
    (reference.put env v).Safe B (fun _ => True) := by
  cases reference with
  | «variable» name => exact write_safe hv
  | property => exact .pure trivial

theorem assign_safe (hx : exec.Safe B) {source : Node} (op : AssignOp) (ht : node.isTarget = true)
    (h : node.Fits B .expression) (hsource : source.Fits B .expression) :
    (assign exec op node source env).Safe B (Value.Sound B) := by
  refine (resolve_safe hx h ht).bind fun reference _ => ?_
  split
  · refine (value_safe hx hsource).bind fun v hv => ?_
    exact (put_safe reference hv).bind fun _ _ => .pure hv
  next op _ =>
    refine (get_safe reference).bind fun old hold => (value_safe hx hsource).bind fun v hv => ?_
    have hnew := op.apply_sound hold hv
    exact (put_safe reference hnew).bind fun _ _ => .pure hnew

theorem update_safe (hx : exec.Safe B) (op : UpdateOp) (ht : node.isTarget = true)
    (h : node.Fits B .expression) : (update exec op node env).Safe B (Value.Sound B) := by
  refine (resolve_safe hx h ht).bind fun reference _ => (get_safe reference).bind fun old _ => ?_
  exact Safe.bind (put_safe reference trivial) fun _ _ => .pure trivial

theorem unary_safe (hx : exec.Safe B) (op : UnaryOp) (h : node.Fits B .expression) :
    (unary exec op node env).Safe B (Value.Sound B) := by
  unfold unary
  split
  · exact delete_safe.bind fun _ _ => .pure trivial
  · exact (value_safe hx h).bind fun _ _ => .pure (UnaryOp.apply_sound _)

theorem binary_safe (hx : exec.Safe B) {left right : Node} (op : BinaryOp) (hl : left.Fits B .expression)
    (hr : right.Fits B .expression) : (binary exec op left right env).Safe B (Value.Sound B) := by
  refine (value_safe hx hl).bind fun a ha => ?_
  have hright : (value exec right env).Safe B (Value.Sound B) := value_safe hx hr
  split
  · split
    · exact hright
    · exact .pure ha
  · split
    · exact .pure ha
    · exact hright
  · exact hright
  · exact hright.bind fun b hb => .pure (BinaryOp.apply_sound _ ha hb)

theorem declareAll_safe (hx : exec.Safe B) {ds : List (String × Option Node)}
    (h : ∀ d ∈ ds, ∀ e ∈ d.2, e.Fits B .expression) :
    (declareAll exec env ds).Safe B (fun _ => True) := by
  induction ds with
  | nil => exact .pure trivial
  | cons d ds ih =>
    obtain ⟨hd, hds⟩ := List.forall_mem_cons.1 h
    refine (optionalValue_safe hx hd).bind fun v hv => ?_
    exact (declare_safe hv).bind fun _ _ => ih hds

/-! Loops take the jumps that their bodies complete with, so they complete as if they stood outside of
a loop. -/

theorem holds_safe (hx : exec.Safe B) {test : Option Node} (h : ∀ e ∈ test, e.Fits B .expression) :
    (holds exec test env).Safe B (fun _ => True) := by
  cases test with
  | none => exact .pure trivial
  | some e => exact (value_safe hx (h e rfl)).bind fun _ _ => .pure trivial

theorem forRounds_safe (hx : exec.Safe B) {test update : Option Node} {body : Node} {last : Value} (n : Nat)
    (htest : ∀ e ∈ test, e.Fits B .expression) (hupdate : ∀ e ∈ update, e.Fits B .expression)
    (hbody : body.Fits B (.statement true)) (hl : last.Sound B) :
    (forRounds exec test update body env n last).Safe B (Completion.Fits B (.statement inLoop)) := by
  induction n generalizing last with
  | zero => exact .halt rfl
  | succ n ih =>
    refine (holds_safe hx htest).bind fun b _ => ?_
    split
    · refine (hx _ _ env hbody).bind fun c hc => ?_
      cases c with
      | normal v => exact (optionalValue_safe hx hupdate).bind fun _ _ => ih hc
      -- jumps carry no value, so the loop keeps the last one
      | continued => exact (optionalValue_safe hx hupdate).bind fun _ _ => ih hl
      | broken => exact .pure hl
      | returned v => exact .pure hc
    · exact .pure hl

theorem whileRounds_safe (hx : exec.Safe B) {test body : Node} {last : Value} (n : Nat)
    (htest : test.Fits B .expression) (hbody : body.Fits B (.statement true)) (hl : last.Sound B) :
    (whileRounds exec test body env n last).Safe B (Completion.Fits B (.statement inLoop)) := by
  rw [← forRounds_eq_whileRounds]
  exact forRounds_safe hx n (by simpa using htest) (by simp) hbody hl

theorem doWhileRounds_safe (hx : exec.Safe B) {test body : Node} {last : Value} (n : Nat)
    (htest : test.Fits B .expression) (hbody : body.Fits B (.statement true)) (hl : last.Sound B) :
    (doWhileRounds exec test body env n last).Safe B (Completion.Fits B (.statement inLoop)) := by
  induction n generalizing last with
  | zero => exact .halt rfl
  | succ n ih =>
    refine (hx _ _ env hbody).bind fun c hc => ?_
    cases c with
    | normal v =>
      refine (value_safe hx htest).bind fun b _ => ?_
      split
      · exact ih hc
      · exact .pure hc
    | continued =>
      refine (value_safe hx htest).bind fun b _ => ?_
      split
      · exact ih hl
      · exact .pure hl
    | broken => exact .pure hl
    | returned v => exact .pure hc

theorem init_safe (hx : exec.Safe B) {first : Option Node}
    (h : ∀ e ∈ first, e.Fits B (.statement false)) : (init exec first env).Safe B (fun _ => True) := by
  cases first with
  | none => exact .pure trivial
  | some e => exact (hx _ _ env (h e rfl)).bind fun _ _ => .pure trivial

end Constructs

theorem execWith_safe (hB : Closed B) {exec : Exec} (hx : exec.Safe B) (n : Nat) :
    Exec.Safe B (execWith exec n) := by
  intro place node env h
  cases h with
  | number | boolean | string | regExp | null | empty => exact .pure trivial
  | identifier => exact read_safe.bind fun v hv => .pure hv
  | unary he => exact (unary_safe hx _ he).bind fun v hv => .pure hv
  | update ht he => exact (update_safe hx _ ht he).bind fun v hv => .pure hv
  | binary hl hr => exact (binary_safe hx _ hl hr).bind fun v hv => .pure hv
  | property ho hk =>
    exact (value_safe hx ho).bind fun _ _ => (value_safe hx hk).bind fun _ _ => .pure trivial
  | assign ht he hs => exact (assign_safe hx _ ht he hs).bind fun v hv => .pure hv
  | conditional htest hc ha =>
    refine (value_safe hx htest).bind fun v _ => Safe.bind (value_safe hx ?_) fun v hv => .pure hv
    split
    · exact hc
    · exact ha
  | call he hargs => exact (callNode_safe hB hx he hargs).bind fun v hv => .pure hv
  | function hbody => exact (newClosure_safe hbody).bind fun f hf => .pure hf
  | declaration hbody =>
    refine (newClosure_safe hbody).bind fun f hf => ?_
    split
    · exact Safe.bind (declare_safe hf) fun _ _ => .pure hf
    · exact .pure hf
  | block hss =>
    have hundefined : Value.undefined.Sound B := trivial
    exact newChild_safe.bind fun _ _ => statements_safe hx hss hundefined
  | varList hds => exact (declareAll_safe hx hds).bind fun _ _ => .pure trivial
  | returning he => exact (optionalValue_safe hx he).bind fun v hv => .pure hv
  | branch htest hc ha =>
    refine (value_safe hx htest).bind fun v _ => ?_
    split
    · exact hx _ _ env hc
    · split
      · exact hx _ _ env (ha _ rfl)
      · exact .pure trivial
  | whileLoop htest hbody => exact whileRounds_safe hx n htest hbody trivial
  | doWhileLoop htest hbody => exact doWhileRounds_safe hx n htest hbody trivial
  | forLoop hinit htest hupdate hbody =>
    exact (init_safe hx hinit).bind fun _ _ => forRounds_safe hx n htest hupdate hbody trivial
  | breakLoop | continueLoop => exact .pure trivial

/-- Nodes that fit run safely at every bound. -/
theorem exec_safe (hB : Closed B) (n : Nat) : (exec n).Safe B := by
  induction n with
  | zero => exact fun _ _ _ _ => .halt rfl
  | succ n ih => exact execWith_safe hB ih n

theorem result_safe {c : Completion} (h : c.Fits B (.statement false)) :
    (result c).Safe B (Value.Sound B) := by
  cases c with
  | normal v => exact .pure h
  | returned v => exact .pure h
  | broken | continued => exact h.elim

theorem program_safe (hB : Closed B) {p : Program} (h : ∀ s ∈ p, s.Fits B (.statement false))
    (limit : Nat) (env : FrameId) : (program limit p env).Safe B (Value.Sound B) := by
  have hundefined : Value.undefined.Sound B := trivial
  exact (statements_safe (exec_safe hB limit) h hundefined).bind fun _ hc => result_safe hc

theorem node_safe (hB : Closed B) {e : Node} (h : e.Fits B .expression) (limit : Nat) (env : FrameId) :
    (node limit e env).Safe B (Value.Sound B) :=
  (exec_safe hB limit _ _ env h.statement).bind fun _ hc => result_safe hc

end Eval

/-! ### Code that was read -/

/-- The run ends with a value, with a call of something that is no function, or at its bound, and
leaves functions with bodies in `B` only. -/
def Run.EndsInOrder (B : List Node → Prop) (r : Run Value) (st : Store) : Prop :=
  (∃ v st', r st = .ok v st' ∧ v.Sound B ∧ st'.Sound B) ∨
    (∃ d st', r st = .error (.failed (.notCallable d)) st' ∧ st'.Sound B) ∨
    ∃ st', r st = .error .exhausted st' ∧ st'.Sound B

theorem Run.Safe.endsInOrder {r : Run Value} {st : Store} (hr : r.Safe B (Value.Sound B))
    (hst : st.Sound B) : r.EndsInOrder B st := by
  have h := hr st hst
  split at h
  next v st' hrun => exact .inl ⟨v, st', hrun, h⟩
  next halt st' hrun =>
    obtain ⟨ho, hst'⟩ := h
    unfold Halt.isOrderly at ho
    split at ho
    · exact .inr (.inr ⟨st', hrun, hst'⟩)
    next d => exact .inr (.inl ⟨d, st', hrun, hst'⟩)
    · cases ho

theorem Session.new_sound : Session.new.store.Sound B := by
  intro env x hx
  cases env with
  | zero => cases hx
  | succ => cases hx

/-- Neither reading a source nor running what was read shows a defect, whatever closures made from
sources that could be read the store holds. -/
theorem parsed_never_internal (source : String) :
    (∀ d, parse source ≠ .error (.internal d)) ∧ (∀ d, parseExpression source ≠ .error (.internal d)) ∧
      ∀ (st : Store), st.Sound Parsed → ∀ (limit : Nat) (env : FrameId),
        (∀ p, parse source = .ok p → (Eval.program limit p env).EndsInOrder Parsed st) ∧
        (∀ e, parseExpression source = .ok e → (Eval.node limit e env).EndsInOrder Parsed st) := by
  refine ⟨fun d hd => ?_, fun d hd => ?_, fun st hst limit env => ⟨fun p hp => ?_, fun e he => ?_⟩⟩
  · rcases parse_sound source with ⟨p, rest, hp, -⟩ | ⟨e, he, hs⟩
    · rw [hd] at hp; cases hp
    · rw [hd] at he; cases he; cases hs
  · rcases parseExpression_sound source with ⟨e, lb, cs, rest, he, -⟩ | ⟨e, he, hs⟩
    · rw [hd] at he; cases he
    · rw [hd] at he; cases he; cases hs
  · exact (Eval.program_safe closed_parsed (parse_fits hp) limit env).endsInOrder hst
  · exact (Eval.node_safe closed_parsed (parseExpression_fits he) limit env).endsInOrder hst

/-- A call of a function whose body was read before. -/
theorem parsed_never_internal_call :
    (Eval.program 9 [.call (.identifier "f") []] 0).EndsInOrder Parsed
      (Session.new.store.declare 0 "f" (.function ⟨0, none, [], [.returning none], 0, false⟩)) := by
  have hbody : parseExpression "function()\x7breturn\x7d" = .ok (.function none [] [.returning none]) := by
    cbv
  have hcall : parse "f()" = .ok [.call (.identifier "f") []] := by cbv
  have hf : Parsed [.returning none] := .inr ⟨_, _, hbody, .here rfl⟩
  refine ((parsed_never_internal "f()").2.2 _ (Session.new_sound.declare ?_) 9 0).1 _ hcall
  exact hf

end Scriptlet
