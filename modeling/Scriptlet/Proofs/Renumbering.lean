import Scriptlet.Proofs.Footprint

/-!
# Runs under other numbers

Frames and functions are told apart by numbers that are given out in order, so what a run gives depends on
how many there were before it. `Store.Mirrors ρ S s t` says that the frames `S` of one store are in the
other under the numbers that `ρ` gives, and that the next numbers correspond. From such stores a program
runs in step, to the same end under these numbers and to such stores again (`exec_inStep`), whatever the
other frames hold: no operation depends on a number but for whether two are equal or one is smaller.
-/

namespace Scriptlet

/-- Other numbers for frames and functions, in the same order. -/
structure Renumbering where
  frame : FrameId → FrameId
  closure : Nat → Nat
  frame_strictMono : StrictMono frame
  closure_strictMono : StrictMono closure

variable {ρ : Renumbering} {S : Set FrameId}

/-! ### Values -/

def Closure.renumber (ρ : Renumbering) (f : Closure) : Closure :=
  { f with id := ρ.closure f.id, env := ρ.frame f.env }

def Value.renumber (ρ : Renumbering) : Value → Value
  | .function f => .function (f.renumber ρ)
  | v => v

def Completion.renumber (ρ : Renumbering) : Completion → Completion
  | .normal v => .normal (v.renumber ρ)
  | .returned v => .returned (v.renumber ρ)
  | c => c

namespace Value

@[simp] theorem renumber_undefined : Value.undefined.renumber ρ = .undefined := rfl

@[simp] theorem renumber_boolean (b : Bool) : (Value.boolean b).renumber ρ = .boolean b := rfl

@[simp] theorem renumber_number (x : Float) : (Value.number x).renumber ρ = .number x := rfl

@[simp] theorem renumber_string (s : String) : (Value.string s).renumber ρ = .string s := rfl

@[simp] theorem renumber_function (f : Closure) :
    (Value.function f).renumber ρ = .function (f.renumber ρ) := rfl

variable (v w : Value)

@[simp] theorem toNumber_renumber : (v.renumber ρ).toNumber = v.toNumber := by cases v <;> rfl

@[simp] theorem toBoolean_renumber : (v.renumber ρ).toBoolean = v.toBoolean := by cases v <;> rfl

@[simp] theorem typeName_renumber : (v.renumber ρ).typeName = v.typeName := by cases v <;> rfl

@[simp] theorem outline_renumber : (v.renumber ρ).outline = v.outline := by cases v <;> rfl

@[simp] theorem toWord_renumber : (v.renumber ρ).toWord = v.toWord := by simp [toWord]

@[simp] theorem toSignedWord_renumber : (v.renumber ρ).toSignedWord = v.toSignedWord := by
  simp [toSignedWord]

@[simp] theorem same_renumber : (v.renumber ρ).same (w.renumber ρ) = v.same w := by
  cases v <;> cases w <;> try rfl
  case function.function f g =>
    show (ρ.closure f.id == ρ.closure g.id) = (f.id == g.id)
    simp [ρ.closure_strictMono.injective.eq_iff]

@[simp] theorem compare?_renumber : (v.renumber ρ).compare? (w.renumber ρ) = v.compare? w := by
  cases v <;> cases w <;> rfl

theorem add_renumber : (v.renumber ρ).add (w.renumber ρ) = (v.add w).renumber ρ := by
  cases v <;> cases w <;> rfl

end Value

@[simp] theorem Completion.outline_renumber (c : Completion) : (c.renumber ρ).outline = c.outline := by
  cases c <;> simp [renumber, outline]

theorem BinaryOp.apply_renumber (op : BinaryOp) (a b : Value) :
    op.apply (a.renumber ρ) (b.renumber ρ) = (op.apply a b).renumber ρ := by
  cases op with
  | add => exact a.add_renumber b
  | and =>
    show (if (a.renumber ρ).toBoolean then b.renumber ρ else a.renumber ρ) = _
    rw [Value.toBoolean_renumber, ← apply_ite (Value.renumber ρ)]
    rfl
  | or =>
    show (if (a.renumber ρ).toBoolean then a.renumber ρ else b.renumber ρ) = _
    rw [Value.toBoolean_renumber, ← apply_ite (Value.renumber ρ)]
    rfl
  | sequence => rfl
  | _ => simp [apply, relates]

theorem UnaryOp.apply_renumber (op : UnaryOp) (a : Value) :
    op.apply (a.renumber ρ) = (op.apply a).renumber ρ := by
  cases op <;> simp [apply]

/-! ### Stores -/

def Bindings.renumber (ρ : Renumbering) (b : Bindings) : Bindings :=
  b.map fun p => (p.1, p.2.renumber ρ)

def Frame.renumber (ρ : Renumbering) (f : Frame) : Frame :=
  ⟨f.bindings.renumber ρ, f.outer.map ρ.frame⟩

namespace Bindings

variable (b : Bindings) {name : String} {v : Value}

theorem get?_renumber : (b.renumber ρ).get? name = (b.get? name).map (Value.renumber ρ) := by
  induction b with
  | nil => rfl
  | cons p b ih =>
    show get? ((p.1, p.2.renumber ρ) :: renumber ρ b) name = _
    rw [get?_cons, ih, ← Prod.eta p, get?_cons]
    split <;> rfl

theorem insert_renumber : (b.renumber ρ).insert name (v.renumber ρ) = (b.insert name v).renumber ρ := by
  induction b with
  | nil => rfl
  | cons p b ih =>
    show insert name (v.renumber ρ) ((p.1, p.2.renumber ρ) :: renumber ρ b) = _
    rw [← Prod.eta p, insert, insert, ih]
    split <;> rfl

theorem erase_renumber : (b.renumber ρ).erase name = (b.erase name).renumber ρ := by
  simp only [erase, renumber, List.filter_map]
  rfl

end Bindings

namespace Store

/-- The frames `S` of `s` are in `t` under other numbers, with all that they lead to. What will be opened
or made next has numbers that correspond. -/
structure Mirrors (ρ : Renumbering) (S : Set FrameId) (s t : Store) : Prop where
  getElem?_eq : ∀ i ∈ S, t.frames[ρ.frame i]? = s.frames[i]?.map (Frame.renumber ρ)
  closed : s.Closed S
  mem_of_size_le : ∀ i, s.frames.size ≤ i → i ∈ S
  frame_eq : ∀ n, ρ.frame (s.frames.size + n) = t.frames.size + n
  closure_eq : ∀ n, ρ.closure (s.closures + n) = t.closures + n

namespace Mirrors

variable {s t : Store} {env f i : FrameId} {name : String} {v : Value}

section

variable (h : s.Mirrors ρ S t)
include h

theorem outer?_eq (hi : i ∈ S) : t.outer? (ρ.frame i) = (s.outer? i).map ρ.frame := by
  rw [outer?, outer?, h.getElem?_eq i hi]
  cases s.frames[i]? <;> rfl

theorem bindings_eq (hi : i ∈ S) : t.bindings (ρ.frame i) = (s.bindings i).renumber ρ := by
  rw [bindings, bindings, h.getElem?_eq i hi]
  cases s.frames[i]? <;> rfl

theorem owns_eq (hi : i ∈ S) : t.owns name (ρ.frame i) = s.owns name i := by
  rw [Store.owns_eq, Store.owns_eq, h.bindings_eq hi, Bindings.get?_renumber, Option.isSome_map]

theorem chain_eq (henv : env ∈ S) : t.chain (ρ.frame env) = (s.chain env).map ρ.frame := by
  fun_induction s.chain env with
  | case1 env o ho hlt ih =>
    have ho' : t.outer? (ρ.frame env) = some (ρ.frame o) := by rw [h.outer?_eq henv, ho]; rfl
    -- a chain is followed to smaller numbers only, and `ρ` keeps the order
    rw [chain, ho']
    simp only [if_pos (ρ.frame_strictMono hlt), List.map_cons]
    rw [ih (h.closed env henv o (.inl ho))]
  | case2 env o ho hlt =>
    have ho' : t.outer? (ρ.frame env) = some (ρ.frame o) := by rw [h.outer?_eq henv, ho]; rfl
    rw [chain, ho']
    simp only [if_neg (mt ρ.frame_strictMono.lt_iff_lt.1 hlt), List.map_cons, List.map_nil]
  | case3 env ho =>
    have ho' : t.outer? (ρ.frame env) = none := by rw [h.outer?_eq henv, ho]; rfl
    rw [chain, ho']
    rfl

theorem owner?_eq (henv : env ∈ S) : t.owner? (ρ.frame env) name = (s.owner? env name).map ρ.frame := by
  rw [owner?, owner?, h.chain_eq henv, List.find?_map]
  congr 1
  refine List.find?_congr fun i hi => ?_
  exact h.owns_eq (h.closed.chain henv i hi)

theorem root_eq (henv : env ∈ S) : t.root (ρ.frame env) = ρ.frame (s.root env) := by
  rw [root, root, h.chain_eq henv, List.getLastD_eq_getLast?, List.getLastD_eq_getLast?, List.getLast?_map]
  cases (s.chain env).getLast? <;> rfl

theorem owner?_mem (henv : env ∈ S) (hf : s.owner? env name = some f) : f ∈ S :=
  h.closed.chain henv f (owner?_eq_some hf).1

theorem read_eq (henv : env ∈ S) : t.read (ρ.frame env) name = (s.read env name).renumber ρ := by
  rw [read, read, h.owner?_eq henv]
  cases hf : s.owner? env name with
  | none => rfl
  | some f =>
    simp only [Option.map_some, h.bindings_eq (h.owner?_mem henv hf), Bindings.get?_renumber]
    cases (s.bindings f).get? name <;> rfl

theorem modify {change change' : Bindings → Bindings}
    (hchange : ∀ b : Bindings, change' (b.renumber ρ) = (change b).renumber ρ)
    (hc : (s.modify f change).Closed S) :
    (s.modify f change).Mirrors ρ S (t.modify (ρ.frame f) change') := by
  refine ⟨fun i hi => ?_, hc, fun i hi => h.mem_of_size_le i (by simpa using hi), fun n => ?_, h.closure_eq⟩
  · rw [getElem?_modify, getElem?_modify, h.getElem?_eq i hi]
    by_cases hfi : f = i
    · rw [if_pos hfi, if_pos (congrArg ρ.frame hfi)]
      cases s.frames[i]? with
      | none => rfl
      | some fr => simp [Frame.renumber, hchange]
    · rw [if_neg hfi, if_neg (ρ.frame_strictMono.injective.ne hfi)]
  · rw [size_modify, size_modify]
    exact h.frame_eq n

theorem declare (hv : v.frames ⊆ S) :
    (s.declare f name v).Mirrors ρ S (t.declare (ρ.frame f) name (v.renumber ρ)) :=
  h.modify (fun b => b.insert_renumber) (h.closed.declare hv)

theorem write (henv : env ∈ S) (hv : v.frames ⊆ S) :
    (s.write env name v).Mirrors ρ S (t.write (ρ.frame env) name (v.renumber ρ)) := by
  rw [Store.write, Store.write, h.owner?_eq henv]
  cases s.owner? env name with
  | none =>
    simp only [Option.map_none, Option.getD_none, h.root_eq henv]
    exact h.declare hv
  | some f => exact h.declare hv

theorem delete (henv : env ∈ S) : (t.delete (ρ.frame env) name).1 = (s.delete env name).1 ∧
    (s.delete env name).2.Mirrors ρ S (t.delete (ρ.frame env) name).2 := by
  refine ⟨?_, ?_⟩
  · rw [Store.delete_fst, Store.delete_fst, Store.hasBinding, Store.hasBinding, h.owner?_eq henv, Option.isSome_map]
  · rw [Store.delete, Store.delete, h.owner?_eq henv]
    cases s.owner? env name with
    | none => exact h
    | some f => exact h.modify (fun b => b.erase_renumber) h.closed.modify_erase

theorem size_eq : ρ.frame s.frames.size = t.frames.size := h.frame_eq 0

theorem closures_eq : ρ.closure s.closures = t.closures := h.closure_eq 0

theorem newChild (henv : env ∈ S) : (s.newChild env).2.Mirrors ρ S (t.newChild (ρ.frame env)).2 := by
  refine ⟨fun i hi => ?_, fun i hi j hl => ?_, fun i hi => ?_, fun n => ?_, h.closure_eq⟩
  · simp only [Store.newChild, Array.getElem?_push]
    by_cases hs : i = s.frames.size
    · rw [if_pos hs, if_pos (by rw [hs, h.size_eq])]
      rfl
    · rw [if_neg hs, if_neg (by rw [← h.size_eq]; exact ρ.frame_strictMono.injective.ne hs)]
      exact h.getElem?_eq i hi
  · rcases links_newChild hl with hl | ⟨-, rfl⟩
    · exact h.closed i hi j hl
    · exact henv
  · rw [size_newChild] at hi
    exact h.mem_of_size_le i (Nat.le_of_succ_le hi)
  · rw [size_newChild, size_newChild, Nat.add_assoc, Nat.add_assoc]
    exact h.frame_eq (1 + n)

theorem links (hi : i ∈ S) {j : FrameId} (hl : s.Links i j) : t.Links (ρ.frame i) (ρ.frame j) := by
  rcases hl with ho | ⟨x, g, hg, rfl⟩
  · left
    rw [h.outer?_eq hi, ho]
    rfl
  · refine .inr ⟨x, g.renumber ρ, ?_, rfl⟩
    rw [h.bindings_eq hi]
    exact List.mem_map_of_mem hg

theorem reaches (hi : i ∈ S) {j : FrameId} (hr : s.Reaches i j) : t.Reaches (ρ.frame i) (ρ.frame j) := by
  induction hr with
  | refl => exact .refl
  | tail hr hl ih => exact ih.tail (h.links (h.closed.reaches hi hr) hl)

end

theorem newClosure (h : s.Mirrors ρ S t) :
    Mirrors ρ S { s with closures := s.closures + 1 } { t with closures := t.closures + 1 } := by
  refine ⟨h.getElem?_eq, h.closed, h.mem_of_size_le, h.frame_eq, fun n => ?_⟩
  show ρ.closure (s.closures + 1 + n) = t.closures + 1 + n
  rw [Nat.add_assoc, Nat.add_assoc]
  exact h.closure_eq (1 + n)

end Mirrors

end Store

/-! ### Runs -/

/-- A value and the same value under other numbers, made within `S`. -/
def Value.Mirrors (ρ : Renumbering) (S : Set FrameId) (v w : Value) : Prop :=
  w = v.renumber ρ ∧ v.frames ⊆ S

def Completion.Mirrors (ρ : Renumbering) (S : Set FrameId) (c d : Completion) : Prop :=
  d = c.renumber ρ ∧ c.frames ⊆ S

/-- What is said about a halt; nothing about one for want of time. -/
def Halt.message? : Halt → Option String
  | .failed e => some e.message
  | .exhausted => none

theorem Halt.message?_noValue (c : Completion) :
    (failed (.internal (.noValue (c.renumber ρ)))).message? = (failed (.internal (.noValue c))).message? := by
  have hd : (Defect.noValue (c.renumber ρ)).describe = (Defect.noValue c).describe :=
    congrArg (Text.Outline.line · ++ " completion in expression position") c.outline_renumber
  exact congrArg (fun d => some ("InternalError: " ++ d)) hd

/-- Both give results that are related, or both halt with the same message. -/
inductive EndAlike {α β : Type} (ρ : Renumbering) (S : Set FrameId) (P : α → β → Prop) :
    EStateM.Result Halt Store α → EStateM.Result Halt Store β → Prop where
  | ok {a : α} {b : β} {s t : Store} : P a b → s.Mirrors ρ S t → EndAlike ρ S P (.ok a s) (.ok b t)
  | error {e e' : Halt} {s t : Store} : e'.message? = e.message? → s.Mirrors ρ S t →
      EndAlike ρ S P (.error e s) (.error e' t)

namespace Run

variable {α β γ δ : Type} {P : α → β → Prop} {Q : γ → δ → Prop} {env : FrameId} {name : String} {v w : Value}

/-- From stores that mirror each other the two runs end alike. -/
def InStep (ρ : Renumbering) (S : Set FrameId) (P : α → β → Prop) (r : Run α) (r' : Run β) : Prop :=
  ∀ s t, s.Mirrors ρ S t → EndAlike ρ S P (r s) (r' t)

namespace InStep

theorem pure {a : α} {b : β} (h : P a b) : InStep ρ S P (pure a) (pure b) := fun _ _ hst => .ok h hst

theorem halt {e e' : Halt} (h : e'.message? = e.message?) :
    InStep ρ S P (throw e : Run α) (throw e' : Run β) := fun _ _ hst => .error h hst

theorem bind {r : Run α} {r' : Run β} {f : α → Run γ} {f' : β → Run δ} (hr : InStep ρ S P r r')
    (hf : ∀ a b, P a b → InStep ρ S Q (f a) (f' b)) : InStep ρ S Q (r >>= f) (r' >>= f') := by
  intro s t hst
  have h := hr s t hst
  show EndAlike ρ S Q (EStateM.bind r f s) (EStateM.bind r' f' t)
  unfold EStateM.bind
  cases hs : r s <;> cases ht : r' t <;> rw [hs, ht] at h <;> cases h
  case ok.ok hP hst => exact hf _ _ hP _ _ hst
  case error.error he hst => exact .error he hst

end InStep

theorem read_inStep (henv : env ∈ S) :
    InStep ρ S (Value.Mirrors ρ S) (read env name) (read (ρ.frame env) name) :=
  fun _ _ hst => .ok ⟨hst.read_eq henv, hst.closed.read henv⟩ hst

theorem write_inStep (henv : env ∈ S) (hv : v.Mirrors ρ S w) :
    InStep ρ S (fun _ _ => True) (write env name v) (write (ρ.frame env) name w) := by
  obtain ⟨rfl, hv⟩ := hv
  exact fun _ _ hst => .ok trivial (hst.write henv hv)

theorem declare_inStep (hv : v.Mirrors ρ S w) :
    InStep ρ S (fun _ _ => True) (declare env name v) (declare (ρ.frame env) name w) := by
  obtain ⟨rfl, hv⟩ := hv
  exact fun _ _ hst => .ok trivial (hst.declare hv)

theorem delete_inStep (henv : env ∈ S) :
    InStep ρ S Eq (delete env name) (delete (ρ.frame env) name) :=
  fun _ _ hst => .ok (hst.delete henv).1.symm (hst.delete henv).2

theorem newChild_inStep (henv : env ∈ S) :
    InStep ρ S (fun i j => j = ρ.frame i ∧ i ∈ S) (newChild env) (newChild (ρ.frame env)) :=
  fun _ _ hst => .ok ⟨hst.size_eq.symm, hst.mem_of_size_le _ (Nat.le_refl _)⟩ (hst.newChild henv)

theorem newClosure_inStep {name : Option String} {params : List String} {body : List Node} {own : Bool}
    (henv : env ∈ S) : InStep ρ S (fun f g => (Value.function f).Mirrors ρ S (.function g))
      (newClosure env name params body own) (newClosure (ρ.frame env) name params body own) := by
  intro s t hst
  refine .ok ⟨?_, by simpa using henv⟩ hst.newClosure
  simp [Closure.renumber, hst.closures_eq]

end Run

namespace Eval

open Run

/-- What runs nodes runs them in step. -/
def Exec.InStep (ρ : Renumbering) (S : Set FrameId) (exec : Exec) : Prop :=
  ∀ node env, env ∈ S → Run.InStep ρ S (Completion.Mirrors ρ S) (exec node env) (exec node (ρ.frame env))

section Constructs

variable {exec : Exec} {env : FrameId} {node : Node}

section

variable (hx : exec.InStep ρ S) (henv : env ∈ S)
include hx henv

theorem value_inStep (node : Node) :
    InStep ρ S (Value.Mirrors ρ S) (value exec node env) (value exec node (ρ.frame env)) := by
  refine (hx node env henv).bind fun c d hc => ?_
  obtain ⟨rfl, hc⟩ := hc
  cases c with
  | normal v => exact .pure ⟨rfl, hc⟩
  | returned | broken | continued => exact .halt (Halt.message?_noValue _)

theorem optionalValue_inStep (node : Option Node) :
    InStep ρ S (Value.Mirrors ρ S) (optionalValue exec node env) (optionalValue exec node (ρ.frame env)) := by
  cases node with
  | none => exact .pure ⟨rfl, Set.empty_subset _⟩
  | some e => exact value_inStep hx henv e

theorem values_inStep (nodes : List Node) :
    InStep ρ S (List.Forall₂ (Value.Mirrors ρ S)) (values exec env nodes)
      (values exec (ρ.frame env) nodes) := by
  induction nodes with
  | nil => exact .pure .nil
  | cons e es ih =>
    exact (value_inStep hx henv e).bind fun v w hv => ih.bind fun vs ws hvs => .pure (.cons hv hvs)

theorem statements_inStep {last last' : Value} (nodes : List Node) (hl : last.Mirrors ρ S last') :
    InStep ρ S (Completion.Mirrors ρ S) (statements exec env last nodes)
      (statements exec (ρ.frame env) last' nodes) := by
  induction nodes generalizing last last' with
  | nil =>
    obtain ⟨rfl, hl⟩ := hl
    exact .pure ⟨rfl, hl⟩
  | cons s ss ih =>
    refine (hx s env henv).bind fun c d hc => ?_
    obtain ⟨rfl, hc⟩ := hc
    cases c with
    | normal v => exact ih ⟨rfl, hc⟩
    | returned | broken | continued => exact .pure ⟨rfl, hc⟩

end

theorem bindParams_inStep {args args' : List Value} (names : List String)
    (h : List.Forall₂ (Value.Mirrors ρ S) args args') :
    InStep ρ S (fun _ _ => True) (bindParams env names args) (bindParams (ρ.frame env) names args') := by
  induction names generalizing args args' with
  | nil => exact .pure trivial
  | cons name names ih =>
    cases h with
    | nil => exact (declare_inStep ⟨rfl, Set.empty_subset _⟩).bind fun _ _ _ => ih .nil
    | cons hv hvs => exact (declare_inStep hv).bind fun _ _ _ => ih hvs

theorem bindOwnName_inStep {f : Closure} (hf : (Value.function f).frames ⊆ S) :
    InStep ρ S (fun _ _ => True) (bindOwnName env f) (bindOwnName (ρ.frame env) (f.renumber ρ)) := by
  have hname : (f.renumber ρ).name = f.name := rfl
  have hown : (f.renumber ρ).bindsOwnName = f.bindsOwnName := rfl
  unfold bindOwnName
  rw [hname, hown]
  cases f.name with
  | none => exact .pure trivial
  | some name =>
    by_cases h : f.bindsOwnName = true
    · simp only [if_pos h]
      exact declare_inStep ⟨rfl, hf⟩
    · simp only [if_neg h]
      exact .pure trivial

theorem yielded_inStep {c d : Completion} (h : c.Mirrors ρ S d) :
    InStep ρ S (Value.Mirrors ρ S) (yielded c) (yielded d) := by
  obtain ⟨rfl, hc⟩ := h
  cases c with
  | normal v => exact .pure ⟨rfl, Set.empty_subset _⟩
  | returned v => exact .pure ⟨rfl, hc⟩
  | broken | continued => exact .halt rfl

section

variable (hx : exec.InStep ρ S)
include hx

theorem call_inStep {f : Closure} {args args' : List Value} (hf : (Value.function f).frames ⊆ S)
    (h : List.Forall₂ (Value.Mirrors ρ S) args args') :
    InStep ρ S (Value.Mirrors ρ S) (call exec f args) (call exec (f.renumber ρ) args') := by
  rw [call_eq, call_eq]
  refine (newChild_inStep (hf (by simp))).bind fun i j hi => ?_
  obtain ⟨rfl, hi⟩ := hi
  refine (bindOwnName_inStep hf).bind fun _ _ _ => (bindParams_inStep f.params h).bind fun _ _ _ => ?_
  exact (statements_inStep hx hi f.body ⟨rfl, Set.empty_subset _⟩).bind fun _ _ => yielded_inStep

variable (henv : env ∈ S)
include henv

theorem callNode_inStep (args : List Node) :
    InStep ρ S (Value.Mirrors ρ S) (callNode exec node args env) (callNode exec node args (ρ.frame env)) := by
  refine (value_inStep hx henv node).bind fun v w hv => (values_inStep hx henv args).bind fun vs ws hvs => ?_
  obtain ⟨rfl, hv⟩ := hv
  cases v with
  | function f => exact call_inStep hx hv hvs
  | _ => cases node <;> exact .halt rfl

theorem resolve_inStep (node : Node) :
    InStep ρ S Eq (resolve exec env node) (resolve exec (ρ.frame env) node) := by
  cases node with
  | identifier name => exact .pure rfl
  | property object key =>
    refine (value_inStep hx henv object).bind fun _ _ _ => (value_inStep hx henv key).bind fun _ _ _ => ?_
    exact .pure rfl
  | _ => exact .halt rfl

omit hx in
theorem get_inStep (reference : Reference) :
    InStep ρ S (Value.Mirrors ρ S) (reference.get env) (reference.get (ρ.frame env)) := by
  cases reference with
  | «variable» name => exact read_inStep henv
  | property => exact .pure ⟨rfl, Set.empty_subset _⟩

omit hx in
theorem put_inStep {v w : Value} (reference : Reference) (hv : v.Mirrors ρ S w) :
    InStep ρ S (fun _ _ => True) (reference.put env v) (reference.put (ρ.frame env) w) := by
  cases reference with
  | «variable» name => exact write_inStep henv hv
  | property => exact .pure trivial

end

/-- Operators give values that mirror each other. -/
theorem mirrors_apply {a a' b b' : Value} (op : BinaryOp) (ha : a.Mirrors ρ S a') (hb : b.Mirrors ρ S b') :
    (op.apply a b).Mirrors ρ S (op.apply a' b') := by
  obtain ⟨rfl, ha⟩ := ha
  obtain ⟨rfl, hb⟩ := hb
  refine ⟨op.apply_renumber a b, fun i hi => ?_⟩
  rcases op.handles_apply a b hi with hi | hi
  · exact ha hi
  · exact hb hi

section

variable (hx : exec.InStep ρ S) (henv : env ∈ S)
include hx henv

theorem assign_inStep (op : AssignOp) (source : Node) :
    InStep ρ S (Value.Mirrors ρ S) (assign exec op node source env)
      (assign exec op node source (ρ.frame env)) := by
  refine (resolve_inStep hx henv node).bind fun reference _ he => ?_
  subst he
  cases op.binary? with
  | none =>
    refine (value_inStep hx henv source).bind fun v w hv => ?_
    exact (put_inStep henv reference hv).bind fun _ _ _ => .pure hv
  | some op =>
    refine (get_inStep henv reference).bind fun old old' hold => ?_
    refine (value_inStep hx henv source).bind fun v w hv => ?_
    have hnew := mirrors_apply op hold hv
    exact (put_inStep henv reference hnew).bind fun _ _ _ => .pure hnew

theorem update_inStep (op : UpdateOp) :
    InStep ρ S (Value.Mirrors ρ S) (update exec op node env) (update exec op node (ρ.frame env)) := by
  refine (resolve_inStep hx henv node).bind fun reference _ he => ?_
  subst he
  refine (get_inStep henv reference).bind fun old old' hold => ?_
  obtain ⟨rfl, -⟩ := hold
  simp only [Value.toNumber_renumber]
  refine (put_inStep henv reference ⟨rfl, Set.empty_subset _⟩).bind fun _ _ _ => ?_
  exact .pure ⟨rfl, Set.empty_subset _⟩

theorem unary_inStep (op : UnaryOp) :
    InStep ρ S (Value.Mirrors ρ S) (unary exec op node env) (unary exec op node (ρ.frame env)) := by
  unfold unary
  split
  · refine (delete_inStep henv).bind fun b _ he => ?_
    subst he
    exact .pure ⟨rfl, Set.empty_subset _⟩
  · refine (value_inStep hx henv _).bind fun v w hv => ?_
    obtain ⟨rfl, hv⟩ := hv
    refine .pure ⟨UnaryOp.apply_renumber _ v, fun i hi => ?_⟩
    rw [Value.frames, UnaryOp.handles_apply] at hi
    cases hi

theorem binary_inStep {left right : Node} (op : BinaryOp) :
    InStep ρ S (Value.Mirrors ρ S) (binary exec op left right env)
      (binary exec op left right (ρ.frame env)) := by
  refine (value_inStep hx henv left).bind fun a a' ha => ?_
  have hright := value_inStep hx henv right
  have hleft : InStep ρ S (Value.Mirrors ρ S) (pure a) (pure a') := .pure ha
  have htest : a'.toBoolean = a.toBoolean := by rw [ha.1, Value.toBoolean_renumber]
  rw [htest]
  split
  · split
    · exact hright
    · exact hleft
  · split
    · exact hleft
    · exact hright
  · exact hright
  · exact hright.bind fun b b' hb => .pure (mirrors_apply _ ha hb)

theorem declareAll_inStep (ds : List (String × Option Node)) :
    InStep ρ S (fun _ _ => True) (declareAll exec env ds) (declareAll exec (ρ.frame env) ds) := by
  induction ds with
  | nil => exact .pure trivial
  | cons d ds ih =>
    refine (optionalValue_inStep hx henv d.2).bind fun v w hv => ?_
    exact (declare_inStep hv).bind fun _ _ _ => ih

theorem holds_inStep (test : Option Node) :
    InStep ρ S Eq (holds exec test env) (holds exec test (ρ.frame env)) := by
  cases test with
  | none => exact .pure rfl
  | some e =>
    refine (value_inStep hx henv e).bind fun v w hv => .pure ?_
    rw [hv.1, Value.toBoolean_renumber]

theorem forRounds_inStep {test update : Option Node} {body : Node} {last last' : Value} (n : Nat)
    (hl : last.Mirrors ρ S last') :
    InStep ρ S (Completion.Mirrors ρ S) (forRounds exec test update body env n last)
      (forRounds exec test update body (ρ.frame env) n last') := by
  induction n generalizing last last' with
  | zero => exact .halt rfl
  | succ n ih =>
    refine (holds_inStep hx henv test).bind fun b _ he => ?_
    subst he
    have hlast : (Completion.normal last).Mirrors ρ S (.normal last') := ⟨by rw [hl.1]; rfl, hl.2⟩
    split
    · refine (hx body env henv).bind fun c d hc => ?_
      obtain ⟨rfl, hc⟩ := hc
      cases c with
      | normal v => exact (optionalValue_inStep hx henv update).bind fun _ _ _ => ih ⟨rfl, hc⟩
      | continued => exact (optionalValue_inStep hx henv update).bind fun _ _ _ => ih hl
      | broken => exact .pure hlast
      | returned v => exact .pure ⟨rfl, hc⟩
    · exact .pure hlast

theorem whileRounds_inStep {test body : Node} {last last' : Value} (n : Nat) (hl : last.Mirrors ρ S last') :
    InStep ρ S (Completion.Mirrors ρ S) (whileRounds exec test body env n last)
      (whileRounds exec test body (ρ.frame env) n last') := by
  simp only [← forRounds_eq_whileRounds]
  exact forRounds_inStep hx henv n hl

theorem doWhileRounds_inStep {test body : Node} {last last' : Value} (n : Nat) (hl : last.Mirrors ρ S last') :
    InStep ρ S (Completion.Mirrors ρ S) (doWhileRounds exec test body env n last)
      (doWhileRounds exec test body (ρ.frame env) n last') := by
  induction n generalizing last last' with
  | zero => exact .halt rfl
  | succ n ih =>
    refine (hx body env henv).bind fun c d hc => ?_
    obtain ⟨rfl, hc⟩ := hc
    have hend : ∀ {v v' : Value}, v.Mirrors ρ S v' →
        InStep ρ S (Completion.Mirrors ρ S) (pure (.normal v)) (pure (.normal v')) :=
      fun hv => .pure ⟨by rw [hv.1]; rfl, hv.2⟩
    cases c with
    | normal v =>
      refine (value_inStep hx henv test).bind fun b _ hb => ?_
      rw [hb.1, Value.toBoolean_renumber]
      split
      · exact ih ⟨rfl, hc⟩
      · exact hend ⟨rfl, hc⟩
    | continued =>
      refine (value_inStep hx henv test).bind fun b _ hb => ?_
      rw [hb.1, Value.toBoolean_renumber]
      split
      · exact ih hl
      · exact hend hl
    | broken => exact hend hl
    | returned v => exact .pure ⟨rfl, hc⟩

theorem init_inStep (first : Option Node) :
    InStep ρ S (fun _ _ => True) (init exec first env) (init exec first (ρ.frame env)) := by
  cases first with
  | none => exact .pure trivial
  | some e => exact (hx e env henv).bind fun _ _ _ => .pure trivial

end

end Constructs

/-- A value that a node completes with. -/
theorem normal_inStep {r r' : Run Value} (h : InStep ρ S (Value.Mirrors ρ S) r r') :
    InStep ρ S (Completion.Mirrors ρ S) (Completion.normal <$> r) (Completion.normal <$> r') := by
  refine h.bind fun v w hv => .pure ?_
  obtain ⟨rfl, hv⟩ := hv
  exact ⟨rfl, hv⟩

theorem execWith_inStep {exec : Exec} (hx : exec.InStep ρ S) (n : Nat) :
    Exec.InStep ρ S (execWith exec n) := by
  intro node env henv
  cases node with
  | number | boolean | string | regExp | null | empty => exact .pure ⟨rfl, Set.empty_subset _⟩
  | breakLoop | continueLoop => exact .pure ⟨rfl, Set.empty_subset _⟩
  | identifier name => exact normal_inStep (read_inStep henv)
  | unary op e => exact normal_inStep (unary_inStep hx henv op)
  | update op e => exact normal_inStep (update_inStep hx henv op)
  | binary op left right => exact normal_inStep (binary_inStep hx henv op)
  | property object key =>
    refine (value_inStep hx henv object).bind fun _ _ _ => (value_inStep hx henv key).bind fun _ _ _ => ?_
    exact .pure ⟨rfl, Set.empty_subset _⟩
  | assign op target source => exact normal_inStep (assign_inStep hx henv op source)
  | conditional test consequent alternate =>
    refine (value_inStep hx henv test).bind fun v w hv => ?_
    rw [hv.1, Value.toBoolean_renumber]
    exact normal_inStep (value_inStep hx henv _)
  | call callee args => exact normal_inStep (callNode_inStep hx henv args)
  | function name params body =>
    refine (newClosure_inStep henv).bind fun f g hf => .pure ?_
    obtain ⟨he, hf⟩ := hf
    exact ⟨by rw [he]; rfl, hf⟩
  | declaration name params body =>
    refine (newClosure_inStep henv).bind fun f g hf => ?_
    have hend : (Completion.normal (.function f)).Mirrors ρ S (.normal (.function g)) :=
      ⟨by rw [hf.1]; rfl, hf.2⟩
    cases name with
    | none => exact .pure hend
    | some name => exact (declare_inStep hf).bind fun _ _ _ => .pure hend
  | block nodes =>
    refine (newChild_inStep henv).bind fun i j hi => ?_
    obtain ⟨rfl, hi⟩ := hi
    exact statements_inStep hx hi nodes ⟨rfl, Set.empty_subset _⟩
  | varList ds =>
    exact (declareAll_inStep hx henv ds).bind fun _ _ _ => .pure ⟨rfl, Set.empty_subset _⟩
  | returning argument =>
    refine (optionalValue_inStep hx henv argument).bind fun v w hv => .pure ?_
    exact ⟨by rw [hv.1]; rfl, hv.2⟩
  | branch test consequent alternate =>
    refine (value_inStep hx henv test).bind fun v w hv => ?_
    rw [hv.1, Value.toBoolean_renumber]
    split
    · exact hx consequent env henv
    · cases alternate with
      | none => exact .pure ⟨rfl, Set.empty_subset _⟩
      | some alternate => exact hx alternate env henv
  | whileLoop test body => exact whileRounds_inStep hx henv n ⟨rfl, Set.empty_subset _⟩
  | doWhileLoop test body => exact doWhileRounds_inStep hx henv n ⟨rfl, Set.empty_subset _⟩
  | forLoop first test update body =>
    refine (init_inStep hx henv first).bind fun _ _ _ => ?_
    exact forRounds_inStep hx henv n ⟨rfl, Set.empty_subset _⟩

theorem exec_inStep (n : Nat) : (exec n).InStep ρ S := by
  induction n with
  | zero => exact fun _ _ _ => .halt rfl
  | succ n ih => exact execWith_inStep ih n

theorem program_inStep (limit : Nat) (p : Program) {env : FrameId} (henv : env ∈ S) :
    InStep ρ S (Value.Mirrors ρ S) (program limit p env) (program limit p (ρ.frame env)) := by
  refine (statements_inStep (exec_inStep limit) henv p ⟨rfl, Set.empty_subset _⟩).bind fun c d hc => ?_
  obtain ⟨rfl, hc⟩ := hc
  cases c with
  | normal v => exact .pure ⟨rfl, hc⟩
  | returned v => exact .pure ⟨rfl, hc⟩
  | broken | continued => exact .halt rfl

end Eval

end Scriptlet
