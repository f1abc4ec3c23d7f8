import Scriptlet.Proofs.Frames
import Scriptlet.Proofs.WellFormed
import Scriptlet.Session

/-!
# How runs use the store

A run holds the frame that it runs in, the functions that it is given or reads with their frames, and what
it makes itself. All that it does to the store it does through these handles: `Access` is one such use, and
every run is a sequence of them (`Run.Uses`, `exec_uses`). Names are bound only in frames that the run
opened, and in its own frame those that the node declares there (`Node.Declares`).

What holds of the store along all runs then is a property of single accesses.
-/

namespace Scriptlet

/-- What a run can hold: a frame, or a function. -/
inductive Handle where
  | frame (i : FrameId)
  | closure (n : Nat)

/-- A function and the frame that it was made in. -/
def Value.handles : Value → Set Handle
  | .function f => {.frame f.env, .closure f.id}
  | _ => ∅

def Completion.handles : Completion → Set Handle
  | .normal v | .returned v => v.handles
  | .broken | .continued => ∅

def Handle.frames (H : Set Handle) : Set FrameId := {i | .frame i ∈ H}

/-- All functions, and the given frames. -/
def Handle.within (S : Set FrameId) : Set Handle := {h | ∀ i, h = .frame i → i ∈ S}

theorem Handle.frames_subset_iff {H : Set Handle} {S : Set FrameId} : frames H ⊆ S ↔ H ⊆ within S :=
  ⟨fun h _ hx i hi => h (by subst hi; exact hx), fun h i hi => h hi i rfl⟩

@[simp] theorem Handle.frames_singleton (i : FrameId) : frames {.frame i} = {i} := by
  ext j
  simp [frames]

def Value.frames (v : Value) : Set FrameId := Handle.frames v.handles

theorem Value.handles_subset_within {v : Value} {S : Set FrameId} (h : v.frames ⊆ S) :
    v.handles ⊆ Handle.within S := Handle.frames_subset_iff.1 h

def Completion.frames (c : Completion) : Set FrameId := Handle.frames c.handles

@[simp] theorem Value.frames_function (f : Closure) : (Value.function f).frames = {f.env} := by
  ext i
  simp [frames, handles, Handle.frames]

/-- A store, and what a run holds. -/
structure Held where
  store : Store
  handles : Set Handle

/-- One use of the store through handles that are held. A name may be bound in a frame if `may` says so;
what is assigned, or read, or removed, is found through the chain of a frame. -/
inductive Access (may : FrameId → String → Prop) : Held → Held → Prop where
  | read {st : Store} {H : Set Handle} {env : FrameId} (name : String) :
      .frame env ∈ H → Access may ⟨st, H⟩ ⟨st, H ∪ (st.read env name).handles⟩
  | write {st : Store} {H : Set Handle} {env : FrameId} (name : String) {v : Value} :
      .frame env ∈ H → v.handles ⊆ H → Access may ⟨st, H⟩ ⟨st.write env name v, H⟩
  | declare {st : Store} {H : Set Handle} {env : FrameId} {name : String} {v : Value} :
      .frame env ∈ H → v.handles ⊆ H → may env name → Access may ⟨st, H⟩ ⟨st.declare env name v, H⟩
  | delete {st : Store} {H : Set Handle} {env : FrameId} (name : String) :
      .frame env ∈ H → Access may ⟨st, H⟩ ⟨(st.delete env name).2, H⟩
  | newChild {st : Store} {H : Set Handle} {env : FrameId} :
      .frame env ∈ H → Access may ⟨st, H⟩ ⟨(st.newChild env).2, insert (.frame st.frames.size) H⟩
  | newClosure {st : Store} {H : Set Handle} :
      Access may ⟨st, H⟩ ⟨{ st with closures := st.closures + 1 }, insert (.closure st.closures) H⟩

abbrev Accesses (may : FrameId → String → Prop) : Held → Held → Prop :=
  Relation.ReflTransGen (Access may)

section

variable {may may' : FrameId → String → Prop} {k k' : Held}

theorem Access.mono (hm : ∀ f x, may f x → may' f x) (h : Access may k k') : Access may' k k' := by
  cases h with
  | read name he => exact .read name he
  | write name he hv => exact .write name he hv
  | declare he hv hmay => exact .declare he hv (hm _ _ hmay)
  | delete name he => exact .delete name he
  | newChild he => exact .newChild he
  | newClosure => exact .newClosure

theorem Accesses.mono (hm : ∀ f x, may f x → may' f x) (h : Accesses may k k') : Accesses may' k k' :=
  Relation.ReflTransGen.mono (fun _ _ => Access.mono hm) _ _ h

/-- Nothing is forgotten and no frame is removed. -/
theorem Access.grows (h : Access may k k') :
    k.handles ⊆ k'.handles ∧ k.store.frames.size ≤ k'.store.frames.size := by
  cases h <;> simp [Set.subset_union_left, Set.subset_insert]

theorem Accesses.grows (h : Accesses may k k') :
    k.handles ⊆ k'.handles ∧ k.store.frames.size ≤ k'.store.frames.size := by
  induction h with
  | refl => exact ⟨subset_rfl, Nat.le_refl _⟩
  | tail _ hstep ih => exact ⟨ih.1.trans hstep.grows.1, Nat.le_trans ih.2 hstep.grows.2⟩

end

/-- The frames from number `size` on are new, and any name may be bound there; in the frame `home` only
the given names. -/
def Binds (size : Nat) (home : FrameId) (names : Set String) (f : FrameId) (x : String) : Prop :=
  size ≤ f ∨ (f = home ∧ x ∈ names)

namespace Run

variable {α β : Type} {need : Set Handle} {home env : FrameId} {X : Set String}
  {g : α → Set Handle} {g' : β → Set Handle} {name : String} {v : Value}

/-- The store that a run leaves, however it ends. -/
def after (r : Run α) (st : Store) : Store :=
  match r st with
  | .ok _ st' => st'
  | .error _ st' => st'

theorem after_of_ok {r : Run α} {a : α} {st st' : Store} (h : r st = .ok a st') : r.after st = st' := by
  unfold after
  rw [h]

/-- A run that is given the handles `need` uses the store through them and what it finds on its way, binds
names in `home` and in new frames, and has a result with handles that are held then. -/
def Uses (need : Set Handle) (home : FrameId) (X : Set String) (g : α → Set Handle) (r : Run α) : Prop :=
  ∀ st H, need ⊆ H → ∃ H', Accesses (Binds st.frames.size home X) ⟨st, H⟩ ⟨r.after st, H'⟩ ∧
    ∀ a st', r st = .ok a st' → g a ⊆ H'

namespace Uses

theorem pure {a : α} (h : g a ⊆ need) : (pure a : Run α).Uses need home X g :=
  fun _ H hH => ⟨H, .refl, fun _ _ he => by cases he; exact h.trans hH⟩

theorem halt {e : Halt} : (throw e : Run α).Uses need home X g :=
  fun _ H _ => ⟨H, .refl, fun _ _ he => by cases he⟩

theorem bind {r : Run α} {f : α → Run β} (hr : r.Uses need home X g)
    (hf : ∀ a, (f a).Uses (need ∪ g a) home X g') : (r >>= f).Uses need home X g' := by
  intro st H hH
  obtain ⟨H₁, h₁, hg⟩ := hr st H hH
  have hbind : (r >>= f) st = EStateM.bind r f st := rfl
  unfold after at h₁
  cases hrun : r st with
  | error e st₁ =>
    rw [hrun] at h₁
    refine ⟨H₁, ?_, fun b st' he => ?_⟩
    · simpa [after, hbind, EStateM.bind, hrun] using h₁
    · rw [hbind, EStateM.bind, hrun] at he; cases he
  | ok a st₁ =>
    rw [hrun] at h₁
    obtain ⟨hsub, hsize⟩ := h₁.grows
    obtain ⟨H₂, h₂, hg'⟩ := hf a st₁ H₁ (Set.union_subset (hH.trans hsub) (hg a st₁ hrun))
    have hstep : (r >>= f) st = f a st₁ := by rw [hbind, EStateM.bind, hrun]
    refine ⟨H₂, ?_, fun b st' he => hg' b st' (hstep ▸ he)⟩
    have hafter : (r >>= f).after st = (f a).after st₁ := by unfold after; rw [hstep]
    rw [hafter]
    -- what is new to the second run is new to both
    exact h₁.trans (h₂.mono fun f x hb => hb.imp_left (Nat.le_trans hsize))

/-- In a frame that it opens a run may bind every name. -/
theorem scope {f : FrameId → Run α} (henv : .frame env ∈ need)
    (hf : ∀ c, (f c).Uses (insert (.frame c) need) c Set.univ g) :
    (newChild env >>= f).Uses need home X g := by
  intro st H hH
  obtain ⟨H', h, hg⟩ := hf st.frames.size (st.newChild env).2 (insert (.frame st.frames.size) H)
    (Set.insert_subset_insert hH)
  refine ⟨H', .head (.newChild (hH henv)) (h.mono fun f x hb => .inl ?_), hg⟩
  rw [Store.size_newChild] at hb
  rcases hb with hb | ⟨rfl, -⟩
  · exact Nat.le_of_succ_le hb
  · exact Nat.le_refl _

end Uses

theorem read_uses (henv : .frame env ∈ need) : (read env name).Uses need home X Value.handles :=
  fun _ _ hH => ⟨_, .single (.read name (hH henv)), fun _ _ he => by cases he; exact Set.subset_union_right⟩

theorem write_uses (henv : .frame env ∈ need) (hv : v.handles ⊆ need) :
    (write env name v).Uses need home X fun _ => ∅ :=
  fun _ H hH => ⟨H, .single (.write name (hH henv) (hv.trans hH)), fun _ _ _ => Set.empty_subset H⟩

theorem declare_uses (hhome : .frame home ∈ need) (hv : v.handles ⊆ need) (hX : name ∈ X) :
    (declare home name v).Uses need home X fun _ => ∅ :=
  fun _ H hH => ⟨H, .single (.declare (hH hhome) (hv.trans hH) (.inr ⟨rfl, hX⟩)),
    fun _ _ _ => Set.empty_subset H⟩

theorem delete_uses (henv : .frame env ∈ need) : (delete env name).Uses need home X fun _ => ∅ :=
  fun _ H hH => ⟨H, .single (.delete name (hH henv)), fun _ _ _ => Set.empty_subset H⟩

theorem newClosure_uses {name : Option String} {params : List String} {body : List Node} {own : Bool}
    (henv : .frame env ∈ need) :
    (newClosure env name params body own).Uses need home X fun f => (Value.function f).handles := by
  refine fun st H hH => ⟨insert (.closure st.closures) H, .single .newClosure, fun _ _ he => ?_⟩
  cases he
  exact Set.insert_subset (.inr (hH henv)) (Set.singleton_subset_iff.2 (.inl rfl))

end Run

/-! ### Names that a node declares -/

namespace Node

/-- The nodes below a node that run in the same frame: what is in a block or in a function does not. -/
def parts : Node → List Node
  | .function .. | .declaration .. | .block _ => []
  | node => node.children

/-- The node declares the name in the frame it runs in, as a variable or as a function. -/
inductive Declares (name : String) : Node → Prop where
  | var {ds : List (String × Option Node)} {init : Option Node} : (name, init) ∈ ds →
      Declares name (.varList ds)
  | function {params : List String} {body : List Node} :
      Declares name (.declaration (some name) params body)
  | inside {node child : Node} : child ∈ node.parts → Declares name child → Declares name node

end Node

/-- Operators make no functions: they give one of their operands or a value of another type. -/
theorem BinaryOp.handles_apply (op : BinaryOp) (a b : Value) :
    (op.apply a b).handles ⊆ a.handles ∪ b.handles := by
  cases op with
  | add =>
    show (Value.add a b).handles ⊆ _
    unfold Value.add
    split <;> exact Set.empty_subset _
  | and =>
    show (if a.toBoolean then b else a).handles ⊆ _
    split
    · exact Set.subset_union_right
    · exact Set.subset_union_left
  | or =>
    show (if a.toBoolean then a else b).handles ⊆ _
    split
    · exact Set.subset_union_left
    · exact Set.subset_union_right
  | sequence => exact Set.subset_union_right
  | _ => exact Set.empty_subset _

theorem UnaryOp.handles_apply (op : UnaryOp) (a : Value) : (op.apply a).handles = ∅ := by
  cases op <;> rfl

namespace Eval

open Run

/-- Binds a function's own name in the frame of a call, if its body is to see it. -/
def bindOwnName (env : FrameId) (f : Closure) : Run Unit :=
  match f.name with
  | some name => if f.bindsOwnName then declare env name (.function f) else pure ()
  | none => pure ()

/-- What a call makes of the completion of its body. -/
def yielded : Completion → Run Value
  | .returned v => return v
  | .normal _ => return .undefined
  | .broken | .continued => fail (.internal .escapedJump)

theorem call_eq (exec : Exec) (f : Closure) (args : List Value) : call exec f args = (do
    let env ← newChild f.env
    bindOwnName env f
    bindParams env f.params args
    yielded (← statements exec env .undefined f.body)) := by
  unfold call openCall bindOwnName
  rw [bind_assoc]
  refine bind_congr fun env => ?_
  cases f.name with
  | none => simp only [bind_assoc, pure_bind]; rfl
  | some name =>
    by_cases h : f.bindsOwnName = true
    · simp only [if_pos h, bind_assoc, pure_bind]; rfl
    · simp only [if_neg h, bind_assoc, pure_bind]; rfl

variable {need : Set Handle} {home env : FrameId} {X : Set String}

/-- What runs nodes uses the store through the frame of the node, and binds there what it declares. -/
def Exec.Uses (exec : Exec) : Prop :=
  ∀ (node : Node) (env : FrameId) (need : Set Handle) (X : Set String), Handle.frame env ∈ need →
    (∀ x, node.Declares x → x ∈ X) → (exec node env).Uses need env X Completion.handles

section Constructs

variable {exec : Exec} {node : Node} (hx : exec.Uses) (henv : .frame env ∈ need)
include hx henv

theorem value_uses (h : ∀ x, node.Declares x → x ∈ X) :
    (value exec node env).Uses need env X Value.handles := by
  refine (hx node env need X henv h).bind fun c => ?_
  cases c with
  | normal v => exact .pure Set.subset_union_right
  | returned | broken | continued => exact .halt

theorem optionalValue_uses {node : Option Node} (h : ∀ e ∈ node, ∀ x, e.Declares x → x ∈ X) :
    (optionalValue exec node env).Uses need env X Value.handles := by
  cases node with
  | none => exact .pure (Set.empty_subset _)
  | some e => exact value_uses hx henv (h e rfl)

theorem values_uses {nodes : List Node} (h : ∀ e ∈ nodes, ∀ x, e.Declares x → x ∈ X) :
    (values exec env nodes).Uses need env X fun vs => {f | ∃ v ∈ vs, f ∈ v.handles} := by
  induction nodes generalizing need with
  | nil => exact .pure fun f hf => by simp at hf
  | cons e es ih =>
    obtain ⟨he, hes⟩ := List.forall_mem_cons.1 h
    refine (value_uses hx henv he).bind fun v => (ih (.inl henv) hes).bind fun vs => .pure ?_
    rintro f ⟨w, hw, hf⟩
    rcases List.mem_cons.1 hw with rfl | hw
    · exact .inl (.inr hf)
    · exact .inr ⟨w, hw, hf⟩

theorem statements_uses {nodes : List Node} {last : Value} (h : ∀ s ∈ nodes, ∀ x, s.Declares x → x ∈ X)
    (hl : last.handles ⊆ need) : (statements exec env last nodes).Uses need env X Completion.handles := by
  induction nodes generalizing need last with
  | nil => exact .pure hl
  | cons s ss ih =>
    obtain ⟨hs, hss⟩ := List.forall_mem_cons.1 h
    refine (hx s env need X henv hs).bind fun c => ?_
    cases c with
    | normal v => exact ih (.inl henv) hss Set.subset_union_right
    | returned | broken | continued => exact .pure Set.subset_union_right

omit hx in
theorem bindParams_uses {names : List String} {args : List Value} (h : ∀ v ∈ args, v.handles ⊆ need) :
    (bindParams env names args).Uses need env Set.univ fun _ => ∅ := by
  induction names generalizing need args with
  | nil => exact .pure (Set.empty_subset _)
  | cons name names ih =>
    have hhead : (args.headD .undefined).handles ⊆ need := by
      cases args with
      | nil => exact Set.empty_subset _
      | cons v args => exact h v List.mem_cons_self
    refine Uses.bind (declare_uses henv hhead (Set.mem_univ name)) fun _ => ih (.inl henv) fun v hv => ?_
    exact (h v (List.mem_of_mem_tail hv)).trans Set.subset_union_left

omit hx in
theorem bindOwnName_uses {f : Closure} (hf : (Value.function f).handles ⊆ need) :
    (bindOwnName env f).Uses need env Set.univ fun _ => ∅ := by
  unfold bindOwnName
  split
  · split
    · exact declare_uses henv hf (Set.mem_univ _)
    · exact .pure (Set.empty_subset _)
  · exact .pure (Set.empty_subset _)

omit henv in
/-- A call runs the body in a frame that it opens, so it binds no name in the frame it is made from. -/
theorem call_uses {f : Closure} {args : List Value} (hf : (Value.function f).handles ⊆ need)
    (h : ∀ v ∈ args, v.handles ⊆ need) : (call exec f args).Uses need home X Value.handles := by
  rw [call_eq]
  refine .scope (hf (.inl rfl)) fun c => ?_
  refine (bindOwnName_uses (Set.mem_insert (.frame c) need) (hf.trans (Set.subset_insert ..))).bind fun _ => ?_
  refine (bindParams_uses (.inl (Set.mem_insert (.frame c) need)) fun v hv => ?_).bind fun _ => ?_
  · exact ((h v hv).trans (Set.subset_insert ..)).trans Set.subset_union_left
  refine (statements_uses hx (.inl (.inl (Set.mem_insert (.frame c) need))) (fun _ _ x _ => Set.mem_univ x)
    (Set.empty_subset _)).bind fun k => ?_
  cases k with
  | normal => exact .pure (Set.empty_subset _)
  | returned v => exact .pure Set.subset_union_right
  | broken | continued => exact .halt

theorem callNode_uses {args : List Node} (h : ∀ x, node.Declares x → x ∈ X)
    (hargs : ∀ e ∈ args, ∀ x, e.Declares x → x ∈ X) :
    (callNode exec node args env).Uses need env X Value.handles := by
  refine (value_uses hx henv h).bind fun v => (values_uses hx (.inl henv) hargs).bind fun vs => ?_
  cases v with
  | function f =>
    exact call_uses hx (Set.subset_union_right.trans Set.subset_union_left)
      fun v hv w hw => .inr ⟨v, hv, hw⟩
  | _ => cases node <;> exact .halt

theorem resolve_uses (h : ∀ e ∈ node.parts, ∀ x, e.Declares x → x ∈ X) :
    (resolve exec env node).Uses need env X fun _ => ∅ := by
  cases node with
  | identifier name => exact .pure (Set.empty_subset _)
  | property object key =>
    refine (value_uses hx henv (h object (by simp [Node.parts, Node.children]))).bind fun _ => ?_
    refine (value_uses hx (.inl henv) (h key (by simp [Node.parts, Node.children]))).bind fun _ => ?_
    exact .pure (Set.empty_subset _)
  | _ => exact .halt

omit hx in
theorem get_uses (reference : Reference) : (reference.get env).Uses need env X Value.handles := by
  cases reference with
  | «variable» name => exact read_uses henv
  | property => exact .pure (Set.empty_subset _)

omit hx in
theorem put_uses {v : Value} (reference : Reference) (hv : v.handles ⊆ need) :
    (reference.put env v).Uses need env X fun _ => ∅ := by
  cases reference with
  | «variable» name => exact write_uses henv hv
  | property => exact .pure (Set.empty_subset _)

theorem assign_uses {source : Node} (op : AssignOp) (h : ∀ e ∈ node.parts, ∀ x, e.Declares x → x ∈ X)
    (hs : ∀ x, source.Declares x → x ∈ X) :
    (assign exec op node source env).Uses need env X Value.handles := by
  refine (resolve_uses hx henv h).bind fun reference => ?_
  split
  · refine (value_uses hx (.inl henv) hs).bind fun v => ?_
    refine (put_uses (.inl (.inl henv)) reference Set.subset_union_right).bind fun _ => .pure ?_
    exact Set.subset_union_right.trans Set.subset_union_left
  next op _ =>
    refine (get_uses (.inl henv) reference).bind fun old => ?_
    refine (value_uses hx (.inl (.inl henv)) hs).bind fun v => ?_
    have hnew : (op.apply old v).handles ⊆ need ∪ ∅ ∪ old.handles ∪ v.handles :=
      (op.handles_apply old v).trans (Set.union_subset_union_left _ Set.subset_union_right)
    refine (put_uses (.inl (.inl (.inl henv))) reference hnew).bind fun _ => .pure ?_
    exact hnew.trans Set.subset_union_left

theorem update_uses (op : UpdateOp) (h : ∀ e ∈ node.parts, ∀ x, e.Declares x → x ∈ X) :
    (update exec op node env).Uses need env X Value.handles := by
  refine (resolve_uses hx henv h).bind fun reference => (get_uses (.inl henv) reference).bind fun old => ?_
  refine (put_uses (.inl (.inl henv)) reference (Set.empty_subset _)).bind fun _ => ?_
  exact .pure (Set.empty_subset _)

theorem unary_uses (op : UnaryOp) (h : ∀ x, node.Declares x → x ∈ X) :
    (unary exec op node env).Uses need env X Value.handles := by
  unfold unary
  split
  · exact (delete_uses henv).bind fun _ => .pure (Set.empty_subset _)
  · refine (value_uses hx henv h).bind fun v => .pure ?_
    rw [UnaryOp.handles_apply]
    exact Set.empty_subset _

theorem binary_uses {left right : Node} (op : BinaryOp) (hl : ∀ x, left.Declares x → x ∈ X)
    (hr : ∀ x, right.Declares x → x ∈ X) :
    (binary exec op left right env).Uses need env X Value.handles := by
  refine (value_uses hx henv hl).bind fun a => ?_
  have hleft : (pure a : Run Value).Uses (need ∪ a.handles) env X Value.handles :=
    .pure Set.subset_union_right
  have hright : (value exec right env).Uses (need ∪ a.handles) env X Value.handles :=
    value_uses hx (.inl henv) hr
  split
  · split
    · exact hright
    · exact hleft
  · split
    · exact hleft
    · exact hright
  · exact hright
  · refine hright.bind fun b => .pure ((BinaryOp.handles_apply _ a b).trans ?_)
    exact Set.union_subset_union_left _ Set.subset_union_right

theorem declareAll_uses {ds : List (String × Option Node)} (hd : ∀ d ∈ ds, d.1 ∈ X)
    (h : ∀ d ∈ ds, ∀ e ∈ d.2, ∀ x, e.Declares x → x ∈ X) :
    (declareAll exec env ds).Uses need env X fun _ => ∅ := by
  induction ds generalizing need with
  | nil => exact .pure (Set.empty_subset _)
  | cons d ds ih =>
    obtain ⟨hd₁, hds⟩ := List.forall_mem_cons.1 hd
    obtain ⟨h₁, hs⟩ := List.forall_mem_cons.1 h
    refine (optionalValue_uses hx henv h₁).bind fun v => ?_
    refine (declare_uses (.inl henv) Set.subset_union_right hd₁).bind fun _ => ?_
    exact ih (.inl (.inl henv)) hds hs

theorem holds_uses {test : Option Node} (h : ∀ e ∈ test, ∀ x, e.Declares x → x ∈ X) :
    (holds exec test env).Uses need env X fun _ => ∅ := by
  cases test with
  | none => exact .pure (Set.empty_subset _)
  | some e => exact (value_uses hx henv (h e rfl)).bind fun _ => .pure (Set.empty_subset _)

theorem forRounds_uses {test update : Option Node} {body : Node} {last : Value} (n : Nat)
    (ht : ∀ e ∈ test, ∀ x, e.Declares x → x ∈ X) (hu : ∀ e ∈ update, ∀ x, e.Declares x → x ∈ X)
    (hb : ∀ x, body.Declares x → x ∈ X) (hl : last.handles ⊆ need) :
    (forRounds exec test update body env n last).Uses need env X Completion.handles := by
  induction n generalizing need last with
  | zero => exact .halt
  | succ n ih =>
    refine (holds_uses hx henv ht).bind fun b => ?_
    have hlast : last.handles ⊆ need ∪ ∅ := hl.trans Set.subset_union_left
    split
    · refine (hx body env _ X (.inl henv) hb).bind fun c => ?_
      cases c with
      | normal v =>
        refine (optionalValue_uses hx (.inl (.inl henv)) hu).bind fun _ => ih (.inl (.inl (.inl henv))) ?_
        exact Set.subset_union_right.trans Set.subset_union_left
      | continued =>
        refine (optionalValue_uses hx (.inl (.inl henv)) hu).bind fun _ => ih (.inl (.inl (.inl henv))) ?_
        exact (hlast.trans Set.subset_union_left).trans Set.subset_union_left
      | broken => exact .pure (hlast.trans Set.subset_union_left)
      | returned v => exact .pure Set.subset_union_right
    · exact .pure hlast

theorem whileRounds_uses {test body : Node} {last : Value} (n : Nat) (ht : ∀ x, test.Declares x → x ∈ X)
    (hb : ∀ x, body.Declares x → x ∈ X) (hl : last.handles ⊆ need) :
    (whileRounds exec test body env n last).Uses need env X Completion.handles := by
  rw [← forRounds_eq_whileRounds]
  exact forRounds_uses hx henv n (by simpa using ht) (by simp) hb hl

theorem doWhileRounds_uses {test body : Node} {last : Value} (n : Nat) (ht : ∀ x, test.Declares x → x ∈ X)
    (hb : ∀ x, body.Declares x → x ∈ X) (hl : last.handles ⊆ need) :
    (doWhileRounds exec test body env n last).Uses need env X Completion.handles := by
  induction n generalizing need last with
  | zero => exact .halt
  | succ n ih =>
    refine (hx body env need X henv hb).bind fun c => ?_
    cases c with
    | normal v =>
      refine (value_uses hx (.inl henv) ht).bind fun b => ?_
      have hv : v.handles ⊆ need ∪ v.handles ∪ b.handles := Set.subset_union_right.trans Set.subset_union_left
      split
      · exact ih (.inl (.inl henv)) hv
      · exact .pure hv
    | continued =>
      refine (value_uses hx (.inl henv) ht).bind fun b => ?_
      have hlast : last.handles ⊆ need ∪ ∅ ∪ b.handles :=
        (hl.trans Set.subset_union_left).trans Set.subset_union_left
      split
      · exact ih (.inl (.inl henv)) hlast
      · exact .pure hlast
    | broken => exact .pure (hl.trans Set.subset_union_left)
    | returned v => exact .pure Set.subset_union_right

theorem init_uses {first : Option Node} (h : ∀ e ∈ first, ∀ x, e.Declares x → x ∈ X) :
    (init exec first env).Uses need env X fun _ => ∅ := by
  cases first with
  | none => exact .pure (Set.empty_subset _)
  | some e => exact (hx e env need X henv (h e rfl)).bind fun _ => .pure (Set.empty_subset _)

end Constructs

theorem execWith_uses {exec : Exec} (hx : exec.Uses) (n : Nat) : Exec.Uses (execWith exec n) := by
  intro node env need X henv h
  have hparts : ∀ e ∈ node.parts, ∀ x, e.Declares x → x ∈ X := fun e he x hd => h x (.inside he hd)
  cases node with
  | number | boolean | string | regExp | null | empty => exact .pure (Set.empty_subset _)
  | breakLoop | continueLoop => exact .pure (Set.empty_subset _)
  | identifier name => exact (read_uses henv).bind fun v => .pure Set.subset_union_right
  | unary op e =>
    have he := hparts e (by simp [Node.parts, Node.children])
    exact (unary_uses hx henv op he).bind fun v => .pure Set.subset_union_right
  | update op e =>
    have he := hparts e (by simp [Node.parts, Node.children])
    refine (update_uses hx henv op fun e' he' x hd => he x (.inside he' hd)).bind fun v => ?_
    exact .pure Set.subset_union_right
  | binary op left right =>
    have hl := hparts left (by simp [Node.parts, Node.children])
    have hr := hparts right (by simp [Node.parts, Node.children])
    exact (binary_uses hx henv op hl hr).bind fun v => .pure Set.subset_union_right
  | property object key =>
    have ho := hparts object (by simp [Node.parts, Node.children])
    have hk := hparts key (by simp [Node.parts, Node.children])
    refine (value_uses hx henv ho).bind fun _ => (value_uses hx (.inl henv) hk).bind fun _ => ?_
    exact .pure (Set.empty_subset _)
  | assign op target source =>
    have ht := hparts target (by simp [Node.parts, Node.children])
    have hs := hparts source (by simp [Node.parts, Node.children])
    refine (assign_uses hx henv op (fun e he x hd => ht x (.inside he hd)) hs).bind fun v => ?_
    exact .pure Set.subset_union_right
  | conditional test consequent alternate =>
    have ht := hparts test (by simp [Node.parts, Node.children])
    have hc := hparts consequent (by simp [Node.parts, Node.children])
    have ha := hparts alternate (by simp [Node.parts, Node.children])
    refine (value_uses hx henv ht).bind fun v => ?_
    refine Uses.bind (value_uses hx (.inl henv) ?_) fun w => .pure Set.subset_union_right
    split
    · exact hc
    · exact ha
  | call callee args =>
    have hc := hparts callee (by simp [Node.parts, Node.children])
    have ha : ∀ e ∈ args, ∀ x, e.Declares x → x ∈ X := fun e he =>
      hparts e (by simp [Node.parts, Node.children, he])
    exact (callNode_uses hx henv hc ha).bind fun v => .pure Set.subset_union_right
  | function name params body => exact (newClosure_uses henv).bind fun f => .pure Set.subset_union_right
  | declaration name params body =>
    refine (newClosure_uses henv).bind fun f => ?_
    have hf : (Value.function f).handles ⊆ need ∪ (Value.function f).handles := Set.subset_union_right
    split
    next name =>
      refine Uses.bind (declare_uses (.inl henv) hf (h name .function)) fun _ => .pure ?_
      exact hf.trans Set.subset_union_left
    · exact .pure hf
  | block nodes =>
    exact .scope henv fun c => statements_uses hx (Set.mem_insert (.frame c) need)
      (fun _ _ x _ => Set.mem_univ x) (Set.empty_subset _)
  | varList ds =>
    have hnames : ∀ d ∈ ds, d.1 ∈ X := fun d hd => h d.1 (.var hd)
    have hinits : ∀ d ∈ ds, ∀ e ∈ d.2, ∀ x, e.Declares x → x ∈ X := fun d hd e he =>
      hparts e (List.mem_filterMap.2 ⟨d, hd, he⟩)
    exact (declareAll_uses hx henv hnames hinits).bind fun _ => .pure (Set.empty_subset _)
  | returning argument =>
    have ha : ∀ e ∈ argument, ∀ x, e.Declares x → x ∈ X := fun e he =>
      hparts e (by simpa [Node.parts, Node.children] using he)
    exact (optionalValue_uses hx henv ha).bind fun v => .pure Set.subset_union_right
  | branch test consequent alternate =>
    have ht := hparts test (by simp [Node.parts, Node.children])
    have hc := hparts consequent (by simp [Node.parts, Node.children])
    have ha : ∀ e ∈ alternate, ∀ x, e.Declares x → x ∈ X := fun e he =>
      hparts e (by simp [Node.parts, Node.children, Option.mem_def.1 he])
    refine (value_uses hx henv ht).bind fun v => ?_
    split
    · exact hx consequent env _ X (.inl henv) hc
    · split
      next alternate => exact hx alternate env _ X (.inl henv) (ha alternate rfl)
      · exact .pure (Set.empty_subset _)
  | whileLoop test body =>
    have ht := hparts test (by simp [Node.parts, Node.children])
    have hb := hparts body (by simp [Node.parts, Node.children])
    exact whileRounds_uses hx henv n ht hb (Set.empty_subset _)
  | doWhileLoop test body =>
    have ht := hparts test (by simp [Node.parts, Node.children])
    have hb := hparts body (by simp [Node.parts, Node.children])
    exact doWhileRounds_uses hx henv n ht hb (Set.empty_subset _)
  | forLoop first test update body =>
    have hf : ∀ e ∈ first, ∀ x, e.Declares x → x ∈ X := fun e he =>
      hparts e (by simp [Node.parts, Node.children, Option.mem_def.1 he])
    have ht : ∀ e ∈ test, ∀ x, e.Declares x → x ∈ X := fun e he =>
      hparts e (by simp [Node.parts, Node.children, Option.mem_def.1 he])
    have hu : ∀ e ∈ update, ∀ x, e.Declares x → x ∈ X := fun e he =>
      hparts e (by simp [Node.parts, Node.children, Option.mem_def.1 he])
    have hb := hparts body (by simp [Node.parts, Node.children])
    exact (init_uses hx henv hf).bind fun _ => forRounds_uses hx (.inl henv) n ht hu hb (Set.empty_subset _)

/-- Every run of a node is a sequence of accesses. -/
theorem exec_uses (n : Nat) : (exec n).Uses := by
  induction n with
  | zero => exact fun _ _ _ _ _ _ => .halt
  | succ n ih => exact execWith_uses ih n

theorem program_uses (limit : Nat) (p : Program) (henv : .frame env ∈ need)
    (h : ∀ s ∈ p, ∀ x, s.Declares x → x ∈ X) :
    (program limit p env).Uses need env X Value.handles := by
  refine (statements_uses (exec_uses limit) henv h (Set.empty_subset _)).bind fun c => ?_
  cases c with
  | normal v => exact .pure Set.subset_union_right
  | returned v => exact .pure Set.subset_union_right
  | broken | continued => exact .halt

end Eval

end Scriptlet
