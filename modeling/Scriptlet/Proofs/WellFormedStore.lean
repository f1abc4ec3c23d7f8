import Scriptlet.Proofs.Access

/-!
# Well-formed stores

A store is well-formed if links lead to older frames and functions were made in frames that exist. Each
access keeps it so as long as the frames that are held exist, and so does every run, however it ends.
Old frames stay where they are and keep their links, so a frame that was held once can be used for ever:
the way out of it ends, and passes only frames that exist.
-/

namespace Scriptlet

namespace Store

variable {st st' : Store} {env i : FrameId} {name : String} {v : Value}

def existing (st : Store) : Set FrameId := {i | i < st.frames.size}

@[simp] theorem mem_existing : i ∈ st.existing ↔ i < st.frames.size := Iff.rfl

structure WellFormed (st : Store) : Prop where
  outer_lt : ∀ i o, st.outer? i = some o → o < i
  captured : ∀ i name f, (name, Value.function f) ∈ st.bindings i → f.env < st.frames.size

/-- The way out of a frame ends at a frame without an outer one, and passes only frames that exist. Names
and the outermost frame are looked for along it. -/
structure Walkable (st : Store) (env : FrameId) : Prop where
  climbs : st.Climbs env (st.chain env)
  exists_of_mem : ∀ i ∈ st.chain env, i < st.frames.size
  outer?_root : st.outer? (st.root env) = none

/-- All frames are there as before, with the same links, and all frames can be used. -/
structure Kept (st st' : Store) : Prop where
  wellFormed : st'.WellFormed
  size_le : st.frames.size ≤ st'.frames.size
  outer?_eq : ∀ i < st.frames.size, st'.outer? i = st.outer? i
  walkable : ∀ i < st'.frames.size, st'.Walkable i

theorem frames_subset_existing_of_mem (hst : st.WellFormed) (h : (name, v) ∈ st.bindings i) :
    v.frames ⊆ st.existing := by
  intro f hf
  cases v with
  | function g =>
    rw [Value.frames_function] at hf
    cases hf
    exact hst.captured i name g h
  | _ => cases hf

namespace WellFormed

theorem exists_of_mem_chain (h : st.WellFormed) (henv : env < st.frames.size) :
    ∀ i ∈ st.chain env, i < st.frames.size :=
  chain_forall (fun i o hi ho => Nat.lt_trans (h.outer_lt i o ho) hi) henv

theorem walkable (h : st.WellFormed) (henv : env < st.frames.size) : st.Walkable env :=
  ⟨climbs_chain h.outer_lt env, h.exists_of_mem_chain henv, outer?_root h.outer_lt env⟩

/-- A value that is read was made in a frame that exists. -/
theorem read (h : st.WellFormed) : (st.read env name).frames ⊆ st.existing := by
  rcases st.read_eq env name with hr | ⟨f, -, hf⟩
  · rw [hr]; exact Set.empty_subset _
  · exact frames_subset_existing_of_mem h hf

theorem declare (h : st.WellFormed) (hv : v.frames ⊆ st.existing) :
    (st.declare env name v).WellFormed := by
  refine ⟨fun i o ho => h.outer_lt i o (by simpa using ho), fun i x f hf => ?_⟩
  rw [size_declare]
  rcases mem_bindings_declare hf with ⟨-, hp⟩ | hf
  · cases hp; exact hv (Value.frames_function f ▸ rfl)
  · exact h.captured i x f hf

theorem write (h : st.WellFormed) (hv : v.frames ⊆ st.existing) : (st.write env name v).WellFormed :=
  h.declare hv

theorem delete (h : st.WellFormed) : (st.delete env name).2.WellFormed := by
  rcases st.delete_eq env name with he | ⟨g, -, he⟩ <;> rw [he]
  · exact h
  · refine ⟨fun i o ho => h.outer_lt i o (by simpa using ho), fun i x f hf => ?_⟩
    rw [size_modify]
    rw [bindings_modify] at hf
    split at hf
    · exact h.captured i x f (Bindings.mem_erase hf)
    · exact h.captured i x f hf

theorem newChild (h : st.WellFormed) (henv : env < st.frames.size) : (st.newChild env).2.WellFormed := by
  refine ⟨fun i o ho => ?_, fun i x f hf => ?_⟩
  · rw [outer?_newChild] at ho
    split at ho
    next hi => cases ho; rwa [hi]
    · exact h.outer_lt i o ho
  · rw [bindings_newChild] at hf
    rw [size_newChild]
    exact Nat.lt_succ_of_lt (h.captured i x f hf)

theorem empty : Store.empty.WellFormed := by
  refine ⟨fun i o ho => ?_, fun i x f hf => ?_⟩
  · rw [outer?_of_size_le (Nat.zero_le i)] at ho; cases ho
  · rw [bindings_of_size_le (Nat.zero_le i)] at hf; cases hf

theorem newRoot (h : st.WellFormed) : st.newRoot.2.WellFormed := by
  refine ⟨fun i o ho => h.outer_lt i o (by simpa using ho), fun i x f hf => ?_⟩
  rw [bindings_newRoot] at hf
  rw [size_newRoot]
  exact Nat.lt_succ_of_lt (h.captured i x f hf)

end WellFormed

namespace Kept

theorem of_size_eq (h : st'.WellFormed) (hs : st'.frames.size = st.frames.size)
    (ho : ∀ i, st'.outer? i = st.outer? i) : st.Kept st' :=
  ⟨h, Nat.le_of_eq hs.symm, fun i _ => ho i, fun _ hi => h.walkable hi⟩

theorem trans {st'' : Store} (h : st.Kept st') (h' : st'.Kept st'') : st.Kept st'' :=
  ⟨h'.wellFormed, Nat.le_trans h.size_le h'.size_le,
    fun i hi => (h'.outer?_eq i (Nat.lt_of_lt_of_le hi h.size_le)).trans (h.outer?_eq i hi), h'.walkable⟩

theorem existing_subset (h : st.Kept st') : st.existing ⊆ st'.existing :=
  fun _ hi => Nat.lt_of_lt_of_le hi h.size_le

theorem newRoot (h : st.WellFormed) : st.Kept st.newRoot.2 :=
  ⟨h.newRoot, by simp, fun i _ => outer?_newRoot, fun _ hi => h.newRoot.walkable hi⟩

theorem newChild (h : st.WellFormed) (henv : env < st.frames.size) : st.Kept (st.newChild env).2 := by
  refine ⟨h.newChild henv, by simp, fun i hi => ?_, fun _ hi => (h.newChild henv).walkable hi⟩
  rw [outer?_newChild, if_neg (Nat.ne_of_lt hi)]

theorem declare (h : st.WellFormed) (hv : v.frames ⊆ st.existing) : st.Kept (st.declare env name v) :=
  of_size_eq (h.declare hv) size_declare fun _ => outer?_declare

theorem write (h : st.WellFormed) (hv : v.frames ⊆ st.existing) : st.Kept (st.write env name v) :=
  of_size_eq (h.write hv) size_write fun _ => outer?_write

theorem delete (h : st.WellFormed) : st.Kept (st.delete env name).2 :=
  of_size_eq h.delete size_delete fun _ => outer?_delete

end Kept

end Store

/-! ### Runs -/

/-- An access through frames that exist keeps the store, and then the frames that are held exist. -/
theorem Access.kept {may : FrameId → String → Prop} {k k' : Held} (h : Access may k k')
    (hk : k.store.WellFormed) (hK : Handle.frames k.handles ⊆ k.store.existing) :
    k.store.Kept k'.store ∧ Handle.frames k'.handles ⊆ k'.store.existing := by
  cases h with
  | read name he =>
    exact ⟨.of_size_eq hk rfl fun _ => rfl, fun i hi => hi.elim (fun hi => hK hi) fun hi => hk.read hi⟩
  | @write st H env name v he hv =>
    have hkept : st.Kept (st.write env name v) := .write hk fun i hi => hK (hv hi)
    exact ⟨hkept, hK.trans hkept.existing_subset⟩
  | @declare st H env name v he hv =>
    have hkept : st.Kept (st.declare env name v) := .declare hk fun i hi => hK (hv hi)
    exact ⟨hkept, hK.trans hkept.existing_subset⟩
  | delete name he => exact ⟨.delete hk, hK.trans (Store.Kept.delete hk).existing_subset⟩
  | @newChild st H env he =>
    have hkept : st.Kept (st.newChild env).2 := .newChild hk (hK he)
    refine ⟨hkept, fun i hi => ?_⟩
    rcases hi with hi | hi
    · cases hi; exact st.newChild_lt
    · exact hkept.existing_subset (hK hi)
  | newClosure =>
    refine ⟨.of_size_eq ⟨hk.outer_lt, hk.captured⟩ rfl fun _ => rfl, fun i hi => ?_⟩
    rcases hi with hi | hi
    · cases hi
    · exact hK hi

theorem Accesses.kept {may : FrameId → String → Prop} {k k' : Held} (h : Accesses may k k')
    (hk : k.store.WellFormed) (hK : Handle.frames k.handles ⊆ k.store.existing) :
    k.store.Kept k'.store ∧ Handle.frames k'.handles ⊆ k'.store.existing := by
  induction h with
  | refl => exact ⟨.of_size_eq hk rfl fun _ => rfl, hK⟩
  | tail _ hstep ih =>
    obtain ⟨hkept, hK'⟩ := hstep.kept ih.1.wellFormed ih.2
    exact ⟨ih.1.trans hkept, hK'⟩

/-- The run keeps the store, however it ends, and its result has frames that exist. -/
def Run.Keeps {α : Type} (r : Run α) (st : Store) (g : α → Set FrameId) : Prop :=
  st.Kept (r.after st) ∧ ∀ a st', r st = .ok a st' → g a ⊆ st'.existing

theorem Run.Uses.keeps {α : Type} {r : Run α} {need : Set Handle} {home : FrameId} {X : Set String}
    {g : α → Set Handle} {st : Store} (hr : r.Uses need home X g) (hst : st.WellFormed)
    (hneed : Handle.frames need ⊆ st.existing) : r.Keeps st fun a => Handle.frames (g a) := by
  obtain ⟨H, h, hg⟩ := hr st need subset_rfl
  obtain ⟨hkept, hH⟩ := h.kept hst hneed
  refine ⟨hkept, fun a st' he i hi => ?_⟩
  rw [Run.after_of_ok he] at hH
  exact hH (hg a st' he hi)

/-- A call that is given functions made in frames that exist. -/
theorem Eval.call_uses_existing {st : Store} {home : FrameId} {X : Set String} (limit : Nat) {f : Closure}
    {args : List Value} (hf : f.env < st.frames.size) (hargs : ∀ v ∈ args, v.frames ⊆ st.existing) :
    (call (exec limit) f args).Uses (Handle.within st.existing) home X Value.handles :=
  call_uses (exec_uses limit) (Value.handles_subset_within (by simpa using hf))
    fun v hv => Value.handles_subset_within (hargs v hv)

/-- Nodes, calls and the operations on a frame keep a store well-formed and its frames in place; what they
give was made in frames that exist, and the ways out of all frames end. -/
theorem store_stays_wellFormed {st : Store} (hst : st.WellFormed) {env : FrameId}
    (henv : env < st.frames.size) :
    (∀ limit node, (Eval.exec limit node env).Keeps st Completion.frames) ∧
    (∀ limit f args, f.env < st.frames.size → (∀ v ∈ args, v.frames ⊆ st.existing) →
      (Eval.call (Eval.exec limit) f args).Keeps st Value.frames) ∧
    st.Kept st.newRoot.2 ∧ st.newRoot.1 < st.newRoot.2.frames.size ∧
    st.Kept (st.newChild env).2 ∧ (st.newChild env).1 < (st.newChild env).2.frames.size ∧
    (∀ name v, v.frames ⊆ st.existing → st.Kept (st.declare env name v) ∧ st.Kept (st.write env name v)) ∧
    (∀ name, st.Kept (st.delete env name).2 ∧ (st.read env name).frames ⊆ st.existing) ∧
    (∀ outer, st.outer? env = some outer → outer < st.frames.size) ∧ st.Walkable env := by
  refine ⟨fun limit node => ?_, fun limit f args hf hargs => ?_, .newRoot hst, st.newRoot_lt,
    .newChild hst henv, st.newChild_lt,
    fun name v hv => ⟨.declare hst hv, .write hst hv⟩, fun name => ⟨.delete hst, hst.read⟩,
    fun outer ho => Nat.lt_trans (hst.outer_lt env outer ho) henv, hst.walkable henv⟩
  · have hx := Eval.exec_uses limit node env {.frame env} Set.univ rfl fun x _ => Set.mem_univ x
    exact hx.keeps hst (by simpa using henv)
  · have hcall := @Eval.call_uses_existing st env ∅ limit f args hf hargs
    exact hcall.keeps hst (Handle.frames_subset_iff.2 subset_rfl)

theorem Session.new_wellFormed : Session.new.store.WellFormed := Store.WellFormed.empty.newRoot

/-- A call of a function that is given another one. -/
theorem store_stays_wellFormed_call :
    (Eval.call (Eval.exec 9) ⟨0, some "f", ["g"], [.returning (some (.identifier "g"))], 0, true⟩
      [.function ⟨1, none, [], [], 0, false⟩]).Keeps Session.new.store Value.frames := by
  refine (@store_stays_wellFormed _ Session.new_wellFormed 0 (by decide)).2.1 9 _ _ (by decide) ?_
  intro v hv f hf
  rw [List.mem_singleton] at hv
  subst hv
  rw [Value.frames_function] at hf
  cases hf
  show 0 < Session.new.store.frames.size
  decide

end Scriptlet
