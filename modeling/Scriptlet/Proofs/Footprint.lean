import Scriptlet.Proofs.WellFormedStore

/-!
# What a run can reach

A frame leads to the frame outside of it and to the frames in which the functions that it binds were
made. A set of frames that these links do not leave stays such a set along a run that holds frames of it,
once the frames that the run opens are added (`Access.confined`): a write, a declaration or a deletion
happens in a frame of the set, and what it binds there was made in one. The other frames are left alone.
-/

namespace Scriptlet

namespace Store

variable {st st' : Store} {env f i j : FrameId} {name : String} {v : Value} {S R : Set FrameId}

/-- The frame `j` is outside of `i`, or a function that `i` binds was made in it. -/
def Links (st : Store) (i j : FrameId) : Prop :=
  st.outer? i = some j ∨ ∃ name f, (name, Value.function f) ∈ st.bindings i ∧ f.env = j

abbrev Reaches (st : Store) : FrameId → FrameId → Prop := Relation.ReflTransGen st.Links

def reachable (st : Store) (env : FrameId) : Set FrameId := {i | st.Reaches env i}

/-- No link leads out of the set. -/
def Closed (st : Store) (S : Set FrameId) : Prop := ∀ i ∈ S, ∀ j, st.Links i j → j ∈ S

theorem closed_reachable (st : Store) : st.Closed (st.reachable env) := fun _ hi _ hl => hi.tail hl

theorem Links.lt (h : st.Links i j) : i < st.frames.size := by
  by_contra hi
  rcases h with ho | ⟨x, g, hg, -⟩
  · rw [outer?_of_size_le (Nat.le_of_not_lt hi)] at ho; cases ho
  · rw [bindings_of_size_le (Nat.le_of_not_lt hi)] at hg; cases hg

theorem Links.of_mem (h : (name, v) ∈ st.bindings i) (hj : j ∈ v.frames) : st.Links i j := by
  cases v with
  | function g =>
    rw [Value.frames_function] at hj
    exact .inr ⟨name, g, h, hj.symm⟩
  | _ => cases hj

theorem links_declare (h : (st.declare f name v).Links i j) : st.Links i j ∨ (f = i ∧ j ∈ v.frames) := by
  rcases h with ho | ⟨x, g, hg, rfl⟩
  · rw [outer?_declare] at ho
    exact .inl (.inl ho)
  · rcases mem_bindings_declare hg with ⟨hf, hp⟩ | hg
    · cases hp
      exact .inr ⟨hf, by rw [Value.frames_function]; rfl⟩
    · exact .inl (.inr ⟨x, g, hg, rfl⟩)

theorem links_modify_erase (h : (st.modify f (.erase name)).Links i j) : st.Links i j := by
  rcases h with ho | ⟨x, g, hg, rfl⟩
  · rw [outer?_modify] at ho
    exact .inl ho
  · rw [bindings_modify] at hg
    split at hg
    · exact .inr ⟨x, g, Bindings.mem_erase hg, rfl⟩
    · exact .inr ⟨x, g, hg, rfl⟩

theorem links_newChild (h : (st.newChild f).2.Links i j) :
    st.Links i j ∨ (i = st.frames.size ∧ j = f) := by
  rcases h with ho | ⟨x, g, hg, rfl⟩
  · rw [outer?_newChild] at ho
    split at ho
    next hi => cases ho; exact .inr ⟨hi, rfl⟩
    · exact .inl (.inl ho)
  · rw [bindings_newChild] at hg
    exact .inl (.inr ⟨x, g, hg, rfl⟩)

namespace Closed

theorem reaches (hS : st.Closed S) (hi : i ∈ S) (h : st.Reaches i j) : j ∈ S := by
  induction h with
  | refl => exact hi
  | tail _ hl ih => exact hS _ ih _ hl

theorem chain (hS : st.Closed S) (henv : env ∈ S) : ∀ i ∈ st.chain env, i ∈ S :=
  chain_forall (fun i o hi ho => hS i hi o (.inl ho)) henv

theorem read (hS : st.Closed S) (henv : env ∈ S) : (st.read env name).frames ⊆ S := by
  intro j hj
  rcases st.read_eq env name with hr | ⟨f, hf, hm⟩
  · rw [hr] at hj; cases hj
  · exact hS f (hS.chain henv f hf) j (.of_mem hm hj)

theorem declare (hS : st.Closed S) (hv : v.frames ⊆ S) : (st.declare f name v).Closed S := by
  intro i hi j hl
  rcases links_declare hl with hl | ⟨-, hj⟩
  · exact hS i hi j hl
  · exact hv hj

theorem modify_erase (hS : st.Closed S) : (st.modify f (.erase name)).Closed S :=
  fun i hi j hl => hS i hi j (links_modify_erase hl)

end Closed

/-- From `st` to `st'` only frames of `R` changed, and frames were added; all these together lead to no
others. -/
structure Confined (R : Set FrameId) (st st' : Store) : Prop where
  size_le : st.frames.size ≤ st'.frames.size
  getElem?_eq : ∀ i < st.frames.size, i ∉ R → st'.frames[i]? = st.frames[i]?
  closed : st'.Closed (R ∪ st'.existing \ st.existing)

namespace Confined

variable {st₀ : Store}

theorem refl (hR : st.Closed R) : st.Confined R st := by
  refine ⟨Nat.le_refl _, fun _ _ _ => rfl, ?_⟩
  rwa [Set.sdiff_self, Set.union_empty]

theorem existing_eq {change : Bindings → Bindings} : (st.modify f change).existing = st.existing := by
  unfold existing
  rw [size_modify]

/-- A frame within the bounds may be changed, if no links lead out of them then. -/
theorem modify {change : Bindings → Bindings} (h : st₀.Confined R st)
    (hf : f ∈ R ∪ st.existing \ st₀.existing)
    (hc : (st.modify f change).Closed (R ∪ st.existing \ st₀.existing)) :
    st₀.Confined R (st.modify f change) := by
  refine ⟨by rw [size_modify]; exact h.size_le, fun i hi hR => ?_, by rwa [existing_eq]⟩
  have hne : f ≠ i := by
    rintro rfl
    rcases hf with hf | hf
    · exact hR hf
    · exact hf.2 hi
  rw [getElem?_modify_of_ne hne]
  exact h.getElem?_eq i hi hR

theorem newChild (h : st₀.Confined R st) (henv : env ∈ R ∪ st.existing \ st₀.existing) :
    st₀.Confined R (st.newChild env).2 := by
  have hgrow : R ∪ st.existing \ st₀.existing ⊆ R ∪ (st.newChild env).2.existing \ st₀.existing := by
    refine Set.union_subset_union_right _ (Set.sdiff_subset_sdiff_left fun i hi => ?_)
    rw [mem_existing, size_newChild]
    exact Nat.lt_succ_of_lt hi
  refine ⟨?_, fun i hi hR => ?_, fun i hi j hl => ?_⟩
  · rw [size_newChild]
    exact Nat.le_succ_of_le h.size_le
  · rw [getElem?_newChild_of_lt (Nat.lt_of_lt_of_le hi h.size_le)]
    exact h.getElem?_eq i hi hR
  · rcases links_newChild hl with hl | ⟨-, rfl⟩
    · exact hgrow (h.closed i (hi.imp_right fun hi => ⟨hl.lt, hi.2⟩) j hl)
    · exact hgrow henv

end Confined

end Store

/-! ### Runs -/

/-- What is held stays within the frames that the run began with and those it opened. -/
theorem Access.confined {may : FrameId → String → Prop} {st : Store} {R : Set FrameId} {k k' : Held}
    (h : Access may k k') (hc : st.Confined R k.store)
    (hH : Handle.frames k.handles ⊆ R ∪ k.store.existing \ st.existing) :
    st.Confined R k'.store ∧ Handle.frames k'.handles ⊆ R ∪ k'.store.existing \ st.existing := by
  cases h with
  | read name he => exact ⟨hc, fun i hi => hi.elim (fun hi => hH hi) fun hi => hc.closed.read (hH he) hi⟩
  | @write now H env name v he hv =>
    obtain ⟨f, hf, hw, -⟩ := now.write_eq env name v
    rw [hw]
    refine ⟨hc.modify (hc.closed.chain (hH he) f hf) (hc.closed.declare fun i hi => hH (hv hi)), ?_⟩
    rwa [Store.declare, Store.Confined.existing_eq]
  | @declare now H env name v he hv =>
    refine ⟨hc.modify (hH he) (hc.closed.declare fun i hi => hH (hv hi)), ?_⟩
    rwa [Store.declare, Store.Confined.existing_eq]
  | @delete now H env name he =>
    rcases now.delete_eq env name with hd | ⟨f, hf, hd⟩ <;> rw [hd]
    · exact ⟨hc, hH⟩
    · refine ⟨hc.modify (hc.closed.chain (hH he) f hf) hc.closed.modify_erase, ?_⟩
      rwa [Store.Confined.existing_eq]
  | @newChild now H env he =>
    have hc' := hc.newChild (hH he)
    refine ⟨hc', fun i hi => ?_⟩
    rcases hi with hi | hi
    · cases hi
      exact .inr ⟨now.newChild_lt, fun hold => Nat.lt_irrefl _ (Nat.lt_of_lt_of_le hold hc.size_le)⟩
    · refine (hH hi).imp_right fun hi => ⟨?_, hi.2⟩
      rw [Store.mem_existing, Store.size_newChild]
      exact Nat.lt_succ_of_lt hi.1
  | newClosure =>
    refine ⟨⟨hc.size_le, hc.getElem?_eq, hc.closed⟩, fun i hi => ?_⟩
    rcases hi with hi | hi
    · cases hi
    · exact hH hi

theorem Accesses.confined {may : FrameId → String → Prop} {st : Store} {R : Set FrameId} {k k' : Held}
    (h : Accesses may k k') (hc : st.Confined R k.store)
    (hH : Handle.frames k.handles ⊆ R ∪ k.store.existing \ st.existing) :
    st.Confined R k'.store ∧ Handle.frames k'.handles ⊆ R ∪ k'.store.existing \ st.existing := by
  induction h with
  | refl => exact ⟨hc, hH⟩
  | tail _ hstep ih => exact hstep.confined ih.1 ih.2

theorem Run.Uses.confined {α : Type} {r : Run α} {need : Set Handle} {home : FrameId} {X : Set String}
    {g : α → Set Handle} {st : Store} {R : Set FrameId} (hr : r.Uses need home X g) (hR : st.Closed R)
    (hneed : Handle.frames need ⊆ R) :
    st.Confined R (r.after st) ∧ ∀ a st', r st = .ok a st' →
      Handle.frames (g a) ⊆ R ∪ st'.existing \ st.existing := by
  obtain ⟨H, h, hg⟩ := hr st need subset_rfl
  obtain ⟨hc, hH⟩ := h.confined (.refl hR) (hneed.trans Set.subset_union_left)
  refine ⟨hc, fun a st' he i hi => ?_⟩
  rw [Run.after_of_ok he] at hH
  exact hH (hg a st' he hi)

/-- The run changes only frames that its own leads to, and its frame and its result lead to no old frame
that its own did not lead to before. -/
structure Run.Footprint {α : Type} (r : Run α) (st : Store) (env : FrameId) (g : α → Set FrameId) : Prop where
  getElem?_eq : ∀ i < st.frames.size, ¬ st.Reaches env i → (r.after st).frames[i]? = st.frames[i]?
  reaches : ∀ i, (r.after st).Reaches env i → st.Reaches env i ∨ i ∈ (r.after st).existing \ st.existing
  result : ∀ a st', r st = .ok a st' → ∀ f ∈ g a, ∀ i, st'.Reaches f i →
    st.Reaches env i ∨ i ∈ st'.existing \ st.existing

theorem Run.Uses.footprint {α : Type} {r : Run α} {env home : FrameId} {X : Set String}
    {g : α → Set Handle} (hr : r.Uses {.frame env} home X g) (st : Store) :
    r.Footprint st env fun a => Handle.frames (g a) := by
  obtain ⟨hc, hg⟩ := hr.confined st.closed_reachable
    (by rw [Handle.frames_singleton]; exact Set.singleton_subset_iff.2 .refl)
  refine ⟨hc.getElem?_eq, fun i hi => hc.closed.reaches (.inl .refl) hi, fun a st' he f hf i hi => ?_⟩
  have hclosed := hc.closed
  rw [Run.after_of_ok he] at hclosed
  exact hclosed.reaches (hg a st' he hf) hi

end Scriptlet
