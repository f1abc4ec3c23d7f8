import Scriptlet.Proofs.WellFormedStore

/-!
# The laws of scope chains

A name means its binding in its owner, which is the first frame on the way out that binds it. A
declaration, an assignment and a deletion each change one name of one frame (`ChangesOnly`), and what is
read afterwards through any frame follows from which frame that was: the way out of a frame stays as it is,
so the owner of a name moves only to the changed frame or away from it.
-/

namespace Scriptlet

namespace Store

variable {st st' : Store} {e f h i o t : FrameId} {x y : String} {v : Value} {b : Option Value}

/-- Links lead to older frames, so they have no cycles. -/
def IsForest (st : Store) : Prop := ∀ i o, st.outer? i = some o → o < i

/-- What a frame itself binds a name to. -/
def binding? (st : Store) (i : FrameId) (x : String) : Option Value := (st.bindings i).get? x

/-- The first frame on the way out of `e` that binds the name. -/
inductive Owner (st : Store) (x : String) : FrameId → FrameId → Prop where
  | here {e : FrameId} {v : Value} : st.binding? e x = some v → Owner st x e e
  | out {e o t : FrameId} : st.binding? e x = none → st.outer? e = some o → Owner st x o t → Owner st x e t

/-- The last frame on the way out of `e`. -/
inductive Outermost (st : Store) : FrameId → FrameId → Prop where
  | here {e : FrameId} : st.outer? e = none → Outermost st e e
  | out {e o t : FrameId} : st.outer? e = some o → Outermost st o t → Outermost st e t

/-- The frame that an assignment goes to. -/
def Target (st : Store) (x : String) (e t : FrameId) : Prop :=
  st.Owner x e t ∨ (∀ f, ¬ st.Owner x e f) ∧ st.Outermost e t

/-- What the name means in `e`: its value in its owner, and undefined without one. -/
def Means (st : Store) (e : FrameId) (x : String) (v : Value) : Prop :=
  (∃ t, st.Owner x e t ∧ st.binding? t x = some v) ∨ (∀ t, ¬ st.Owner x e t) ∧ v = .undefined

/-- `st'` has the frames, links and closures of `st`, and binds what `st` binds but for the name `x` of
the frame `t`, for which it has `b`. -/
structure ChangesOnly (st st' : Store) (t : FrameId) (x : String) (b : Option Value) : Prop where
  size_eq : st'.frames.size = st.frames.size
  closures_eq : st'.closures = st.closures
  outer?_eq : ∀ i, st'.outer? i = st.outer? i
  binding?_eq : st'.binding? t x = b
  binding?_of_ne : ∀ i y, (i, y) ≠ (t, x) → st'.binding? i y = st.binding? i y

theorem owns_eq_binding? : st.owns x i = (st.binding? i x).isSome := owns_eq

/-! ### Ways out -/

theorem IsForest.of_outer?_eq (hst : st.IsForest) (ho : ∀ i, st'.outer? i = st.outer? i) : st'.IsForest :=
  fun i o h => hst i o ((ho i).symm.trans h)

theorem IsForest.chain_of_outer? (hst : st.IsForest) (ho : st.outer? e = some o) :
    st.chain e = e :: st.chain o := by
  rw [chain, ho]
  exact if_pos (hst e o ho)

theorem chain_of_outer?_none (ho : st.outer? e = none) : st.chain e = [e] := by
  rw [chain, ho]

/-- Induction along the links of a forest. -/
theorem IsForest.induction {P : FrameId → Prop} (hst : st.IsForest) (last : ∀ e, st.outer? e = none → P e)
    (step : ∀ e o, st.outer? e = some o → P o → P e) (e : FrameId) : P e := by
  induction e using Nat.strong_induction_on with
  | _ e ih =>
    cases ho : st.outer? e with
    | none => exact last e ho
    | some o => exact step e o ho (ih o (hst e o ho))

theorem IsForest.le_of_mem_chain (hst : st.IsForest) (hi : i ∈ st.chain e) : i ≤ e :=
  chain_forall (fun _ _ hj ho => (hst _ _ ho).le.trans hj) le_rfl i hi

theorem IsForest.chain_eq_of_outer?_eq (hst : st.IsForest) (ho : ∀ i, st'.outer? i = st.outer? i)
    (e : FrameId) : st'.chain e = st.chain e := by
  induction e using hst.induction with
  | last e he => rw [chain_of_outer?_none he, chain_of_outer?_none ((ho e).trans he)]
  | step e o he ih =>
    rw [hst.chain_of_outer? he, (hst.of_outer?_eq ho).chain_of_outer? ((ho e).trans he), ih]

theorem IsForest.owner?_iff (hst : st.IsForest) : st.owner? e x = some t ↔ st.Owner x e t := by
  induction e using hst.induction with
  | last e he =>
    rw [owner?, chain_of_outer?_none he, List.find?_singleton, owns_eq_binding?]
    refine ⟨fun h => ?_, fun h => ?_⟩
    · cases hb : st.binding? e x with
      | none => rw [hb] at h; cases h
      | some v => rw [hb] at h; cases h; exact .here hb
    · cases h with
      | here hb => rw [hb]; rfl
      | out _ ho _ => rw [he] at ho; cases ho
  | step e o he ih =>
    rw [owner?, hst.chain_of_outer? he, List.find?_cons, owns_eq_binding?]
    cases hb : st.binding? e x with
    | none =>
      refine ⟨fun h => .out hb he (ih.1 h), fun h => ?_⟩
      cases h with
      | here hb' => rw [hb] at hb'; cases hb'
      | out _ ho h => rw [he] at ho; cases ho; exact ih.2 h
    | some v =>
      refine ⟨fun h => by cases h; exact .here hb, fun h => ?_⟩
      cases h with
      | here => rfl
      | out hb' => rw [hb] at hb'; cases hb'

theorem IsForest.owner?_eq_none_iff (hst : st.IsForest) :
    st.owner? e x = none ↔ ∀ t, ¬ st.Owner x e t := by
  simp only [← hst.owner?_iff, Option.eq_none_iff_forall_ne_some, ne_eq]

theorem IsForest.hasBinding_iff (hst : st.IsForest) : st.hasBinding e x = true ↔ ∃ t, st.Owner x e t := by
  simp only [hasBinding, Option.isSome_iff_exists, hst.owner?_iff]

theorem IsForest.root_of_outer? (hst : st.IsForest) (ho : st.outer? e = some o) :
    st.root e = st.root o := by
  rw [root, root, hst.chain_of_outer? ho, List.getLastD_eq_getLast?, List.getLastD_eq_getLast?,
    List.getLast?_cons, List.getLast?_eq_some_getLast chain_ne_nil]
  rfl

theorem IsForest.outermost_root (hst : st.IsForest) (e : FrameId) : st.Outermost e (st.root e) := by
  induction e using hst.induction with
  | last e he =>
    have hroot : st.root e = e := by rw [root, chain_of_outer?_none he]; rfl
    exact hroot.symm ▸ .here he
  | step e o he ih =>
    rw [hst.root_of_outer? he]
    exact .out he ih

/-- The frame that an assignment goes to, as it is computed. -/
def target (st : Store) (e : FrameId) (x : String) : FrameId := (st.owner? e x).getD (st.root e)

theorem IsForest.target_spec (hst : st.IsForest) (e : FrameId) (x : String) :
    st.Target x e (st.target e x) := by
  unfold target
  cases h : st.owner? e x with
  | none => exact .inr ⟨hst.owner?_eq_none_iff.1 h, hst.outermost_root e⟩
  | some t => exact .inl (hst.owner?_iff.1 h)

theorem target_mem_chain (e : FrameId) (x : String) : st.target e x ∈ st.chain e := by
  unfold target
  cases h : st.owner? e x with
  | none => exact root_mem_chain
  | some t => exact (owner?_eq_some h).1

/-! ### Reads -/

theorem exists_binding?_of_owner? (h : st.owner? e x = some t) : ∃ v, st.binding? t x = some v := by
  rw [← Option.isSome_iff_exists, ← owns_eq_binding?]
  exact (owner?_eq_some h).2

theorem read_of_owner? (h : st.owner? e x = some t) : st.read e x = (st.binding? t x).getD .undefined := by
  rw [read, h]
  rfl

theorem read_of_owner?_none (h : st.owner? e x = none) : st.read e x = .undefined := by
  rw [read, h]

/-- A read gives what the name means. -/
theorem IsForest.means_read (hst : st.IsForest) (e : FrameId) (x : String) : st.Means e x (st.read e x) := by
  cases h : st.owner? e x with
  | none => exact .inr ⟨hst.owner?_eq_none_iff.1 h, read_of_owner?_none h⟩
  | some t =>
    obtain ⟨v, hv⟩ := exists_binding?_of_owner? h
    refine .inl ⟨t, hst.owner?_iff.1 h, ?_⟩
    rw [read_of_owner? h, hv]
    rfl

/-! ### One changed binding -/

theorem Owner.exists_binding? (h : st.Owner x e t) : ∃ v, st.binding? t x = some v := by
  induction h with
  | here hb => exact ⟨_, hb⟩
  | out _ _ _ ih => exact ih

theorem Owner.mem_chain (hst : st.IsForest) (h : st.Owner x e t) : t ∈ st.chain e :=
  (owner?_eq_some (hst.owner?_iff.2 h)).1

theorem IsForest.read_of_unbound (hst : st.IsForest) (hb : st.binding? e x = none)
    (ho : st.outer? e = some o) : st.read e x = st.read o x := by
  have hown : st.owner? e x = st.owner? o x := by
    rw [owner?, hst.chain_of_outer? ho, List.find?_cons, owns_eq_binding?, hb]
    rfl
  rw [read, read, hown]

theorem read_of_unbound_last (hb : st.binding? e x = none) (ho : st.outer? e = none) :
    st.read e x = .undefined := by
  refine read_of_owner?_none ?_
  rw [owner?, chain_of_outer?_none ho, List.find?_singleton, owns_eq_binding?, hb]
  rfl

/-- Two forests in which a name has the same owner with the same value. -/
theorem IsForest.read_congr (hst : st.IsForest) (hst' : st'.IsForest)
    (hown : ∀ f, st'.Owner x e f ↔ st.Owner x e f)
    (hb : ∀ f, st.Owner x e f → st'.binding? f x = st.binding? f x) : st'.read e x = st.read e x := by
  have heq : st'.owner? e x = st.owner? e x := by
    ext f
    rw [hst'.owner?_iff, hst.owner?_iff, hown]
  cases h : st.owner? e x with
  | none => rw [read_of_owner?_none h, read_of_owner?_none (heq.trans h)]
  | some f => rw [read_of_owner? h, read_of_owner? (heq.trans h), hb f (hst.owner?_iff.1 h)]

namespace ChangesOnly

theorem isForest (hc : st.ChangesOnly st' t x b) (hst : st.IsForest) : st'.IsForest :=
  hst.of_outer?_eq hc.outer?_eq

theorem symm (hc : st.ChangesOnly st' t x b) : st'.ChangesOnly st t x (st.binding? t x) :=
  ⟨hc.size_eq.symm, hc.closures_eq.symm, fun i => (hc.outer?_eq i).symm, rfl,
    fun i y h => (hc.binding?_of_ne i y h).symm⟩

theorem binding?_of_frame_ne (hc : st.ChangesOnly st' t x b) (hi : i ≠ t) (y : String) :
    st'.binding? i y = st.binding? i y :=
  hc.binding?_of_ne i y fun h => hi (congrArg Prod.fst h)

theorem binding?_of_name_ne (hc : st.ChangesOnly st' t x b) (hy : y ≠ x) (i : FrameId) :
    st'.binding? i y = st.binding? i y :=
  hc.binding?_of_ne i y fun h => hy (congrArg Prod.snd h)

theorem owner_of_name_ne (hc : st.ChangesOnly st' t x b) (hy : y ≠ x) (h : st.Owner y e f) :
    st'.Owner y e f := by
  induction h with
  | here hb => exact .here ((hc.binding?_of_name_ne hy _).trans hb)
  | out hb ho _ ih => exact .out ((hc.binding?_of_name_ne hy _).trans hb) ((hc.outer?_eq _).trans ho) ih

/-- An owner that did not change is still the owner, unless the changed frame comes before it now. -/
theorem owner_or_owner (hc : st.ChangesOnly st' t x b) (h : st.Owner x e f) (hf : f ≠ t) :
    st'.Owner x e f ∨ st'.Owner x e t := by
  induction h with
  | here hb => exact .inl (.here ((hc.binding?_of_frame_ne hf x).trans hb))
  | @out e o f hb ho _ ih =>
    have hout {r : FrameId} (hb' : st'.binding? e x = none) (h : st'.Owner x o r) : st'.Owner x e r :=
      .out hb' ((hc.outer?_eq e).trans ho) h
    by_cases he : e = t
    · subst he
      cases hb' : st'.binding? e x with
      | some v => exact .inr (.here hb')
      | none => exact (ih hf).imp (hout hb') (hout hb')
    · have hb' := (hc.binding?_of_frame_ne he x).trans hb
      exact (ih hf).imp (hout hb') (hout hb')

theorem owner_of_bound (hc : st.ChangesOnly st' t x (some v)) (h : st.Owner x e t) : st'.Owner x e t := by
  induction h with
  | here => exact .here hc.binding?_eq
  | @out e o t hb ho _ ih =>
    by_cases he : e = t
    · exact he ▸ .here (he ▸ hc.binding?_eq)
    · exact .out ((hc.binding?_of_frame_ne he x).trans hb) ((hc.outer?_eq e).trans ho) (ih hc)

theorem owner_iff (hc : st.ChangesOnly st' t x b) (h : ¬ st.Owner x e t) (h' : ¬ st'.Owner x e t) (f : FrameId) :
    st'.Owner x e f ↔ st.Owner x e f := by
  refine ⟨fun hf => ?_, fun hf => ?_⟩
  · exact (hc.symm.owner_or_owner hf fun heq => h' (heq ▸ hf)).resolve_right h
  · exact (hc.owner_or_owner hf fun heq => h (heq ▸ hf)).resolve_right h'

theorem read_of_name_ne (hc : st.ChangesOnly st' t x b) (hst : st.IsForest) (hy : y ≠ x) (h : FrameId) :
    st'.read h y = st.read h y :=
  hst.read_congr (hc.isForest hst) (fun _ => ⟨hc.symm.owner_of_name_ne hy, hc.owner_of_name_ne hy⟩)
    fun f _ => hc.binding?_of_name_ne hy f

theorem read_of_not_owner (hc : st.ChangesOnly st' t x b) (hst : st.IsForest) (h : ¬ st.Owner x e t)
    (h' : ¬ st'.Owner x e t) : st'.read e x = st.read e x :=
  hst.read_congr (hc.isForest hst) (hc.owner_iff h h')
    fun _ hf => hc.binding?_of_frame_ne (fun heq => h (heq ▸ hf)) x

/-- What is read where the changed frame owns the name. -/
theorem read_of_owner (hc : st.ChangesOnly st' t x (some v)) (hst : st.IsForest) (h : st'.Owner x e t) :
    st'.read e x = v := by
  rw [read_of_owner? ((hc.isForest hst).owner?_iff.2 h), hc.binding?_eq]
  rfl

theorem read_bound (hc : st.ChangesOnly st' t x (some v)) (hst : st.IsForest)
    (h : ¬ (y = x ∧ st'.Owner x e t)) : st'.read e y = st.read e y := by
  by_cases hy : y = x
  · subst hy
    have h' : ¬ st'.Owner y e t := fun ho => h ⟨rfl, ho⟩
    exact hc.read_of_not_owner hst (fun ho => h' (hc.owner_of_bound ho)) h'
  · exact hc.read_of_name_ne hst hy e

theorem not_owner (hc : st.ChangesOnly st' t x none) : ¬ st'.Owner x e t := fun h => by
  obtain ⟨v, hv⟩ := h.exists_binding?
  rw [hc.binding?_eq] at hv
  cases hv

theorem read_unbound (hc : st.ChangesOnly st' t x none) (hst : st.IsForest)
    (h : ¬ (y = x ∧ st.Owner x e t)) : st'.read e y = st.read e y := by
  by_cases hy : y = x
  · subst hy
    exact hc.read_of_not_owner hst (fun ho => h ⟨rfl, ho⟩) hc.not_owner
  · exact hc.read_of_name_ne hst hy e

/-- Outside of a frame whose binding went, the name means what it meant. -/
theorem read_outer (hc : st.ChangesOnly st' t x none) (hst : st.IsForest) (ho : st.outer? t = some o) :
    st'.read o x = st.read o x := by
  refine hc.read_of_not_owner hst (fun h => ?_) hc.not_owner
  exact absurd (hst t o ho) (Nat.not_lt.2 (hst.le_of_mem_chain (h.mem_chain hst)))

/-- Where the name lost its owner, the binding outside of that owner is seen. -/
theorem read_uncovered (hc : st.ChangesOnly st' t x none) (hst : st.IsForest) (h : st.Owner x e t) :
    (∀ o, st.outer? t = some o → st'.read e x = st.read o x) ∧
      (st.outer? t = none → st'.read e x = .undefined) := by
  induction h with
  | here =>
    refine ⟨fun o ho => ?_, fun ho => ?_⟩
    · rw [(hc.isForest hst).read_of_unbound hc.binding?_eq ((hc.outer?_eq _).trans ho), hc.read_outer hst ho]
    · exact read_of_unbound_last hc.binding?_eq ((hc.outer?_eq _).trans ho)
  | @out e o t hb ho h ih =>
    have he : e ≠ t := fun he => by
      obtain ⟨v, hv⟩ := h.exists_binding?
      rw [← he, hb] at hv
      cases hv
    rw [(hc.isForest hst).read_of_unbound ((hc.binding?_of_frame_ne he x).trans hb)
      ((hc.outer?_eq e).trans ho)]
    exact ih hc

end ChangesOnly

/-! ### The three changes -/

theorem changesOnly_modify {change : Bindings → Bindings} (he : t < st.frames.size)
    (hx : ∀ bs : Bindings, (change bs).get? x = b)
    (hne : ∀ bs : Bindings, ∀ y ≠ x, (change bs).get? y = bs.get? y) :
    st.ChangesOnly (st.modify t change) t x b := by
  refine ⟨size_modify, rfl, fun _ => outer?_modify, ?_, fun i y h => ?_⟩
  · rw [binding?, bindings_modify, if_pos ⟨rfl, he⟩, hx]
  · rw [binding?, bindings_modify]
    split
    next hi => exact hne _ y fun hy => h (by rw [hi.1, hy])
    · rfl

theorem changesOnly_declare (he : t < st.frames.size) (x : String) (v : Value) :
    st.ChangesOnly (st.declare t x v) t x (some v) :=
  changesOnly_modify he (fun _ => by rw [Bindings.get?_insert, if_pos rfl])
    fun _ _ hy => by rw [Bindings.get?_insert, if_neg hy]

theorem changesOnly_erase (he : t < st.frames.size) (x : String) :
    st.ChangesOnly (st.modify t (.erase x)) t x none :=
  changesOnly_modify he (fun _ => by rw [Bindings.get?_erase, if_pos rfl])
    fun _ _ hy => by rw [Bindings.get?_erase, if_neg hy]

theorem IsForest.lt_of_mem_chain (hst : st.IsForest) (he : e < st.frames.size) (hi : i ∈ st.chain e) :
    i < st.frames.size :=
  (hst.le_of_mem_chain hi).trans_lt he

theorem IsForest.changesOnly_write (hst : st.IsForest) (he : e < st.frames.size) (x : String) (v : Value) :
    st.ChangesOnly (st.write e x v) (st.target e x) x (some v) :=
  changesOnly_declare (hst.lt_of_mem_chain he (target_mem_chain e x)) x v

theorem delete_of_owner? (h : st.owner? e x = some t) : st.delete e x = (true, st.modify t (.erase x)) := by
  simp only [delete, h, ← owns_eq, (owner?_eq_some h).2]

theorem delete_of_owner?_none (h : st.owner? e x = none) : st.delete e x = (false, st) := by
  rw [delete, h]

theorem IsForest.changesOnly_delete (hst : st.IsForest) (he : e < st.frames.size)
    (h : st.Owner x e t) : st.ChangesOnly (st.delete e x).2 t x none := by
  rw [delete_of_owner? (hst.owner?_iff.2 h)]
  exact changesOnly_erase (hst.lt_of_mem_chain he (h.mem_chain hst)) x

end Store

end Scriptlet
