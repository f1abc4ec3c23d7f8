import Scriptlet.Proofs.ScopeChains

/-!
# Frames shared by identity

Seen through a handle, a store is a list of maps, from the frame of the handle to the outermost one. The
lists of two handles share a frame if it has the same identity in both, so a change of one frame is a change
of all its copies. `Reference` works on such lists only, and answers each operation as the store does: one
operation keeps the lists those of the store (`Table.Valid.agrees_act`), so a sequence of operations has the same
answers on both.
-/

namespace Scriptlet

/-- A frame as a map of names, with its identity. -/
structure Layer where
  id : Nat
  vars : String → Option Value

def Layer.binds (x : String) (l : Layer) : Bool := (l.vars x).isSome

/-- What a program does through a handle that it has. -/
inductive Action where
  | child
  | clone
  | outer
  | declare (x : String) (v : Value)
  | write (x : String) (v : Value)
  | delete (x : String)
  | read (x : String)
  | has (x : String)
  | hasOwn (x : String)

/-- An operation: a frame without an outer one, or an action through a handle. -/
inductive Operation where
  | fresh
  | through (handle : Nat) (action : Action)

/-- What an operation answers. A new handle comes behind those that there are. -/
inductive Answer where
  | done
  | flag (b : Bool)
  | value (v : Value)

/-- The answers of a sequence of operations, if each goes through a handle that there is. -/
def answers {σ : Type} (step : σ → Operation → Option (Answer × σ)) : σ → List Operation → Option (List Answer)
  | _, [] => some []
  | s, op :: ops => (step s op).bind fun (a, s') => (answers step s' ops).map (a :: ·)

/-! ### The store behind handles -/

structure Table where
  store : Store
  handles : List FrameId

namespace Table

def act (t : Table) (e : FrameId) : Action → Answer × Table
  | .child => (.done, ⟨(t.store.newChild e).2, t.handles ++ [(t.store.newChild e).1]⟩)
  | .clone => (.done, { t with handles := t.handles ++ [e] })
  | .outer =>
    match t.store.outer? e with
    | some o => (.flag true, { t with handles := t.handles ++ [o] })
    | none => (.flag false, t)
  | .declare x v => (.done, { t with store := t.store.declare e x v })
  | .write x v => (.done, { t with store := t.store.write e x v })
  | .delete x => (.flag (t.store.delete e x).1, { t with store := (t.store.delete e x).2 })
  | .read x => (.value (t.store.read e x), t)
  | .has x => (.flag (t.store.hasBinding e x), t)
  | .hasOwn x => (.flag (t.store.owns x e), t)

def step (t : Table) : Operation → Option (Answer × Table)
  | .fresh => some (.done, ⟨t.store.newRoot.2, t.handles ++ [t.store.newRoot.1]⟩)
  | .through h action => t.handles[h]?.map (t.act · action)

end Table

/-! ### Lists of maps -/

/-- For each handle its maps from the innermost one out, and an identity that no map has yet. -/
structure Reference where
  next : Nat
  handles : List (List Layer)

namespace Reference

/-- Changes a name in all copies of a map. -/
def set (r : Reference) (x : String) (b : Option Value) : Option Layer → Reference
  | some l => { r with handles := r.handles.map (·.map fun k =>
      if k.id = l.id then { k with vars := Function.update k.vars x b } else k) }
  | none => r

def act (r : Reference) (row : List Layer) : Action → Answer × Reference
  | .child => (.done, ⟨r.next + 1, r.handles ++ [⟨r.next, fun _ => none⟩ :: row]⟩)
  | .clone => (.done, { r with handles := r.handles ++ [row] })
  | .outer =>
    match row with
    | _ :: l :: rest => (.flag true, { r with handles := r.handles ++ [l :: rest] })
    | _ => (.flag false, r)
  | .declare x v => (.done, r.set x (some v) row.head?)
  | .write x v => (.done, r.set x (some v) ((row.find? (Layer.binds x)).or row.getLast?))
  | .delete x => (.flag (row.any (Layer.binds x)), r.set x none (row.find? (Layer.binds x)))
  | .read x => (.value ((row.findSome? (·.vars x)).getD .undefined), r)
  | .has x => (.flag (row.any (Layer.binds x)), r)
  | .hasOwn x => (.flag (row.head?.any (Layer.binds x)), r)

def step (r : Reference) : Operation → Option (Answer × Reference)
  | .fresh => some (.done, ⟨r.next + 1, r.handles ++ [[⟨r.next, fun _ => none⟩]]⟩)
  | .through h action => r.handles[h]?.map (r.act · action)

end Reference

/-! ### The lists of a store -/

namespace Store

variable {st st' : Store} {e i o t : FrameId} {x : String} {b : Option Value}

def layer (st : Store) (i : FrameId) : Layer := ⟨i, st.binding? i⟩

def row (st : Store) (e : FrameId) : List Layer := (st.chain e).map st.layer

theorem binds_layer : (st.layer i).binds x = st.owns x i := owns_eq_binding?.symm

theorem IsForest.row_of_outer? (hst : st.IsForest) (ho : st.outer? e = some o) :
    st.row e = st.layer e :: st.row o := by
  rw [row, hst.chain_of_outer? ho]
  rfl

theorem row_of_outer?_none (ho : st.outer? e = none) : st.row e = [st.layer e] := by
  rw [row, chain_of_outer?_none ho]
  rfl

theorem head?_row : (st.row e).head? = some (st.layer e) := by
  unfold row
  fun_cases chain st e <;> rfl

theorem row_ne_nil : st.row e ≠ [] := fun h => by
  have hhead := st.head?_row (e := e)
  rw [h] at hhead
  cases hhead

theorem find?_row : (st.row e).find? (Layer.binds x) = (st.owner? e x).map st.layer := by
  rw [row, List.find?_map, owner?]
  congr 1
  exact List.find?_congr fun i _ => binds_layer

theorem any_row : (st.row e).any (Layer.binds x) = st.hasBinding e x := by
  rw [← List.isSome_find?, find?_row, Option.isSome_map]
  rfl

theorem getLast?_row : (st.row e).getLast? = some (st.layer (st.root e)) := by
  rw [row, List.getLast?_map, root, List.getLastD_eq_getLast?, List.getLast?_eq_some_getLast chain_ne_nil]
  rfl

theorem target_row : ((st.row e).find? (Layer.binds x)).or (st.row e).getLast? =
    some (st.layer (st.target e x)) := by
  rw [find?_row, getLast?_row, target]
  cases st.owner? e x <;> rfl

theorem IsForest.findSome?_row (hst : st.IsForest) :
    ((st.row e).findSome? (·.vars x)).getD .undefined = st.read e x := by
  induction e using hst.induction with
  | last e he =>
    rw [row_of_outer?_none he, List.findSome?_singleton]
    cases hb : st.binding? e x with
    | none => rw [read_of_unbound_last hb he]; exact congrArg (Option.getD · _) hb
    | some v => rw [read_of_owner? (hst.owner?_iff.2 (.here hb))]; rfl
  | step e o he ih =>
    rw [hst.row_of_outer? he, List.findSome?_cons]
    cases hb : st.binding? e x with
    | none =>
      rw [hst.read_of_unbound hb he, ← ih, show (st.layer e).vars x = none from hb]
    | some v =>
      rw [read_of_owner? (hst.owner?_iff.2 (.here hb)), hb, show (st.layer e).vars x = some v from hb]

theorem ChangesOnly.layer_self (hc : st.ChangesOnly st' t x b) :
    st'.layer t = { st.layer t with vars := Function.update (st.layer t).vars x b } := by
  refine congrArg (Layer.mk t) (funext fun y => ?_)
  rw [Function.update_apply]
  split
  next hy => rw [hy, hc.binding?_eq]
  next hy => exact hc.binding?_of_name_ne hy t

theorem ChangesOnly.layer_of_ne (hc : st.ChangesOnly st' t x b) (hi : i ≠ t) : st'.layer i = st.layer i :=
  congrArg (Layer.mk i) (funext fun y => hc.binding?_of_frame_ne hi y)

theorem ChangesOnly.row_eq (hc : st.ChangesOnly st' t x b) (hst : st.IsForest) (e : FrameId) :
    st'.row e = (st.row e).map fun k =>
      if k.id = (st.layer t).id then { k with vars := Function.update k.vars x b } else k := by
  rw [row, row, hst.chain_eq_of_outer?_eq hc.outer?_eq, List.map_map]
  refine List.map_congr_left fun i _ => ?_
  rw [Function.comp_apply]
  split
  next hi => exact (show i = t from hi) ▸ hc.layer_self
  next hi => exact hc.layer_of_ne hi

/-- Frames that come later do not change the list of a frame that was there. -/
theorem IsForest.row_eq_of_lt (hst : st.IsForest) (hst' : st'.IsForest)
    (ho : ∀ i < st.frames.size, st'.outer? i = st.outer? i) (hb : ∀ i, st'.bindings i = st.bindings i)
    (he : e < st.frames.size) : st'.row e = st.row e := by
  have hlayer (i : FrameId) : st'.layer i = st.layer i :=
    congrArg (Layer.mk i) (funext fun y => congrArg (Bindings.get? · y) (hb i))
  induction e using hst.induction with
  | last e h => rw [row_of_outer?_none h, row_of_outer?_none ((ho e he).trans h), hlayer]
  | step e o h ih =>
    rw [hst.row_of_outer? h, hst'.row_of_outer? ((ho e he).trans h), hlayer, ih ((hst e o h).trans he)]

theorem IsForest.newRoot (hst : st.IsForest) : st.newRoot.2.IsForest := hst.of_outer?_eq fun _ => outer?_newRoot

theorem IsForest.newChild (hst : st.IsForest) (he : e < st.frames.size) : (st.newChild e).2.IsForest := by
  intro i o ho
  rw [outer?_newChild] at ho
  split at ho
  next hi => cases ho; exact hi ▸ he
  · exact hst i o ho

theorem layer_size (hb : st'.bindings st.frames.size = st.bindings st.frames.size) :
    st'.layer st.frames.size = ⟨st.frames.size, fun _ => none⟩ := by
  rw [layer, show st'.binding? st.frames.size = fun _ => none from funext fun y => ?_]
  rw [binding?, hb, bindings_of_size_le le_rfl]
  rfl

theorem row_newRoot : st.newRoot.2.row st.frames.size = [⟨st.frames.size, fun _ => none⟩] := by
  rw [row_of_outer?_none (outer?_newRoot.trans (outer?_of_size_le le_rfl)), layer_size bindings_newRoot]

theorem IsForest.row_newChild (hst : st.IsForest) (he : e < st.frames.size) :
    (st.newChild e).2.row st.frames.size = ⟨st.frames.size, fun _ => none⟩ :: st.row e := by
  have hnew := hst.newChild he
  rw [hnew.row_of_outer? (outer?_newChild.trans (if_pos rfl)), layer_size bindings_newChild]
  congr 1
  exact hst.row_eq_of_lt hnew (fun i hi => outer?_newChild.trans (if_neg hi.ne)) (fun _ => bindings_newChild) he

end Store

/-! ### Steps and runs -/

namespace Table

variable {t : Table} {e : FrameId}

/-- The frames of a table are a forest, and its handles lead to frames that exist. -/
structure Valid (t : Table) : Prop where
  isForest : t.store.IsForest
  exists_of_mem : ∀ e ∈ t.handles, e < t.store.frames.size

/-- The lists that are seen through the handles. -/
def view (t : Table) : Reference := ⟨t.store.frames.size, t.handles.map t.store.row⟩

/-- Both sides gave the same answer, and the lists are those of the store again. -/
structure Agrees (p : Answer × Table) (q : Answer × Reference) : Prop where
  valid : p.2.Valid
  view_eq : p.2.view = q.2
  answer_eq : p.1 = q.1

theorem Valid.push (ht : t.Valid) (he : e < t.store.frames.size) :
    ({ t with handles := t.handles ++ [e] } : Table).Valid :=
  ⟨ht.isForest, fun i hi => (List.mem_append.1 hi).elim (ht.exists_of_mem i)
    fun hi => List.mem_singleton.1 hi ▸ he⟩

theorem view_push : ({ t with handles := t.handles ++ [e] } : Table).view =
    { t.view with handles := t.view.handles ++ [t.store.row e] } := by
  simp [view]

theorem Valid.of_changesOnly {st' : Store} {i : FrameId} {x : String} {b : Option Value} (ht : t.Valid)
    (hc : t.store.ChangesOnly st' i x b) : ({ t with store := st' } : Table).Valid :=
  ⟨hc.isForest ht.isForest, fun e he => (ht.exists_of_mem e he).trans_eq hc.size_eq.symm⟩

theorem Valid.view_of_changesOnly {st' : Store} {i : FrameId} {x : String} {b : Option Value} (ht : t.Valid)
    (hc : t.store.ChangesOnly st' i x b) :
    ({ t with store := st' } : Table).view = t.view.set x b (some (t.store.layer i)) := by
  simp only [view, Reference.set, List.map_map, hc.size_eq]
  congr 1
  exact List.map_congr_left fun e _ => hc.row_eq ht.isForest e

theorem Valid.agrees_of_changesOnly {st' : Store} {i : FrameId} {x : String} {b : Option Value} {a a' : Answer}
    {l : Option Layer} (ht : t.Valid) (hc : t.store.ChangesOnly st' i x b) (ha : a = a')
    (hl : l = some (t.store.layer i)) : Agrees (a, { t with store := st' }) (a', t.view.set x b l) :=
  ⟨ht.of_changesOnly hc, hl ▸ ht.view_of_changesOnly hc, ha⟩

theorem Valid.agrees_push {a : Answer} (ht : t.Valid) (he : e < t.store.frames.size) :
    Agrees (a, { t with handles := t.handles ++ [e] })
      (a, { t.view with handles := t.view.handles ++ [t.store.row e] }) :=
  ⟨ht.push he, view_push, rfl⟩

theorem Valid.agrees_self {a a' : Answer} (ht : t.Valid) (ha : a = a') : Agrees (a, t) (a', t.view) :=
  ⟨ht, rfl, ha⟩

/-- A frame added to a forest, behind all others and inside of a frame that was there or of none. -/
theorem Valid.agrees_new {st' : Store} {row : List Layer} (ht : t.Valid)
    (hsize : st'.frames.size = t.store.frames.size + 1) (hforest : st'.IsForest)
    (hold : ∀ i < t.store.frames.size, st'.row i = t.store.row i)
    (hnew : st'.row t.store.frames.size = row) :
    Agrees (.done, ⟨st', t.handles ++ [t.store.frames.size]⟩)
      (.done, ⟨t.view.next + 1, t.view.handles ++ [row]⟩) := by
  refine ⟨⟨hforest, fun i hi => ?_⟩, ?_, rfl⟩
  · rcases List.mem_append.1 hi with hi | hi
    · exact hsize ▸ (ht.exists_of_mem i hi).trans (Nat.lt_succ_self _)
    · exact hsize ▸ List.mem_singleton.1 hi ▸ Nat.lt_succ_self _
  · have hrows : t.handles.map st'.row = t.handles.map t.store.row :=
      List.map_congr_left fun i hi => hold i (ht.exists_of_mem i hi)
    simp only [view, hsize, List.map_append, List.map_singleton, hrows, hnew]

/-- One action through a handle keeps the lists those of the store, and has the answer of the lists. -/
theorem Valid.agrees_act (ht : t.Valid) (he : e < t.store.frames.size) (action : Action) :
    Agrees (t.act e action) (t.view.act (t.store.row e) action) := by
  have hst := ht.isForest
  cases action with
  | child =>
    have hnew := hst.newChild he
    exact ht.agrees_new Store.size_newChild hnew (fun i hi => hst.row_eq_of_lt hnew
      (fun j hj => Store.outer?_newChild.trans (if_neg hj.ne)) (fun _ => Store.bindings_newChild) hi)
      (hst.row_newChild he)
  | clone => exact ht.agrees_push he
  | outer =>
    cases ho : t.store.outer? e with
    | none =>
      simp only [act, ho, Store.row_of_outer?_none ho]
      exact ht.agrees_self rfl
    | some o =>
      have hpush := ht.agrees_push (a := .flag true) ((hst e o ho).trans he)
      simp only [act, ho, hst.row_of_outer? ho]
      cases hr : t.store.row o with
      | nil => exact absurd hr Store.row_ne_nil
      | cons l rest => rw [hr] at hpush; exact hpush
  | declare x v => exact ht.agrees_of_changesOnly (Store.changesOnly_declare he x v) rfl Store.head?_row
  | write x v => exact ht.agrees_of_changesOnly (hst.changesOnly_write he x v) rfl Store.target_row
  | delete x =>
    simp only [act, Reference.act, Store.delete_fst, Store.any_row, Store.find?_row]
    cases ho : t.store.owner? e x with
    | none =>
      rw [Store.delete_of_owner?_none ho]
      exact ht.agrees_self rfl
    | some f => exact ht.agrees_of_changesOnly (hst.changesOnly_delete he (hst.owner?_iff.1 ho)) rfl rfl
  | read x => exact ht.agrees_self (congrArg Answer.value hst.findSome?_row.symm)
  | has x => exact ht.agrees_self (congrArg Answer.flag Store.any_row.symm)
  | hasOwn x =>
    refine ht.agrees_self (congrArg Answer.flag ?_)
    rw [Store.head?_row, Option.any_some, Store.binds_layer]

theorem Valid.agrees_fresh (ht : t.Valid) : Agrees
    (.done, ⟨t.store.newRoot.2, t.handles ++ [t.store.newRoot.1]⟩)
    (.done, ⟨t.view.next + 1, t.view.handles ++ [[⟨t.view.next, fun _ => none⟩]]⟩) := by
  have hnew := ht.isForest.newRoot
  exact ht.agrees_new Store.size_newRoot hnew (fun i hi => ht.isForest.row_eq_of_lt hnew
    (fun _ _ => Store.outer?_newRoot) (fun _ => Store.bindings_newRoot) hi) Store.row_newRoot

theorem Valid.answers_eq (ht : t.Valid) (ops : List Operation) :
    answers step t ops = answers Reference.step t.view ops := by
  induction ops generalizing t with
  | nil => rfl
  | cons op ops ih =>
    have hbind {p : Answer × Table} {q : Answer × Reference} (h : Agrees p q) :
        (answers step p.2 ops).map (p.1 :: ·) = (answers Reference.step q.2 ops).map (q.1 :: ·) := by
      rw [ih h.valid, h.view_eq, h.answer_eq]
    cases op with
    | fresh => exact hbind ht.agrees_fresh
    | through handle action =>
      simp only [answers, step, Reference.step]
      rw [show t.view.handles[handle]? = t.handles[handle]?.map t.store.row from List.getElem?_map]
      cases he : t.handles[handle]? with
      | none => rfl
      | some e => exact hbind (ht.agrees_act (ht.exists_of_mem e (List.mem_of_getElem? he)) action)

end Table

/-! ### The laws -/

namespace Store

variable {st : Store} {e : FrameId}

/-- The name of the frame got a value: it is read where the frame owns the name now, and all else is read
as before. -/
structure Assigned (st st' : Store) (t : FrameId) (x : String) (v : Value) : Prop where
  changesOnly : st.ChangesOnly st' t x (some v)
  means_read : ∀ h y, st'.Means h y (st'.read h y)
  read_owner : ∀ h, st'.Owner x h t → st'.read h x = v
  read_other : ∀ h y, ¬ (y = x ∧ st'.Owner x h t) → st'.read h y = st.read h y

/-- The frame lost the name: where it owned the name, the name is read as outside of the frame, and all
else is read as before. -/
structure Removed (st st' : Store) (t : FrameId) (x : String) : Prop where
  changesOnly : st.ChangesOnly st' t x none
  means_read : ∀ h y, st'.Means h y (st'.read h y)
  read_outer : ∀ h, st.Owner x h t → (∀ o, st.outer? t = some o → st'.read h x = st.read o x) ∧
    (st.outer? t = none → st'.read h x = .undefined)
  read_other : ∀ h y, ¬ (y = x ∧ st.Owner x h t) → st'.read h y = st.read h y

theorem ChangesOnly.assigned {st' : Store} {t : FrameId} {x : String} {v : Value}
    (hc : st.ChangesOnly st' t x (some v)) (hst : st.IsForest) : st.Assigned st' t x v :=
  ⟨hc, (hc.isForest hst).means_read, fun _ => hc.read_of_owner hst, fun _ _ => hc.read_bound hst⟩

theorem ChangesOnly.removed {st' : Store} {t : FrameId} {x : String} (hc : st.ChangesOnly st' t x none)
    (hst : st.IsForest) : st.Removed st' t x :=
  ⟨hc, (hc.isForest hst).means_read, fun _ => hc.read_uncovered hst, fun _ _ => hc.read_unbound hst⟩

end Store

/-- In a forest of frames a declaration, an assignment and a deletion change one name of one frame, reads
follow the first owner, and through any handles a sequence of operations has the answers of the lists of
maps that share frames by identity. -/
theorem scope_chain_laws {st : Store} (hst : st.IsForest) {e : FrameId} (he : e < st.frames.size) (x : String)
    (v : Value) :
    (∀ h y, st.Means h y (st.read h y)) ∧
    st.Assigned (st.declare e x v) e x v ∧
    (∃ t, st.Target x e t ∧ st.Assigned (st.write e x v) t x v) ∧
    (st.delete e x).1 = st.hasBinding e x ∧
    (st.hasBinding e x = true ↔ ∃ t, st.Owner x e t) ∧
    (∀ t, st.Owner x e t → st.Removed (st.delete e x).2 t x) ∧
    ((∀ t, ¬ st.Owner x e t) → (st.delete e x).2 = st) ∧
    ∀ handles ops, (∀ h ∈ handles, h < st.frames.size) →
      answers Table.step ⟨st, handles⟩ ops =
        answers Reference.step ⟨st.frames.size, handles.map st.row⟩ ops := by
  refine ⟨hst.means_read, (Store.changesOnly_declare he x v).assigned hst,
    ⟨st.target e x, hst.target_spec e x, (hst.changesOnly_write he x v).assigned hst⟩,
    st.delete_fst e x, hst.hasBinding_iff, fun t ht => (hst.changesOnly_delete he ht).removed hst,
    fun hnone => ?_, fun handles ops hh => Table.Valid.answers_eq ⟨hst, hh⟩ ops⟩
  rw [Store.delete_of_owner?_none (hst.owner?_eq_none_iff.2 hnone)]

/-- Of two frames that bind a name, the inner one loses it: through both, the outer binding is read. -/
theorem scope_chain_laws_delete :
    let st := ((Session.new.store.declare 0 "x" (.boolean false)).newChild 0).2.declare 1 "x" (.boolean true)
    (st.delete 1 "x").1 = true ∧ (st.delete 1 "x").2.read 1 "x" = st.read 0 "x" ∧
      answers Table.step ⟨st, [1, 0]⟩ [.through 0 (.delete "x"), .through 0 (.read "x"), .through 1 (.read "x")] =
        some [.flag true, .value (.boolean false), .value (.boolean false)] := by
  intro st
  have hst : st.IsForest := by
    have hroot : Session.new.store.IsForest := Session.new_wellFormed.outer_lt
    have hglobal := (Store.changesOnly_declare (t := 0) (by decide) "x" (.boolean false)).isForest hroot
    exact (Store.changesOnly_declare (by decide) "x" (.boolean true)).isForest (hglobal.newChild (by decide))
  have howner : st.Owner "x" 1 1 := .here rfl
  obtain ⟨-, -, -, hfst, hhas, hremoved, -, hanswers⟩ :=
    scope_chain_laws hst (e := 1) (by decide) "x" .undefined
  refine ⟨hfst.trans (hhas.2 ⟨1, howner⟩), ((hremoved 1 howner).read_outer 1 howner).1 0 rfl, ?_⟩
  rw [hanswers [1, 0] _ (by decide), List.map_cons, List.map_singleton,
    hst.row_of_outer? (e := 1) (o := 0) rfl, Store.row_of_outer?_none (e := 0) rfl]
  rfl

end Scriptlet
