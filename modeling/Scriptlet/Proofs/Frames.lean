import Mathlib
import Scriptlet.Store

/-!
# Frames and chains

What the operations on a store do to its frames: how many there are, what is outside of each, and what
each binds. A write goes to a frame of the chain that binds the name, or to the last frame of the chain;
a deletion and a read go to a frame of the chain that binds the name. `Climbs` is the way out of a frame
along the links to outer frames, and `climbs_chain` says that a chain is all of it if these links lead to
older frames.
-/

namespace Scriptlet

namespace Bindings

variable {b : Bindings} {name x : String} {v w : Value}

theorem get?_cons (y : String) (u : Value) (b : Bindings) :
    get? ((y, u) :: b) x = if x = y then some u else b.get? x := by
  unfold get?
  by_cases h : x = y
  · simp [h]
  · have hb : (x == y) = false := by simpa using h
    simp [List.lookup_cons, hb, h]

theorem get?_insert : (b.insert name v).get? x = if x = name then some v else b.get? x := by
  induction b with
  | nil => exact get?_cons name v []
  | cons p b ih =>
    obtain ⟨y, u⟩ := p
    by_cases hy : y = name
    · subst hy
      rw [insert, if_pos rfl, get?_cons, get?_cons]
      split_ifs <;> rfl
    · rw [insert, if_neg hy, get?_cons, get?_cons, ih]
      grind

theorem get?_erase : (b.erase name).get? x = if x = name then none else b.get? x := by
  induction b with
  | nil => simp [erase, get?]
  | cons p b ih =>
    obtain ⟨y, u⟩ := p
    by_cases hy : y = name
    · rw [erase, List.filter_cons_of_neg (by simpa using hy), ← erase, ih, get?_cons]
      grind
    · rw [erase, List.filter_cons_of_pos (by simpa using hy), ← erase, get?_cons, get?_cons, ih]
      grind

theorem mem_of_get? (h : b.get? x = some w) : (x, w) ∈ b := by
  induction b with
  | nil => cases h
  | cons p b ih =>
    obtain ⟨y, u⟩ := p
    rw [get?_cons] at h
    split at h
    next hxy => cases h; rw [hxy]; exact List.mem_cons_self
    · exact List.mem_cons_of_mem _ (ih h)

theorem mem_insert {p : String × Value} (h : p ∈ b.insert name v) : p = (name, v) ∨ p ∈ b := by
  induction b with
  | nil => exact .inl (List.mem_singleton.1 h)
  | cons q b ih =>
    unfold insert at h
    split at h
    · rcases List.mem_cons.1 h with h | h
      · exact .inl h
      · exact .inr (List.mem_cons_of_mem _ h)
    · rcases List.mem_cons.1 h with h | h
      · exact .inr (List.mem_cons.2 (.inl h))
      · exact (ih h).imp_right (List.mem_cons_of_mem _)

theorem mem_erase {p : String × Value} (h : p ∈ b.erase name) : p ∈ b := (List.mem_filter.1 h).1

end Bindings

namespace Store

variable {st : Store} {env f i : FrameId} {name x : String} {v : Value} {change : Bindings → Bindings}

/-! ### Frames one by one -/

theorem owns_eq : st.owns name i = ((st.bindings i).get? name).isSome := by
  unfold owns bindings
  cases st.frames[i]? <;> rfl

theorem bindings_of_size_le (h : st.frames.size ≤ i) : st.bindings i = [] := by
  simp [bindings, Array.getElem?_eq_none h]

theorem outer?_of_size_le (h : st.frames.size ≤ i) : st.outer? i = none := by
  simp [outer?, Array.getElem?_eq_none h]

theorem getElem?_modify : (st.modify f change).frames[i]? =
    if f = i then st.frames[i]?.map (fun fr => { fr with bindings := change fr.bindings })
    else st.frames[i]? := Array.getElem?_modify

theorem getElem?_modify_of_ne (h : f ≠ i) : (st.modify f change).frames[i]? = st.frames[i]? := by
  rw [getElem?_modify, if_neg h]

@[simp] theorem size_modify : (st.modify f change).frames.size = st.frames.size := Array.size_modify ..

@[simp] theorem size_declare : (st.declare f name v).frames.size = st.frames.size := size_modify

@[simp] theorem size_newRoot : st.newRoot.2.frames.size = st.frames.size + 1 := Array.size_push ..

@[simp] theorem size_newChild : (st.newChild f).2.frames.size = st.frames.size + 1 := Array.size_push ..

theorem newRoot_lt (st : Store) : st.newRoot.1 < st.newRoot.2.frames.size :=
  Nat.lt_of_lt_of_eq (Nat.lt_succ_self _) size_newRoot.symm

theorem newChild_lt (st : Store) : (st.newChild f).1 < (st.newChild f).2.frames.size :=
  Nat.lt_of_lt_of_eq (Nat.lt_succ_self _) size_newChild.symm

@[simp] theorem outer?_modify : (st.modify f change).outer? i = st.outer? i := by
  rw [outer?, getElem?_modify]
  split
  · cases h : st.frames[i]? <;> simp [outer?, h]
  · rfl

@[simp] theorem outer?_declare : (st.declare f name v).outer? i = st.outer? i := outer?_modify

theorem bindings_modify : (st.modify f change).bindings i =
    if f = i ∧ i < st.frames.size then change (st.bindings i) else st.bindings i := by
  simp only [bindings, getElem?_modify]
  by_cases h : f = i
  · by_cases hi : i < st.frames.size
    · simp [h, hi]
    · simp [h, hi]
  · simp [h]

theorem mem_bindings_declare {p : String × Value} (h : p ∈ (st.declare f name v).bindings i) :
    (f = i ∧ p = (name, v)) ∨ p ∈ st.bindings i := by
  rw [declare, bindings_modify] at h
  split at h
  next hf => exact (Bindings.mem_insert h).imp_left fun hp => ⟨hf.1, hp⟩
  · exact .inr h

theorem owns_declare : (st.declare f name v).owns x i = true →
    (f = i ∧ x = name) ∨ st.owns x i = true := by
  rw [owns_eq, owns_eq, declare, bindings_modify]
  split
  next hf =>
    rw [Bindings.get?_insert]
    split
    next hx => exact fun _ => .inl ⟨hf.1, hx⟩
    · exact .inr
  · exact .inr

theorem owns_modify_erase (h : (st.modify f (.erase name)).owns x i = true) : st.owns x i = true := by
  rw [owns_eq, bindings_modify] at h
  rw [owns_eq]
  split at h
  · rw [Bindings.get?_erase] at h
    split at h
    · cases h
    · exact h
  · exact h

theorem getElem?_newChild_of_lt (h : i < st.frames.size) :
    (st.newChild f).2.frames[i]? = st.frames[i]? := by
  simp [newChild, Array.getElem?_push, Nat.ne_of_lt h]

theorem outer?_newChild : (st.newChild f).2.outer? i =
    if i = st.frames.size then some f else st.outer? i := by
  simp only [outer?, newChild, Array.getElem?_push]
  split <;> rfl

@[simp] theorem bindings_newChild : (st.newChild f).2.bindings i = st.bindings i := by
  simp only [bindings, newChild, Array.getElem?_push]
  by_cases h : i = st.frames.size
  · simp [h]
  · simp [h]

@[simp] theorem outer?_newRoot : st.newRoot.2.outer? i = st.outer? i := by
  simp only [outer?, newRoot, Array.getElem?_push]
  by_cases h : i = st.frames.size
  · simp [h]
  · simp [h]

@[simp] theorem bindings_newRoot : st.newRoot.2.bindings i = st.bindings i := by
  simp only [bindings, newRoot, Array.getElem?_push]
  by_cases h : i = st.frames.size
  · simp [h]
  · simp [h]

@[simp] theorem owns_newChild : (st.newChild f).2.owns x i = st.owns x i := by
  rw [owns_eq, owns_eq, bindings_newChild]

/-! ### Chains -/

/-- What the frame has and each outer frame inherits, all frames of the chain have. -/
theorem chain_forall {P : FrameId → Prop} (hP : ∀ i o, P i → st.outer? i = some o → P o) (henv : P env) :
    ∀ i ∈ st.chain env, P i := by
  fun_induction chain st env with
  | case1 env o ho _ ih => exact List.forall_mem_cons.2 ⟨henv, ih (hP env o henv ho)⟩
  | case2 => exact List.forall_mem_singleton.2 henv
  | case3 => exact List.forall_mem_singleton.2 henv

theorem chain_ne_nil : st.chain env ≠ [] := by
  fun_cases chain st env <;> exact List.cons_ne_nil _ _

theorem root_mem_chain : st.root env ∈ st.chain env := by
  rw [root, List.getLastD_eq_getLast?, List.getLast?_eq_some_getLast chain_ne_nil]
  exact List.getLast_mem chain_ne_nil

theorem owner?_eq_some (h : st.owner? env name = some f) : f ∈ st.chain env ∧ st.owns name f = true :=
  ⟨List.mem_of_find?_eq_some h, List.find?_some h⟩

/-- A write binds the name in a frame of the chain: in one that binds it already, or in the last. -/
theorem write_eq (st : Store) (env : FrameId) (name : String) (v : Value) :
    ∃ f ∈ st.chain env, st.write env name v = st.declare f name v ∧
      (st.owns name f = true ∨ f = st.root env) := by
  unfold write
  cases h : st.owner? env name with
  | none => exact ⟨_, root_mem_chain, rfl, .inr rfl⟩
  | some f =>
    obtain ⟨hf, ho⟩ := owner?_eq_some h
    exact ⟨f, hf, rfl, .inl ho⟩

theorem delete_eq (st : Store) (env : FrameId) (name : String) :
    (st.delete env name).2 = st ∨
      ∃ f ∈ st.chain env, (st.delete env name).2 = st.modify f (.erase name) := by
  unfold delete
  cases h : st.owner? env name with
  | none => exact .inl rfl
  | some f => exact .inr ⟨f, (owner?_eq_some h).1, rfl⟩

/-- The first frame of the chain that owns a name has a binding of it to remove. -/
theorem delete_fst (st : Store) (env : FrameId) (name : String) : (st.delete env name).1 = st.hasBinding env name := by
  unfold delete hasBinding
  cases h : st.owner? env name with
  | none => rfl
  | some f => simp only [← owns_eq, (owner?_eq_some h).2, Option.isSome_some]

/-- A read gives a value that a frame of the chain binds to the name, or nothing. -/
theorem read_eq (st : Store) (env : FrameId) (name : String) :
    st.read env name = .undefined ∨ ∃ f ∈ st.chain env, (name, st.read env name) ∈ st.bindings f := by
  unfold read
  cases h : st.owner? env name with
  | none => exact .inl rfl
  | some f =>
    obtain ⟨hf, ho⟩ := owner?_eq_some h
    rw [owns_eq] at ho
    obtain ⟨v, hv⟩ := Option.isSome_iff_exists.1 ho
    simp only [hv, Option.getD_some]
    exact .inr ⟨f, hf, Bindings.mem_of_get? hv⟩

@[simp] theorem size_write : (st.write env name v).frames.size = st.frames.size := size_modify

@[simp] theorem outer?_write : (st.write env name v).outer? i = st.outer? i := outer?_modify

@[simp] theorem size_delete : (st.delete env name).2.frames.size = st.frames.size := by
  rcases st.delete_eq env name with h | ⟨f, -, h⟩ <;> simp [h]

@[simp] theorem outer?_delete : (st.delete env name).2.outer? i = st.outer? i := by
  rcases st.delete_eq env name with h | ⟨f, -, h⟩ <;> simp [h]

/-- The frames on the way out of a frame, link by link to a frame that has none outside of it. -/
inductive Climbs (st : Store) : FrameId → List FrameId → Prop where
  | last {env : FrameId} : st.outer? env = none → Climbs st env [env]
  | step {env outer : FrameId} {fs : List FrameId} : st.outer? env = some outer → Climbs st outer fs →
      Climbs st env (env :: fs)

/-- If the links lead to older frames, the way out of each frame ends and is its chain. -/
theorem climbs_chain (h : ∀ i o, st.outer? i = some o → o < i) (env : FrameId) :
    st.Climbs env (st.chain env) := by
  fun_induction chain st env with
  | case1 env o ho _ ih => exact .step ho ih
  | case2 env o ho hlt => exact absurd (h env o ho) hlt
  | case3 env ho => exact .last ho

theorem Climbs.outer?_getLast {fs : List FrameId} (h : st.Climbs env fs) :
    ∃ f, fs.getLast? = some f ∧ st.outer? f = none := by
  induction h with
  | last ho => exact ⟨_, rfl, ho⟩
  | step _ hfs ih =>
    obtain ⟨f, hf, ho⟩ := ih
    cases hfs <;> exact ⟨f, by rwa [List.getLast?_cons_cons], ho⟩

/-- The outermost frame of a chain has no frame outside of it. -/
theorem outer?_root (h : ∀ i o, st.outer? i = some o → o < i) (env : FrameId) :
    st.outer? (st.root env) = none := by
  obtain ⟨f, hf, ho⟩ := (climbs_chain h env).outer?_getLast
  rwa [root, List.getLastD_eq_getLast?, hf]

end Store

end Scriptlet
