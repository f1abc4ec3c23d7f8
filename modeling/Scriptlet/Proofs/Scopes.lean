import Scriptlet.Proofs.WellFormedStore

/-!
# Declarations stay in their scope

A frame inside of another gains names only by declarations that run in it. Reads, deletions and calls add
none; an assignment adds a name to a frame without an outer one, or to none. So what a run adds to the
frames that were there before it are the names that its node declares, in the frame of the run.
-/

namespace Scriptlet

variable {st st' : Store} {env i : FrameId} {X : Set String}

/-- Of the frames of `st` that are inside of another, only `home` binds more names in `st'`, and of these
only names in `X`. -/
def Store.Gains (st st' : Store) (home : FrameId) (X : Set String) : Prop :=
  ∀ i < st.frames.size, st.outer? i ≠ none → ∀ x, st'.owns x i = true →
    st.owns x i = true ∨ (i = home ∧ x ∈ X)

/-- An assignment adds no name but its own, and only to a frame without an outer one. -/
theorem Store.WellFormed.owns_write (h : st.WellFormed) {name x : String} {v : Value}
    (ho : (st.write env name v).owns x i = true) :
    st.owns x i = true ∨ (x = name ∧ st.outer? i = none) := by
  obtain ⟨f, -, hw, hf⟩ := st.write_eq env name v
  rw [hw] at ho
  rcases owns_declare ho with ⟨rfl, rfl⟩ | ho
  · rcases hf with hf | rfl
    · exact .inl hf
    · exact .inr ⟨rfl, outer?_root h.outer_lt env⟩
  · exact .inl ho

/-- One access adds names to old frames as it may. -/
theorem Access.gains {k k' : Held} {size : Nat} {home : FrameId} (h : Access (Binds size home X) k k')
    (hk : k.store.WellFormed) {x : String} (hi : i < size) (ho : k.store.outer? i ≠ none)
    (hx : k'.store.owns x i = true) : k.store.owns x i = true ∨ (i = home ∧ x ∈ X) := by
  cases h with
  | read | newClosure => exact .inl hx
  | write name he hv =>
    rcases hk.owns_write hx with hx | ⟨-, hroot⟩
    · exact .inl hx
    · exact absurd hroot ho
  | declare he hv hmay =>
    rcases Store.owns_declare hx with ⟨rfl, rfl⟩ | hx
    · rcases hmay with hle | hmay
      · exact absurd hi (Nat.not_lt.2 hle)
      · exact .inr hmay
    · exact .inl hx
  | @delete st H env name he =>
    rcases st.delete_eq env name with hd | ⟨f, -, hd⟩ <;> rw [hd] at hx
    · exact .inl hx
    · exact .inl (Store.owns_modify_erase hx)
  | newChild he => rw [Store.owns_newChild] at hx; exact .inl hx

theorem Accesses.gains {k k' : Held} {home : FrameId}
    (h : Accesses (Binds k.store.frames.size home X) k k') (hk : k.store.WellFormed)
    (hK : Handle.frames k.handles ⊆ k.store.existing) : k.store.Gains k'.store home X := by
  induction h with
  | refl => exact fun i _ _ x hx => .inl hx
  | tail hsteps hstep ih =>
    intro i hi ho x hx
    obtain ⟨hkept, -⟩ := Accesses.kept hsteps hk hK
    rcases hstep.gains hkept.wellFormed hi (by rwa [hkept.outer?_eq i hi]) hx with hx | hx
    · exact ih i hi ho x hx
    · exact .inr hx

theorem Run.Uses.gains {α : Type} {r : Run α} {need : Set Handle} {g : α → Set Handle}
    (hr : r.Uses need env X g) (hst : st.WellFormed) (hneed : Handle.frames need ⊆ st.existing) :
    st.Gains (r.after st) env X := by
  obtain ⟨H, h, -⟩ := hr st need subset_rfl
  exact Accesses.gains (k := ⟨st, need⟩) h hst hneed

/-! ### Expressions -/

namespace Node

variable {B : List Node → Prop} {node child : Node}

/-- What runs in the frame of an expression are expressions. -/
theorem Fits.part (h : node.Fits B .expression) (hc : child ∈ node.parts) : child.Fits B .expression := by
  cases h <;> simp only [parts, children, List.mem_cons, List.not_mem_nil, or_false] at hc <;> grind

theorem Fits.not_declares (h : node.Fits B .expression) (x : String) : ¬ node.Declares x := by
  intro hd
  induction hd with
  | var => cases h
  | function => cases h
  | inside hc _ ih => exact ih (h.part hc)

theorem not_declares_block (nodes : List Node) (x : String) : ¬ (Node.block nodes).Declares x := by
  intro hd
  cases hd with
  | inside hc => cases hc

end Node

/-- A run adds to the old frames inside of others only names that its node declares, to its own frame. So
expressions, calls and blocks add none; and an assignment adds a name to outermost frames only. -/
theorem declarations_stay_in_scope (hst : st.WellFormed) (henv : env < st.frames.size) :
    (∀ limit node, st.Gains ((Eval.exec limit node env).after st) env {x | node.Declares x}) ∧
    (∀ limit node, node.Fits Parsed .expression → st.Gains ((Eval.exec limit node env).after st) env ∅) ∧
    (∀ limit f args, f.env < st.frames.size → (∀ v ∈ args, v.frames ⊆ st.existing) →
      st.Gains ((Eval.call (Eval.exec limit) f args).after st) env ∅) ∧
    (∀ limit nodes, st.Gains ((Eval.exec limit (.block nodes) env).after st) env ∅) ∧
    ∀ name v x i, (st.write env name v).owns x i = true →
      st.owns x i = true ∨ (x = name ∧ st.outer? i = none) := by
  have hrun : ∀ limit (node : Node) X, (∀ x, node.Declares x → x ∈ X) →
      st.Gains ((Eval.exec limit node env).after st) env X := fun limit node X hX =>
    (Eval.exec_uses limit node env {.frame env} X rfl hX).gains hst (by simpa using henv)
  refine ⟨fun limit node => hrun limit node _ fun x hx => hx, fun limit node hfit => ?_,
    fun limit f args hf hargs => ?_, fun limit nodes => ?_, fun name v x i => hst.owns_write⟩
  · exact hrun limit node ∅ fun x hx => absurd hx (hfit.not_declares x)
  · have hcall := @Eval.call_uses_existing st env ∅ limit f args hf hargs
    exact hcall.gains hst (Handle.frames_subset_iff.2 subset_rfl)
  · exact hrun limit _ ∅ fun x hx => absurd hx (Node.not_declares_block nodes x)

/-- An assignment inside of a child of the global frame adds its name to the global frame. -/
theorem declarations_stay_in_scope_global :
    let st := (Session.new.store.newChild 0).2
    let st' := (Eval.exec 9 (.assign .plain (.identifier "x") .null) 1).after st
    st.outer? 1 = some 0 ∧ st.Gains st' 1 ∅ ∧ st'.owns "x" 0 = true := by
  have hst : (Session.new.store.newChild 0).2.WellFormed := Session.new_wellFormed.newChild (by decide)
  refine ⟨rfl, (@declarations_stay_in_scope _ 1 hst (by decide)).2.1 9 _ (.assign rfl .identifier .null), ?_⟩
  cbv

end Scriptlet
