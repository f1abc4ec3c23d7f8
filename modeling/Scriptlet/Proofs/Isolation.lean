import Scriptlet.Proofs.Renumbering

/-!
# Contexts apart

Contexts share a store, each with a frame of its own in which it evaluates programs. If no two of these
frames lead to a common one, they never will (`Store.Apart.after`), and each context sees what it would
see alone: of any sequence of turns the turns of one context end as if it had no others, up to the numbers
of frames and functions (`outcomes_alike`). A turn of another context changes no frame that this one leads
to, only the numbers that come next, and `Store.Mirrors.aim` makes up for these.
-/

namespace Scriptlet

variable {ρ ρ' ρ'' : Renumbering} {S : Set FrameId}

/-! ### Numbers that were given out -/

namespace Store

variable {st st' : Store} {i f : FrameId} {name : String} {v : Value}

def given (st : Store) : Set Handle
  | .frame i => i < st.frames.size
  | .closure n => n < st.closures

/-- What is bound has numbers that were given out. -/
def Numbered (st : Store) : Prop := ∀ i p, p ∈ st.bindings i → p.2.handles ⊆ st.given

theorem given_modify {change : Bindings → Bindings} : (st.modify f change).given = st.given := by
  ext h
  cases h with
  | frame i => exact iff_of_eq (congrArg (i < ·) size_modify)
  | closure n => exact Iff.rfl

theorem given_mono (hs : st.frames.size ≤ st'.frames.size) (hc : st.closures ≤ st'.closures) :
    st.given ⊆ st'.given := by
  intro h hh
  cases h with
  | frame i => exact Nat.lt_of_lt_of_le hh hs
  | closure n => exact Nat.lt_of_lt_of_le hh hc

theorem Numbered.declare (h : st.Numbered) (hv : v.handles ⊆ st.given) :
    (st.declare f name v).Numbered := by
  intro i p hp
  rw [Store.declare, given_modify]
  rcases mem_bindings_declare hp with ⟨-, rfl⟩ | hp
  · exact hv
  · exact h i p hp

theorem Numbered.read (h : st.Numbered) : (st.read f name).handles ⊆ st.given := by
  rcases st.read_eq f name with hr | ⟨i, -, hp⟩
  · rw [hr]; exact Set.empty_subset _
  · exact h i _ hp

end Store

theorem Access.numbered {may : FrameId → String → Prop} {k k' : Held} (h : Access may k k')
    (hn : k.store.Numbered) (hH : k.handles ⊆ k.store.given) :
    k'.store.Numbered ∧ k'.handles ⊆ k'.store.given ∧ k.store.given ⊆ k'.store.given := by
  cases h with
  | read name he => exact ⟨hn, Set.union_subset hH hn.read, subset_rfl⟩
  | write name he hv =>
    refine ⟨hn.declare (hv.trans hH), ?_⟩
    rw [Store.write, Store.declare, Store.given_modify]
    exact ⟨hH, subset_rfl⟩
  | declare he hv =>
    refine ⟨hn.declare (hv.trans hH), ?_⟩
    rw [Store.declare, Store.given_modify]
    exact ⟨hH, subset_rfl⟩
  | @delete st H env name he =>
    rcases st.delete_eq env name with hd | ⟨f, -, hd⟩ <;> rw [hd]
    · exact ⟨hn, hH, subset_rfl⟩
    · refine ⟨fun i p hp => ?_, ?_⟩
      · rw [Store.given_modify]
        rw [Store.bindings_modify] at hp
        split at hp
        · exact hn i p (Bindings.mem_erase hp)
        · exact hn i p hp
      · rw [Store.given_modify]
        exact ⟨hH, subset_rfl⟩
  | @newChild st H env he =>
    have hgrow : st.given ⊆ (st.newChild env).2.given :=
      Store.given_mono (by simp) (Nat.le_refl _)
    refine ⟨fun i p hp => ?_, Set.insert_subset st.newChild_lt (hH.trans hgrow), hgrow⟩
    rw [Store.bindings_newChild] at hp
    exact (hn i p hp).trans hgrow
  | @newClosure st H =>
    have hgrow : st.given ⊆ Store.given { st with closures := st.closures + 1 } :=
      Store.given_mono (Nat.le_refl _) (Nat.le_succ _)
    exact ⟨fun i p hp => (hn i p hp).trans hgrow,
      Set.insert_subset (Nat.lt_succ_self _) (hH.trans hgrow), hgrow⟩

theorem Accesses.numbered {may : FrameId → String → Prop} {k k' : Held} (h : Accesses may k k')
    (hn : k.store.Numbered) (hH : k.handles ⊆ k.store.given) :
    k'.store.Numbered ∧ k'.handles ⊆ k'.store.given ∧ k.store.given ⊆ k'.store.given := by
  induction h with
  | refl => exact ⟨hn, hH, subset_rfl⟩
  | tail _ hstep ih =>
    obtain ⟨hn', hH', hgrow⟩ := hstep.numbered ih.1 ih.2.1
    exact ⟨hn', hH', ih.2.2.trans hgrow⟩

theorem Run.Uses.numbered {α : Type} {r : Run α} {need : Set Handle} {home : FrameId} {X : Set String}
    {g : α → Set Handle} {st : Store} (hr : r.Uses need home X g) (hn : st.Numbered)
    (hneed : need ⊆ st.given) : (r.after st).Numbered ∧ st.given ⊆ (r.after st).given ∧
      ∀ a st', r st = .ok a st' → g a ⊆ st'.given := by
  obtain ⟨H, h, hg⟩ := hr st need subset_rfl
  obtain ⟨hn', hH, hgrow⟩ := h.numbered hn hneed
  refine ⟨hn', hgrow, fun a st' he => (hg a st' he).trans ?_⟩
  rwa [Run.after_of_ok he] at hH

/-! ### Renumberings that agree -/

namespace Renumbering

/-- All numbers stay. -/
def refl : Renumbering := ⟨id, id, strictMono_id, strictMono_id⟩

/-- The same numbers for what a store has given out. -/
def Agree (ρ ρ' : Renumbering) (st : Store) : Prop :=
  (∀ i < st.frames.size, ρ'.frame i = ρ.frame i) ∧ ∀ n < st.closures, ρ'.closure n = ρ.closure n

theorem Agree.trans {st : Store} (h : ρ.Agree ρ' st) (h' : ρ'.Agree ρ'' st) : ρ.Agree ρ'' st :=
  ⟨fun i hi => (h'.1 i hi).trans (h.1 i hi), fun n hn => (h'.2 n hn).trans (h.2 n hn)⟩

theorem Agree.mono {st st' : Store} (h : ρ.Agree ρ' st') (hst : st.given ⊆ st'.given) : ρ.Agree ρ' st :=
  ⟨fun i hi => h.1 i (@hst (.frame i) hi), fun n hn => h.2 n (@hst (.closure n) hn)⟩

theorem Agree.value {st : Store} (h : ρ.Agree ρ' st) {v : Value} (hv : v.handles ⊆ st.given) :
    v.renumber ρ' = v.renumber ρ := by
  cases v with
  | function f =>
    have henv : ρ'.frame f.env = ρ.frame f.env := h.1 _ (@hv (.frame f.env) (.inl rfl))
    have hid : ρ'.closure f.id = ρ.closure f.id := h.2 _ (@hv (.closure f.id) (.inr rfl))
    simp [Closure.renumber, henv, hid]
  | _ => rfl

/-- The numbers from `m` on in order from `k` on, the others as they were. -/
def aimed (f : Nat → Nat) (m k n : Nat) : Nat := if n < m then f n else k + (n - m)

theorem aimed_strictMono {f : Nat → Nat} (hf : StrictMono f) {m k : Nat} (h : f m ≤ k) :
    StrictMono (aimed f m k) := by
  intro i j hij
  unfold aimed
  split <;> split
  · exact hf hij
  next hi hj =>
    have := hf hi
    omega
  · omega
  · omega

end Renumbering

theorem Value.renumber_refl (v : Value) : v.renumber .refl = v := by cases v <;> rfl

theorem Frame.renumber_refl (f : Frame) : f.renumber .refl = f := by
  have hb : f.bindings.renumber .refl = f.bindings := by
    simp [Bindings.renumber, Value.renumber_refl]
  have ho : f.outer.map Renumbering.refl.frame = f.outer := by simp [Renumbering.refl]
  rw [renumber, hb, ho]

theorem Renumbering.Agree.frame_renumber {st : Store} (h : ρ.Agree ρ' st) (hst : st.WellFormed)
    (hn : st.Numbered) {i : FrameId} {f : Frame} (hf : st.frames[i]? = some f) :
    f.renumber ρ' = f.renumber ρ := by
  have hi : i < st.frames.size := (Array.getElem?_eq_some_iff.1 hf).1
  have hb : f.bindings.renumber ρ' = f.bindings.renumber ρ := by
    refine List.map_congr_left fun p hp => ?_
    rw [h.value (hn i p (by rwa [Store.bindings, hf]))]
  have ho : f.outer.map ρ'.frame = f.outer.map ρ.frame := by
    refine Option.map_congr fun o ho => h.1 o (Nat.lt_trans ?_ hi)
    exact hst.outer_lt i o (by rwa [Store.outer?, hf])
  rw [Frame.renumber, Frame.renumber, hb, ho]

namespace Store.Mirrors

variable {s t t' : Store}

theorem restrict {T : Set FrameId} (h : s.Mirrors ρ S t) (hT : T ⊆ S) (hc : s.Closed T)
    (hnew : ∀ i, s.frames.size ≤ i → i ∈ T) : s.Mirrors ρ T t :=
  ⟨fun i hi => h.getElem?_eq i (hT hi), hc, hnew, h.frame_eq, h.closure_eq⟩

/-- If other frames are added to the one store, the numbers that come next are aimed anew. -/
theorem aim (h : s.Mirrors ρ S t) (hs : s.WellFormed) (hn : s.Numbered) (hgrow : t.given ⊆ t'.given)
    (hkept : ∀ i ∈ S, i < s.frames.size → t'.frames[ρ.frame i]? = t.frames[ρ.frame i]?) :
    ∃ ρ', ρ.Agree ρ' s ∧ s.Mirrors ρ' S t' := by
  have hsize : ρ.frame s.frames.size ≤ t'.frames.size := by
    rw [h.size_eq]
    exact Nat.le_of_not_lt fun hlt => Nat.lt_irrefl _ (@hgrow (.frame t'.frames.size) hlt)
  have hclosures : ρ.closure s.closures ≤ t'.closures := by
    rw [h.closures_eq]
    exact Nat.le_of_not_lt fun hlt => Nat.lt_irrefl _ (@hgrow (.closure t'.closures) hlt)
  -- the numbers that `ρ` foresaw for what comes next are taken in `t'`; old ones must stay as they are
  let ρ' : Renumbering :=
    ⟨Renumbering.aimed ρ.frame s.frames.size t'.frames.size,
      Renumbering.aimed ρ.closure s.closures t'.closures,
      Renumbering.aimed_strictMono ρ.frame_strictMono hsize,
      Renumbering.aimed_strictMono ρ.closure_strictMono hclosures⟩
  have hagree : ρ.Agree ρ' s := ⟨fun i hi => if_pos hi, fun n hn => if_pos hn⟩
  have hframe : ∀ n, ρ'.frame (s.frames.size + n) = t'.frames.size + n := fun n => by
    simp [ρ', Renumbering.aimed]
  refine ⟨ρ', hagree, fun i hi => ?_, h.closed, h.mem_of_size_le, hframe, fun n => ?_⟩
  · by_cases hlt : i < s.frames.size
    · rw [hagree.1 i hlt, hkept i hi hlt, h.getElem?_eq i hi]
      exact Option.map_congr fun f hf => (hagree.frame_renumber hs hn hf).symm
    · obtain ⟨n, rfl⟩ := Nat.exists_eq_add_of_le (Nat.le_of_not_lt hlt)
      have hnone : ∀ st : Store, st.frames[st.frames.size + n]? = none := fun st =>
        Array.getElem?_eq_none (Nat.le_add_right _ _)
      rw [hframe, hnone, hnone]
      rfl
  · simp [ρ', Renumbering.aimed]

end Store.Mirrors

/-! ### Contexts -/

namespace Store

variable {st st' : Store} {i j b : FrameId} {C : Set FrameId}

theorem WellFormed.closed_existing (h : st.WellFormed) : st.Closed st.existing := by
  intro i hi j hl
  rcases hl with ho | ⟨x, f, hf, rfl⟩
  · exact Nat.lt_trans (h.outer_lt i j ho) hi
  · exact h.captured i x f hf

theorem Links.congr (h : st'.frames[i]? = st.frames[i]?) (hl : st'.Links i j) : st.Links i j := by
  rwa [Links, outer?, bindings, h] at hl

/-- The frames of contexts that share a store and lead to no common frame. -/
structure Apart (st : Store) (C : Set FrameId) : Prop where
  wellFormed : st.WellFormed
  numbered : st.Numbered
  subset_existing : C ⊆ st.existing
  disjoint : C.Pairwise fun a b => Disjoint (st.reachable a) (st.reachable b)

/-- The frames that a context leads to, and those that are still to come. -/
def territory (st : Store) (b : FrameId) : Set FrameId := st.reachable b ∪ {i | st.frames.size ≤ i}

theorem closed_territory (st : Store) (b : FrameId) : st.Closed (st.territory b) := by
  intro i hi j hl
  rcases hi with hi | hi
  · exact .inl (hi.tail hl)
  · exact absurd hl.lt (Nat.not_lt.2 hi)

theorem apart_empty : Store.empty.Apart ∅ := by
  refine ⟨.empty, fun i p hp => ?_, Set.empty_subset _, Set.pairwise_empty _⟩
  rw [bindings_of_size_le (Nat.zero_le i)] at hp
  cases hp

theorem reachable_newRoot : st.newRoot.2.reachable b = st.reachable b := by
  have hlinks : st.newRoot.2.Links = st.Links := by
    funext i j
    simp [Links]
  rw [reachable, reachable, Reaches, hlinks]

/-- A new context leads to no frame but its own. -/
theorem Apart.newRoot (h : st.Apart C) : st.newRoot.2.Apart (insert st.newRoot.1 C) := by
  have hnew : st.reachable st.newRoot.1 ⊆ {st.newRoot.1} := fun i hi =>
    Closed.reaches (fun j hj k hl => absurd hl.lt (Nat.not_lt.2 (Nat.le_of_eq hj.symm))) rfl hi
  have hold : ∀ a ∈ C, Disjoint (st.reachable a) (st.reachable st.newRoot.1) := fun a ha =>
    Set.disjoint_left.2 fun i hi hi' => by
      have hlt := h.wellFormed.closed_existing.reaches (h.subset_existing ha) hi
      exact Nat.lt_irrefl _ (Nat.lt_of_lt_of_eq hlt (hnew hi').symm)
  have hgrow : st.given ⊆ st.newRoot.2.given := given_mono (by simp) (Nat.le_refl _)
  refine ⟨h.wellFormed.newRoot, fun i p hp => ?_, ?_, ?_⟩
  · rw [bindings_newRoot] at hp
    exact (h.numbered i p hp).trans hgrow
  · exact Set.insert_subset st.newRoot_lt fun i hi => @hgrow (.frame i) (h.subset_existing hi)
  · simp only [reachable_newRoot]
    rintro a (rfl | ha) b (rfl | hb) hab
    · exact absurd rfl hab
    · exact (hold b hb).symm
    · exact hold a ha
    · exact h.disjoint ha hb hab

end Store

/-- A program that is evaluated in the frame of a context. -/
structure Turn where
  env : FrameId
  limit : Nat
  program : Program

namespace Turn

def run (u : Turn) : Run Value := Eval.program u.limit u.program u.env

def perform (u : Turn) (st : Store) : Session.Outcome × Session :=
  Session.perform ⟨st, u.env⟩ (Eval.program u.limit u.program)

theorem store_perform (u : Turn) (st : Store) : (u.perform st).2.store = u.run.after st := by
  unfold perform Session.perform Run.after run
  dsimp only
  split <;> simp_all

theorem run_uses (u : Turn) : u.run.Uses {.frame u.env} u.env Set.univ Value.handles :=
  Eval.program_uses u.limit u.program rfl fun _ _ x _ => Set.mem_univ x

end Turn

section

variable {st : Store} {C : Set FrameId} {u : Turn} (h : st.Apart C) (hu : u.env ∈ C)
include h hu

theorem Store.Apart.kept : st.Kept (u.run.after st) :=
  (u.run_uses.keeps h.wellFormed (by simpa using h.subset_existing hu)).1

/-- A turn leaves alone what other contexts lead to. -/
theorem Store.Apart.getElem?_eq {b i : FrameId} (hb : b ∈ C) (hne : b ≠ u.env) (hi : st.Reaches b i) :
    (u.run.after st).frames[i]? = st.frames[i]? := by
  refine (u.run_uses.footprint st).getElem?_eq i ?_ fun hi' => ?_
  · exact h.wellFormed.closed_existing.reaches (h.subset_existing hb) hi
  · exact Set.disjoint_left.1 (h.disjoint hb hu hne) hi hi'

theorem Store.Apart.reaches_after {b i : FrameId} (hb : b ∈ C) (hi : (u.run.after st).Reaches b i) :
    st.Reaches b i ∨ (b = u.env ∧ st.frames.size ≤ i) := by
  by_cases hne : b = u.env
  · subst hne
    exact ((u.run_uses.footprint st).reaches i hi).imp_right fun hi => ⟨rfl, Nat.le_of_not_lt hi.2⟩
  · have hclosed : (u.run.after st).Closed (st.reachable b) := fun i hi j hl =>
      hi.tail (hl.congr (h.getElem?_eq hu hb hne hi))
    exact .inl (hclosed.reaches .refl hi)

theorem Store.Apart.after : (u.run.after st).Apart C := by
  have hold : ∀ b ∈ C, ∀ i, st.Reaches b i → ¬ st.frames.size ≤ i := fun b hb i hi =>
    Nat.not_le.2 (h.wellFormed.closed_existing.reaches (h.subset_existing hb) hi)
  refine ⟨(h.kept hu).wellFormed, ?_, h.subset_existing.trans (h.kept hu).existing_subset, ?_⟩
  · exact (u.run_uses.numbered h.numbered (Set.singleton_subset_iff.2 (h.subset_existing hu))).1
  · intro a ha b hb hab
    refine Set.disjoint_left.2 fun i hi hi' => ?_
    rcases h.reaches_after hu ha hi with hai | ⟨hae, hai⟩ <;>
      rcases h.reaches_after hu hb hi' with hbi | ⟨hbe, hbi⟩
    · exact Set.disjoint_left.1 (h.disjoint ha hb hab) hai hbi
    · exact hold a ha i hai hbi
    · exact hold b hb i hbi hai
    · exact hab (hae.trans hbe.symm)

end

/-! ### Turns -/

/-- The same value under other numbers, or errors with the same message. -/
inductive Session.Outcome.Alike (ρ : Renumbering) : Session.Outcome → Session.Outcome → Prop where
  | value (v : Value) : Alike ρ (.value v) (.value (v.renumber ρ))
  | error {e e' : Error} : e'.message = e.message → Alike ρ (.error e) (.error e')
  | exhausted : Alike ρ .exhausted .exhausted

/-- The outcomes of the turns of one context, between the turns of others. -/
def outcomes (b : FrameId) : List Turn → Store → List Session.Outcome
  | [], _ => []
  | u :: us, st =>
    let (outcome, s) := u.perform st
    if u.env = b then outcome :: outcomes b us s.store else outcomes b us s.store

def storeAfter : List Turn → Store → Store
  | [], st => st
  | u :: us, st => storeAfter us (u.perform st).2.store

theorem Store.Apart.storeAfter {C : Set FrameId} {us : List Turn} {st : Store} (h : st.Apart C)
    (hC : ∀ u ∈ us, u.env ∈ C) : (storeAfter us st).Apart C := by
  induction us generalizing st with
  | nil => exact h
  | cons u us ih =>
    obtain ⟨hu, hus⟩ := List.forall_mem_cons.1 hC
    refine ih ?_ hus
    rw [u.store_perform]
    exact h.after hu

/-- The store `s` has what the context `b` leads to in `t`, where there are other contexts. -/
structure Store.Alone (ρ : Renumbering) (C : Set FrameId) (b : FrameId) (s t : Store) : Prop where
  wellFormed : s.WellFormed
  numbered : s.Numbered
  lt_size : b < s.frames.size
  mem : b ∈ C
  frame_eq : ρ.frame b = b
  apart : t.Apart C
  mirrors : s.Mirrors ρ (s.territory b) t

theorem EndAlike.mirrors {α β : Type} {P : α → β → Prop} {r : Run α} {r' : Run β} {s t : Store}
    (h : EndAlike ρ S P (r s) (r' t)) : (r.after s).Mirrors ρ S (r'.after t) := by
  unfold Run.after
  cases hs : r s <;> cases ht : r' t <;> rw [hs, ht] at h <;> cases h <;> assumption

theorem EndAlike.outcome {run : FrameId → Run Value} {env : FrameId} {s t : Store}
    (h : EndAlike ρ S (Value.Mirrors ρ S) (run env s) (run env t))
    (hv : ∀ v s', run env s = .ok v s' → v.renumber ρ' = v.renumber ρ) :
    Session.Outcome.Alike ρ' (Session.perform ⟨s, env⟩ run).1 (Session.perform ⟨t, env⟩ run).1 := by
  unfold Session.perform
  cases hs : run env s <;> cases ht : run env t <;> rw [hs, ht] at h <;> cases h
  case ok.ok v s' w t' hw _ =>
    rw [hw.1, ← hv v s' hs]
    exact .value v
  case error.error e s' e' t' he _ =>
    cases e with
    | failed e =>
      cases e' with
      | failed e' => exact .error (Option.some.inj he)
      | exhausted => cases he
    | exhausted =>
      cases e' with
      | failed e' => cases he
      | exhausted => exact .exhausted

namespace Store.Alone

variable {C : Set FrameId} {b : FrameId} {s t : Store} {u : Turn} (h : s.Alone ρ C b t)
include h

/-- A turn of the context itself goes alike. -/
theorem own (hu : u.env = b) : (u.run.after s).Alone ρ C b (u.run.after t) ∧
    s.given ⊆ (u.run.after s).given ∧
    ∀ ρ', ρ.Agree ρ' (u.run.after s) → Session.Outcome.Alike ρ' (u.perform s).1 (u.perform t).1 := by
  subst hu
  have hneed : {Handle.frame u.env} ⊆ s.given := Set.singleton_subset_iff.2 h.lt_size
  have hkept := (u.run_uses.keeps h.wellFormed (by simpa using h.lt_size)).1
  obtain ⟨hnumbered, hgrow, hresult⟩ := u.run_uses.numbered h.numbered hneed
  have hend : EndAlike ρ (s.territory u.env) (Value.Mirrors ρ (s.territory u.env)) (u.run s) (u.run t) := by
    have hstep := @Eval.program_inStep ρ (s.territory u.env) u.limit u.program u.env (.inl .refl)
    rw [h.frame_eq] at hstep
    exact hstep s t h.mirrors
  refine ⟨⟨hkept.wellFormed, hnumbered, Nat.lt_of_lt_of_le h.lt_size hkept.size_le, h.mem, h.frame_eq,
    h.apart.after h.mem, ?_⟩, hgrow, fun ρ' hρ' => ?_⟩
  · -- the context leads to fewer frames than the run was followed on: it may have dropped some
    refine hend.mirrors.restrict ?_ (closed_territory _ _) fun i hi => .inr hi
    rintro i (hi | hi)
    · exact hend.mirrors.closed.reaches (.inl .refl) hi
    · exact hend.mirrors.mem_of_size_le i hi
  · refine EndAlike.outcome hend fun v s' he => hρ'.value ?_
    have hafter : u.run.after s = s' := Run.after_of_ok he
    rw [hafter]
    exact hresult v s' he

/-- A turn of another context changes what comes next only. -/
theorem other (hu : u.env ∈ C) (hne : u.env ≠ b) :
    ∃ ρ', ρ.Agree ρ' s ∧ s.Alone ρ' C b (u.run.after t) := by
  obtain ⟨-, hgrow, -⟩ := u.run_uses.numbered h.apart.numbered
    (Set.singleton_subset_iff.2 (h.apart.subset_existing hu))
  obtain ⟨ρ', hagree, hmirrors⟩ := h.mirrors.aim h.wellFormed h.numbered hgrow fun i hi hlt => by
    have hreach : s.Reaches b i := hi.resolve_right (Nat.not_le.2 hlt)
    have hreach' : t.Reaches b (ρ.frame i) := by
      have := h.mirrors.reaches (.inl .refl) hreach
      rwa [h.frame_eq] at this
    exact h.apart.getElem?_eq hu h.mem hne.symm hreach'
  exact ⟨ρ', hagree, h.wellFormed, h.numbered, h.lt_size, h.mem,
    (hagree.1 b h.lt_size).trans h.frame_eq, h.apart.after hu, hmirrors⟩

end Store.Alone

theorem outcomes_alike {C : Set FrameId} {b : FrameId} {us : List Turn} {s t : Store}
    (h : s.Alone ρ C b t) (hC : ∀ u ∈ us, u.env ∈ C) : ∃ ρ', ρ.Agree ρ' s ∧
      List.Forall₂ (Session.Outcome.Alike ρ') (outcomes b (us.filter (·.env = b)) s) (outcomes b us t) := by
  induction us generalizing ρ s t with
  | nil => exact ⟨ρ, ⟨fun _ _ => rfl, fun _ _ => rfl⟩, .nil⟩
  | cons u us ih =>
    obtain ⟨hu, hus⟩ := List.forall_mem_cons.1 hC
    by_cases hb : u.env = b
    · obtain ⟨hnext, hgrow, hend⟩ := h.own hb
      obtain ⟨ρ', hagree, hrest⟩ := ih hnext hus
      -- the value of this turn has old numbers for all turns to come, so `ρ'` gives it the same ones
      refine ⟨ρ', hagree.mono hgrow, ?_⟩
      rw [List.filter_cons_of_pos (by simpa using hb)]
      simp only [outcomes, if_pos hb, u.store_perform]
      exact .cons (hend ρ' hagree) hrest
    · obtain ⟨ρ₁, hagree₁, hnext⟩ := h.other hu hb
      obtain ⟨ρ', hagree, hrest⟩ := ih hnext hus
      refine ⟨ρ', hagree₁.trans hagree, ?_⟩
      rw [List.filter_cons_of_neg (by simpa using hb)]
      simp only [outcomes, if_neg hb, u.store_perform]
      exact hrest

theorem Store.Apart.alone {C : Set FrameId} {b : FrameId} {st : Store} (h : st.Apart C) (hb : b ∈ C) :
    st.Alone .refl C b st := by
  refine ⟨h.wellFormed, h.numbered, h.subset_existing hb, hb, rfl, h, ?_⟩
  refine ⟨fun i _ => ?_, closed_territory st b, fun i hi => .inr hi, fun _ => rfl, fun _ => rfl⟩
  show st.frames[i]? = _
  cases st.frames[i]? with
  | none => rfl
  | some f => exact congrArg some f.renumber_refl.symm

/-- A run changes and leads to only what its frame led to, and what is new. Contexts that lead to no common
frame never will, and the turns of each end as if there were no others, up to the numbers of frames and
functions; the numbers of old ones are the same. Contexts are made so. -/
theorem evaluation_isolated :
    (∀ (st : Store) (env : FrameId) limit node,
      (Eval.exec limit node env).Footprint st env Completion.frames) ∧
    (∀ (st : Store) (C : Set FrameId), st.Apart C → ∀ us : List Turn, (∀ u ∈ us, u.env ∈ C) →
      (storeAfter us st).Apart C ∧
      ∀ b ∈ C, ∃ ρ, Renumbering.refl.Agree ρ st ∧
        List.Forall₂ (Session.Outcome.Alike ρ) (outcomes b (us.filter (·.env = b)) st) (outcomes b us st)) ∧
    Store.empty.Apart ∅ ∧
    ∀ (st : Store) (C : Set FrameId), st.Apart C → st.newRoot.2.Apart (insert st.newRoot.1 C) := by
  refine ⟨fun st env limit node => ?_, fun st C h us hC => ⟨h.storeAfter hC, fun b hb => ?_⟩,
    Store.apart_empty, fun st C h => h.newRoot⟩
  · exact (Eval.exec_uses limit node env {.frame env} Set.univ rfl fun x _ => Set.mem_univ x).footprint st
  · exact outcomes_alike (h.alone hb) hC

/-- Two contexts: what one binds, the other does not see. -/
theorem evaluation_isolated_two :
    let st := Store.empty.newRoot.2.newRoot.2
    let us : List Turn := [⟨0, 9, [.assign .plain (.identifier "x") .null]⟩, ⟨1, 9, [.identifier "x"]⟩]
    st.Apart {1, 0} ∧ (storeAfter us st).Apart {1, 0} ∧ (storeAfter us st).owns "x" 0 = true ∧
      outcomes 1 us st = [.value .undefined] ∧
      ∃ ρ, Renumbering.refl.Agree ρ st ∧
        List.Forall₂ (Session.Outcome.Alike ρ) (outcomes 1 (us.filter (·.env = 1)) st)
          (outcomes 1 us st) := by
  intro st us
  have hapart : st.Apart {1, 0} := by
    have h := Store.apart_empty.newRoot.newRoot
    rwa [insert_empty_eq] at h
  have hus : ∀ u ∈ us, u.env ∈ ({1, 0} : Set FrameId) := by decide
  obtain ⟨hafter, houtcomes⟩ := evaluation_isolated.2.1 st {1, 0} hapart us hus
  exact ⟨hapart, hafter, by cbv, by cbv, houtcomes 1 (.inl rfl)⟩

end Scriptlet
