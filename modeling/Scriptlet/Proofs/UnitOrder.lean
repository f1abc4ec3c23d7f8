import Mathlib
import Scriptlet.Value.Operation

/-!
# The order of texts

Texts are ordered by the first unit in which their UTF-16 forms differ, and a proper beginning comes first
(`compareText_lt_iff`). The units of a character do not begin those of another one, so two texts are decided
within the first characters in which they differ: by `unitRank`, which puts the characters behind the surrogates
of the basic plane after all others. This is the order of the code points unless one of the two characters is
such a one and the other one lies beyond the basic plane (`Crossed`).
-/

namespace Scriptlet.Text

variable {α : Type} {as bs : List α} {a b : α} {us vs : List Nat} {c d : Char} {x y z : String}

/-! ### The first difference -/

/-- The lists differ, and the first place where they do has `a` in the one and `b` in the other. -/
def FirstDiffer (as bs : List α) (a b : α) : Prop := a ≠ b ∧ ∃ p s t, as = p ++ a :: s ∧ bs = p ++ b :: t

theorem FirstDiffer.symm (h : FirstDiffer as bs a b) : FirstDiffer bs as b a := by
  obtain ⟨hne, p, s, t, ha, hb⟩ := h
  exact ⟨hne.symm, p, t, s, hb, ha⟩

theorem FirstDiffer.cons (e : α) (h : FirstDiffer as bs a b) : FirstDiffer (e :: as) (e :: bs) a b := by
  obtain ⟨hne, p, s, t, ha, hb⟩ := h
  exact ⟨hne, e :: p, s, t, by rw [ha]; rfl, by rw [hb]; rfl⟩

theorem FirstDiffer.map {β : Type} (f : α → β) (hf : Function.Injective f) (h : FirstDiffer as bs a b) :
    FirstDiffer (as.map f) (bs.map f) (f a) (f b) := by
  obtain ⟨hne, p, s, t, rfl, rfl⟩ := h
  exact ⟨hf.ne hne, p.map f, s.map f, t.map f, List.map_append, List.map_append⟩

/-- Two lists are equal, one goes on behind the other, or they differ somewhere. -/
theorem eq_or_extends_or_firstDiffer (as bs : List α) :
    as = bs ∨ (∃ b t, bs = as ++ b :: t) ∨ (∃ a s, as = bs ++ a :: s) ∨ ∃ a b, FirstDiffer as bs a b := by
  induction as generalizing bs with
  | nil =>
    cases bs with
    | nil => exact .inl rfl
    | cons b bs => exact .inr (.inl ⟨b, bs, rfl⟩)
  | cons a as ih =>
    cases bs with
    | nil => exact .inr (.inr (.inl ⟨a, as, rfl⟩))
    | cons b bs =>
      by_cases hab : a = b
      · subst hab
        rcases ih bs with rfl | ⟨b, t, rfl⟩ | ⟨a', s, rfl⟩ | ⟨a', b, h⟩
        · exact .inl rfl
        · exact .inr (.inl ⟨b, t, rfl⟩)
        · exact .inr (.inr (.inl ⟨a', s, rfl⟩))
        · exact .inr (.inr (.inr ⟨a', b, h.cons a⟩))
      · exact .inr (.inr (.inr ⟨a, b, hab, [], as, bs, rfl, rfl⟩))

/-! ### Sequences of units -/

/-- Unit sequences are ordered as lists of numbers are. -/
theorem compareUnits_eq_compare (us vs : List Nat) : compareUnits us vs = compare us vs := by
  rw [List.compare_eq_compareLex]
  induction us generalizing vs with
  | nil => cases vs <;> rfl
  | cons u us ih =>
    cases vs with
    | nil => rfl
    | cons v vs =>
      rw [compareUnits, List.compareLex_cons_cons, ih]
      rcases lt_trichotomy u v with h | rfl | h
      · rw [if_pos h, Nat.compare_eq_lt.2 h]
        rfl
      · simp
      · rw [if_neg h.not_gt, if_pos h, Nat.compare_eq_gt.2 h]
        rfl

theorem compareUnits_swap (us vs : List Nat) : compareUnits us vs = (compareUnits vs us).swap := by
  rw [compareUnits_eq_compare, compareUnits_eq_compare]
  exact Std.OrientedOrd.eq_swap

theorem compareUnits_append (p us vs : List Nat) : compareUnits (p ++ us) (p ++ vs) = compareUnits us vs := by
  induction p with
  | nil => rfl
  | cons u p ih => simpa [compareUnits] using ih

theorem compareUnits_of_extends (us : List Nat) (v : Nat) (vs : List Nat) :
    compareUnits us (us ++ v :: vs) = .lt := by
  have h := compareUnits_append us [] (v :: vs)
  rwa [List.append_nil] at h

theorem compareUnits_of_firstDiffer {u v : Nat} (h : FirstDiffer us vs u v) :
    compareUnits us vs = compare u v := by
  obtain ⟨hne, p, s, t, rfl, rfl⟩ := h
  rw [compareUnits_append, compareUnits]
  rcases lt_or_gt_of_ne hne with h | h
  · rw [if_pos h, Nat.compare_eq_lt.2 h]
  · rw [if_neg h.not_gt, if_pos h, Nat.compare_eq_gt.2 h]

/-- A sequence comes before another one if the other one goes on behind it, or has the greater unit where they
first differ. -/
theorem compareUnits_lt_iff : compareUnits us vs = .lt ↔
    (∃ v t, vs = us ++ v :: t) ∨ ∃ u v, FirstDiffer us vs u v ∧ u < v := by
  constructor
  · intro h
    rcases eq_or_extends_or_firstDiffer us vs with rfl | hext | ⟨u, s, rfl⟩ | ⟨u, v, hd⟩
    · rw [compareUnits_eq_compare, Std.ReflOrd.compare_self] at h
      cases h
    · exact .inl hext
    · rw [compareUnits_swap, compareUnits_of_extends] at h
      cases h
    · rw [compareUnits_of_firstDiffer hd] at h
      exact .inr ⟨u, v, hd, Nat.compare_eq_lt.1 h⟩
  · rintro (⟨v, t, rfl⟩ | ⟨u, v, hd, hlt⟩)
    · exact compareUnits_of_extends us v t
    · rw [compareUnits_of_firstDiffer hd]
      exact Nat.compare_eq_lt.2 hlt

/-! ### Characters -/

/-- The place of a character in the order of units: the characters of the basic plane behind the surrogates come
after all others. -/
def unitRank (c : Char) : Nat :=
  if 0xe000 ≤ c.toNat ∧ c.toNat < 0x10000 then c.toNat + 0x110000 else c.toNat

theorem charUnits_ne_nil (c : Char) : charUnits c ≠ [] := by
  simp only [charUnits]
  split <;> exact List.cons_ne_nil _ _

/-- Different characters are told apart by their units, whatever follows them. -/
theorem compareUnits_charUnits (h : unitRank c < unitRank d) (s t : List Nat) :
    compareUnits (charUnits c ++ s) (charUnits d ++ t) = .lt := by
  have hc : c.toNat < 0xd800 ∨ 0xdfff < c.toNat ∧ c.toNat < 0x110000 := c.valid
  have hd : d.toNat < 0xd800 ∨ 0xdfff < d.toNat ∧ d.toNat < 0x110000 := d.valid
  unfold unitRank at h
  unfold charUnits
  by_cases hc' : c.toNat < 0x10000 <;> by_cases hd' : d.toNat < 0x10000
  · have hlt : c.toNat < d.toNat := by
      split_ifs at h <;> omega
    simp [hc', hd', compareUnits, hlt]
  · -- the first half of a pair lies between the two parts of the basic plane
    have hlt : c.toNat < 0xd800 + (d.toNat - 0x10000) / 0x400 := by
      split_ifs at h <;> omega
    simp [hc', hd', compareUnits, hlt]
  · have hlt : 0xd800 + (c.toNat - 0x10000) / 0x400 < d.toNat := by
      split_ifs at h <;> omega
    simp [hc', hd', compareUnits, hlt]
  · have hlt : c.toNat < d.toNat := by
      split_ifs at h <;> omega
    have hfirst : 0xd800 + (c.toNat - 0x10000) / 0x400 ≤ 0xd800 + (d.toNat - 0x10000) / 0x400 := by omega
    rcases hfirst.lt_or_eq with hfirst | hfirst
    · simp only [if_neg hc', if_neg hd', List.cons_append, compareUnits, if_pos hfirst]
    · have hsecond : 0xdc00 + (c.toNat - 0x10000) % 0x400 < 0xdc00 + (d.toNat - 0x10000) % 0x400 := by omega
      simp only [if_neg hc', if_neg hd', List.cons_append, compareUnits, hfirst, lt_irrefl, if_false,
        if_pos hsecond]

theorem unitRank_injective (h : unitRank c = unitRank d) : c = d := by
  have hc : c.toNat < 0xd800 ∨ 0xdfff < c.toNat ∧ c.toNat < 0x110000 := c.valid
  have hd : d.toNat < 0xd800 ∨ 0xdfff < d.toNat ∧ d.toNat < 0x110000 := d.valid
  refine Char.toNat_inj.1 ?_
  unfold unitRank at h
  split_ifs at h <;> omega

/-! ### Texts -/

theorem units_append (cs ds : List Char) : units (cs ++ ds) = units cs ++ units ds := List.flatMap_append

theorem compareText_swap (x y : String) : compareText x y = (compareText y x).swap := compareUnits_swap _ _

theorem compareText_of_extends {t : List Char} (h : y.toList = x.toList ++ d :: t) : compareText x y = .lt := by
  obtain ⟨u, us, hu⟩ := List.exists_cons_of_ne_nil (charUnits_ne_nil d)
  have hunits : units (d :: t) = u :: (us ++ units t) := by
    rw [units, List.flatMap_cons, hu]
    rfl
  rw [compareText, h, units_append, hunits]
  exact compareUnits_of_extends _ _ _

theorem compareText_of_firstDiffer (h : FirstDiffer x.toList y.toList c d) :
    compareText x y = compare (unitRank c) (unitRank d) := by
  obtain ⟨hne, p, s, t, hx, hy⟩ := h
  rw [compareText, hx, hy, units_append, units_append, compareUnits_append]
  show compareUnits (charUnits c ++ units s) (charUnits d ++ units t) = _
  rcases lt_trichotomy (unitRank c) (unitRank d) with hlt | heq | hgt
  · rw [compareUnits_charUnits hlt, Nat.compare_eq_lt.2 hlt]
  · exact absurd (unitRank_injective heq) hne
  · rw [compareUnits_swap, compareUnits_charUnits hgt, Nat.compare_eq_gt.2 hgt]
    rfl

theorem compareText_eq_iff : compareText x y = .eq ↔ x = y := by
  constructor
  · intro h
    rcases eq_or_extends_or_firstDiffer x.toList y.toList with heq | ⟨d, t, hy⟩ | ⟨c, s, hx⟩ | ⟨c, d, hd⟩
    · exact String.toList_injective heq
    · rw [compareText_of_extends hy] at h
      cases h
    · rw [compareText_swap, compareText_of_extends hx] at h
      cases h
    · rw [compareText_of_firstDiffer hd, Nat.compare_eq_eq] at h
      exact absurd (unitRank_injective h) hd.1
  · rintro rfl
    rw [compareText, compareUnits_eq_compare, Std.ReflOrd.compare_self]

theorem compareText_trans {o : Ordering} (h₁ : compareText x y = o) (h₂ : compareText y z = o) :
    compareText x z = o := by
  unfold compareText at h₁ h₂ ⊢
  rw [compareUnits_eq_compare] at h₁ h₂ ⊢
  cases o with
  | lt => exact Std.TransCmp.lt_trans h₁ h₂
  | eq => exact Std.TransCmp.eq_trans h₁ h₂
  | gt => exact Std.TransCmp.gt_trans h₁ h₂

/-! ### Code points -/

/-- The code points of a text. -/
def codePoints (x : String) : List Nat := x.toList.map Char.toNat

/-- The first character lies beyond the basic plane, and the second one in it, behind the surrogates. -/
def Crosses (c d : Char) : Prop := 0x10000 ≤ c.toNat ∧ 0xe000 ≤ d.toNat ∧ d.toNat < 0x10000

/-- Of the first characters in which the texts differ, one lies beyond the basic plane, and the other one in it,
behind the surrogates. -/
def Crossed (x y : String) : Prop :=
  ∃ c d, FirstDiffer x.toList y.toList c d ∧ (Crosses c d ∨ Crosses d c)

theorem compare_unitRank (h : ¬ (Crosses c d ∨ Crosses d c)) :
    compare (unitRank c) (unitRank d) = compare c.toNat d.toNat := by
  unfold Crosses at h
  have hlt : unitRank c < unitRank d ↔ c.toNat < d.toNat := by
    unfold unitRank
    split_ifs <;> omega
  have hgt : unitRank d < unitRank c ↔ d.toNat < c.toNat := by
    unfold unitRank
    split_ifs <;> omega
  rcases lt_trichotomy c.toNat d.toNat with h | h | h
  · rw [Nat.compare_eq_lt.2 h, Nat.compare_eq_lt.2 (hlt.2 h)]
  · rw [Char.toNat_inj.1 h]
    simp
  · rw [Nat.compare_eq_gt.2 h, Nat.compare_eq_gt.2 (hgt.2 h)]

theorem compare_unitRank_of_crosses (h : Crosses c d) :
    compare (unitRank c) (unitRank d) = .lt ∧ compare c.toNat d.toNat = .gt := by
  unfold Crosses at h
  have hc : c.toNat < 0xd800 ∨ 0xdfff < c.toNat ∧ c.toNat < 0x110000 := c.valid
  have hlt : unitRank c < unitRank d := by
    unfold unitRank
    split_ifs <;> omega
  exact ⟨Nat.compare_eq_lt.2 hlt, Nat.compare_eq_gt.2 (by omega)⟩

theorem compare_of_firstDiffer (h : FirstDiffer x.toList y.toList c d) :
    compare (codePoints x) (codePoints y) = compare c.toNat d.toNat := by
  rw [← compareUnits_eq_compare]
  exact compareUnits_of_firstDiffer (h.map Char.toNat fun _ _ => Char.toNat_inj.1)

theorem compare_of_extends {t : List Char} (h : y.toList = x.toList ++ d :: t) :
    compare (codePoints x) (codePoints y) = .lt := by
  rw [← compareUnits_eq_compare, codePoints, codePoints, h, List.map_append]
  exact compareUnits_of_extends _ _ _

theorem compareText_of_not_crossed (h : ¬ Crossed x y) : compareText x y = compare (codePoints x) (codePoints y) := by
  rcases eq_or_extends_or_firstDiffer x.toList y.toList with heq | ⟨d, t, hy⟩ | ⟨c, s, hx⟩ | ⟨c, d, hd⟩
  · rw [String.toList_injective heq, compareText_eq_iff.2 rfl, Std.ReflOrd.compare_self]
  · rw [compareText_of_extends hy, compare_of_extends hy]
  · rw [compareText_swap, compareText_of_extends hx, Std.OrientedOrd.eq_swap, compare_of_extends hx]
  · rw [compareText_of_firstDiffer hd, compare_of_firstDiffer hd]
    exact compare_unitRank fun hc => h ⟨c, d, hd, hc⟩

theorem compareText_of_crossed (h : Crossed x y) : compareText x y = (compare (codePoints x) (codePoints y)).swap := by
  obtain ⟨c, d, hd, hc | hc⟩ := h
  · obtain ⟨hlt, hgt⟩ := compare_unitRank_of_crosses hc
    rw [compareText_of_firstDiffer hd, compare_of_firstDiffer hd, hlt, hgt]
    rfl
  · obtain ⟨hlt, hgt⟩ := compare_unitRank_of_crosses hc
    rw [compareText_swap, compareText_of_firstDiffer hd.symm, hlt, Std.OrientedOrd.eq_swap,
      compare_of_firstDiffer hd.symm, hgt]
    rfl

end Scriptlet.Text

namespace Scriptlet

open Text

/-- Texts are always ordered, equal only to themselves, and totally: by the first unit of their UTF-16 forms that
differs, which is the order of their code points or, if the first characters that differ cross, its reverse. -/
theorem strings_totally_ordered (x y z : String) :
    (∃ o, (Value.string x).compare? (.string y) = some o ∧
      (Value.string y).compare? (.string x) = some o.swap) ∧
    ((Value.string x).compare? (.string y) = some .eq ↔ (Value.string x).same (.string y) = true) ∧
    (∀ o, (Value.string x).compare? (.string y) = some o → (Value.string y).compare? (.string z) = some o →
      (Value.string x).compare? (.string z) = some o) ∧
    ((Value.string x).compare? (.string y) = some .lt ↔
      (∃ u t, units y.toList = units x.toList ++ u :: t) ∨
      ∃ u v, FirstDiffer (units x.toList) (units y.toList) u v ∧ u < v) ∧
    (¬ Crossed x y → (Value.string x).compare? (.string y) = some (compare (codePoints x) (codePoints y))) ∧
    (Crossed x y → (Value.string x).compare? (.string y) = some (compare (codePoints x) (codePoints y)).swap) := by
  have hcompare : ∀ s t : String, (Value.string s).compare? (.string t) = some (compareText s t) := fun _ _ => rfl
  simp only [hcompare, Option.some.injEq]
  refine ⟨⟨_, rfl, compareText_swap y x⟩, ?_, fun o => compareText_trans, compareUnits_lt_iff,
    compareText_of_not_crossed, compareText_of_crossed⟩
  rw [compareText_eq_iff, Value.same, beq_iff_eq]

/-- The pair of a character beyond the basic plane comes before the last characters of that plane. -/
theorem strings_totally_ordered_pair :
    Crossed "a😀" "a\uffff" ∧ ¬ Crossed "a\uffff" "b" ∧
    (Value.string "a😀").compare? (.string "a\uffff") = some .lt ∧
    (Value.string "a\uffff").compare? (.string "b") = some .lt ∧
    (Value.string "a😀").compare? (.string "b") = some .lt := by
  have hcrossed : Crossed "a😀" "a\uffff" :=
    ⟨'😀', '\uffff', ⟨by decide, ['a'], [], [], rfl, rfl⟩, .inl (by unfold Crosses; decide)⟩
  have hstraight : ¬ Crossed "a\uffff" "b" := by
    rintro ⟨c, d, ⟨hne, p, s, t, hx, hy⟩, h⟩
    have hx : ['a', '\uffff'] = p ++ c :: s := hx
    have hy : ['b'] = p ++ d :: t := hy
    rcases List.singleton_eq_append_iff.1 hy with ⟨rfl, hd⟩ | ⟨-, hd⟩
    · cases hd
      cases hx
      unfold Crosses at h
      revert h
      decide
    · cases hd
  have h₁ := (strings_totally_ordered "a😀" "a\uffff" "b").2.2.2.2.2 hcrossed
  have h₂ := (strings_totally_ordered "a\uffff" "b" "b").2.2.2.2.1 hstraight
  refine ⟨hcrossed, hstraight, h₁, h₂, ?_⟩
  exact (strings_totally_ordered "a😀" "a\uffff" "b").2.2.1 .lt h₁ h₂

end Scriptlet
