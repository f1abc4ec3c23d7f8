import Scriptlet.Proofs.NumberText

/-!
# The longest match

A token of fixed spelling is the longest one that the text starts with. `Longest L r m` says that `m` is the
longest prefix of `r` in the language `L`: a punctuator is the longest of all spellings, a word or a name is the
longest run of name characters, and a run that spells a word is that word. What can follow a token without
changing it is what does not extend it, `Kind.ExtendedBy`.
-/

namespace Scriptlet

open Text Token
open scoped Computability

variable {source r rest : List Char} {i n : Nat} {mode : Mode} {k : Kind} {p : Char → Bool}

/-- The longest prefix of a text in a language. -/
structure Longest (L : Language Char) (r m : List Char) : Prop where
  mem : m ∈ L
  isPrefix : m <+: r
  le : ∀ m' ∈ L, m' <+: r → m'.length ≤ m.length

theorem Longest.unique {L : Language Char} {m m' : List Char} (h : Longest L r m) (h' : Longest L r m') : m = m' := by
  have hle := h.le m' h'.mem h'.isPrefix
  have hle' := h'.le m h.mem h.isPrefix
  exact (List.prefix_of_prefix_length_le h.isPrefix h'.isPrefix hle').eq_of_length (le_antisymm hle' hle)

/-! ### Classes of characters -/

/-- The texts of one character of a class. -/
def oneOf (p : Char → Bool) : Language Char := {t | ∃ c, p c = true ∧ t = [c]}

@[simp] theorem mem_oneOf {t : List Char} : t ∈ oneOf p ↔ ∃ c, p c = true ∧ t = [c] := Iff.rfl

@[simp] theorem mem_kstar_oneOf {t : List Char} : t ∈ (oneOf p)∗ ↔ ∀ c ∈ t, p c = true := by
  rw [Language.mem_kstar]
  constructor
  · rintro ⟨parts, rfl, hparts⟩ c hc
    obtain ⟨part, hpart, hc⟩ := List.mem_flatten.1 hc
    obtain ⟨d, hd, rfl⟩ := hparts part hpart
    rwa [List.mem_singleton.1 hc]
  · intro h
    refine ⟨t.map ([·]), ?_, fun part hpart => ?_⟩
    · rw [← List.flatMap_def, List.flatMap_singleton']
    · obtain ⟨c, hc, rfl⟩ := List.mem_map.1 hpart
      exact ⟨c, h c hc, rfl⟩

/-- A run of a class ends where the first character stands that is not in it. -/
theorem takeWhile_append_stop {w t : List Char} (hw : ∀ c ∈ w, p c = true) (ht : ∀ c ∈ t.head?, p c = false) :
    (w ++ t).takeWhile p = w := by
  rw [List.takeWhile_append_of_pos hw]
  cases t with
  | nil => exact List.append_nil w
  | cons c t => rw [List.takeWhile_cons_of_neg (by simp [ht c rfl]), List.append_nil]

theorem length_le_takeWhile {m : List Char} (hm : ∀ c ∈ m, p c = true) (h : m <+: r) :
    m.length ≤ (r.takeWhile p).length := by
  obtain ⟨t, rfl⟩ := h
  rw [List.takeWhile_append_of_pos hm, List.length_append]
  omega

theorem longest_takeWhile (p : Char → Bool) (r : List Char) : Longest (oneOf p)∗ r (r.takeWhile p) where
  mem := mem_kstar_oneOf.2 fun _ hc => List.mem_takeWhile_imp hc
  isPrefix := List.takeWhile_prefix p
  le _ hm h := length_le_takeWhile (mem_kstar_oneOf.1 hm) h

/-! ### Scans at the place itself -/

/-- Where no blank stands, a scan gives what the lexical rule gives. -/
theorem next?_of_rule? (hi : StandsAt source i r) (hr : ∀ c ∈ r.head?, isBlank c = false)
    (h : rule? mode r = some (k, n)) : next? source i mode =
      some (.ok (⟨k, i, i + byteLength (r.take n)⟩, i + byteLength (r.take n))) := by
  have hlen := hi.add_byteLength
  have happ : byteLength (r.take n) + byteLength (r.drop n) = byteLength r := by
    rw [← byteLength_append, List.take_append_drop]
  cases r with
  | nil => cases h
  | cons c r =>
    have hc := hr c rfl
    have hscan : scan mode (c :: r) = .lexeme [] ⟨k, (c :: r).take n, (c :: r).drop n⟩ := by simp [scan, hc, h]
    rw [next?_standsAt hi]
    simp only [scanAt, hscan, byteLength_nil, Nat.add_zero, Except.map]
    rw [show byteLength source - byteLength ((c :: r).drop n) = i + byteLength ((c :: r).take n) by omega]

theorem next?_of_rule?_none (hi : StandsAt source i r) (hne : r ≠ []) (hr : ∀ c ∈ r.head?, isBlank c = false)
    (h : rule? mode r = none) : next? source i mode = some (.error i) := by
  cases r with
  | nil => exact absurd rfl hne
  | cons c r =>
    have hscan : scan mode (c :: r) = .invalid [] := by simp [scan, hr c rfl, h]
    rw [next?_standsAt hi]
    simp [scanAt, hscan, Except.map]

/-! ### Punctuators -/

namespace Token

/-- The spellings of all punctuators. -/
def punctuators : Language Char := {t | ∃ p : Punct, p.spelling.toList = t}

namespace Punct

/-- Each character of a punctuator is one. -/
theorem exists_spelling_singleton {p : Punct} {c : Char} (hc : c ∈ p.spelling.toList) :
    ∃ q : Punct, q.spelling.toList = [c] := by
  have hall : (p.spelling.toList.all fun c => all.any fun q => q.spelling.toList == [c]) = true := by
    cases p <;> decide
  obtain ⟨q, -, hq⟩ := List.any_eq_true.1 (List.all_eq_true.1 hall c hc)
  exact ⟨q, beq_iff_eq.1 hq⟩

/-- What a character of a punctuator is not: no other rule takes it where an operator is expected. -/
theorem not_other {p : Punct} {c : Char} (hc : c ∈ p.spelling.toList) :
    isBlank c = false ∧ c.isDigit = false ∧ isNamePart c = false ∧ c ≠ '"' ∧ c ≠ '\'' := by
  have hall : (p.spelling.toList.all fun c => !isBlank c && !c.isDigit && !isNamePart c && c != '"' && c != '\'') =
      true := by cases p <;> decide
  simpa [and_assoc] using List.all_eq_true.1 hall c hc

theorem IsLongest.longest {p : Punct} (h : p.IsLongest r) : Longest punctuators r p.spelling.toList :=
  ⟨⟨p, rfl⟩, h.isPrefix, by rintro _ ⟨q, rfl⟩ hq; exact h.le q hq⟩

end Punct

/-- Where an operator is expected, a text that starts with a character of a punctuator and with no number starts
with a punctuator. -/
theorem rule?_of_punct {p : Punct} {c : Char} (hc : c ∈ p.spelling.toList) (hn : startsNumber (c :: rest) = false) :
    ∃ q, Longest punctuators (c :: rest) q.spelling.toList ∧
      rule? .operator (c :: rest) = some (.punct q, q.spelling.length) := by
  obtain ⟨-, -, hname, hdouble, hsingle⟩ := Punct.not_other hc
  have hstart : isNameStart c = false := by
    cases h : isNameStart c with
    | false => rfl
    | true => rw [isNamePart_of_isNameStart h] at hname; cases hname
  obtain ⟨s, hs⟩ := Punct.exists_spelling_singleton hc
  have hprefix : s.spelling.toList <+: c :: rest := by rw [hs]; exact ⟨rest, rfl⟩
  obtain ⟨q, rest', hq⟩ := Punct.exists_scan? hprefix
  have hlongest := (Punct.scan?_eq_some_iff.1 hq).1
  refine ⟨q, hlongest.longest, ?_⟩
  simp [rule?, hdouble, hsingle, hn, hstart, punctuator?_eq_some_iff, hlongest]

theorem startsNumber_of_punct {p : Punct} {c : Char} (hc : c ∈ p.spelling.toList)
    (hdot : ¬ (c = '.' ∧ ∃ d ∈ rest.head?, d.isDigit = true)) : startsNumber (c :: rest) = false := by
  obtain ⟨-, hdigit, -⟩ := Punct.not_other hc
  by_cases hpoint : c = '.'
  · subst hpoint
    cases rest with
    | nil => rfl
    | cons d rest => simpa [startsNumber] using hdot
  · rw [startsNumber]
    · exact hdigit
    · intro _ _ heq
      exact absurd heq hpoint

/-! ### Words -/

namespace Kind

theorem ofWord?_spelling (w : Word) : ofWord? w.spelling = some (.word w) := by cases w <;> rfl

/-- A word or the name of a literal is found by its spelling. -/
theorem ofWord?_of_spelling? {name : String} (h : k.spelling? = some name) (hp : ∀ p, k ≠ .punct p) :
    ofWord? name = some k := by
  unfold spelling? at h
  split at h
  · cases h; rfl
  · cases h; rfl
  · cases h; rfl
  · cases h; exact ofWord?_spelling _
  · exact absurd rfl (hp _)
  · cases h

/-- It is written like a name. -/
theorem isName_of_spelling? {name : String} (h : k.spelling? = some name) (hp : ∀ p, k ≠ .punct p) :
    (∀ c ∈ name.toList, isNamePart c = true) ∧ ∃ c cs, name.toList = c :: cs ∧ isNameStart c = true := by
  have hshape : name.toList.all isNamePart = true ∧ name.toList.head?.any isNameStart = true := by
    unfold spelling? at h
    split at h
    · cases h; decide
    · cases h; decide
    · cases h; decide
    next w => cases h; cases w <;> decide
    · exact absurd rfl (hp _)
    · cases h
  refine ⟨List.all_eq_true.1 hshape.1, ?_⟩
  obtain ⟨c, hc, hstart⟩ := (Option.any_eq_true ..).1 hshape.2
  obtain ⟨cs, hcs⟩ := List.head?_eq_some_iff.1 hc
  exact ⟨c, cs, hcs, hstart⟩

theorem isBlank_spelling {name : String} (h : k.spelling? = some name) :
    ∃ c cs, name.toList = c :: cs ∧ isBlank c = false := by
  by_cases hp : ∃ p, k = .punct p
  · obtain ⟨p, rfl⟩ := hp
    cases h
    obtain ⟨c, cs, hcs⟩ := List.exists_cons_of_ne_nil (Punct.spelling_ne_nil p)
    exact ⟨c, cs, hcs, (Punct.not_other (hcs ▸ List.mem_cons_self)).1⟩
  · obtain ⟨hname, c, cs, hcs, -⟩ := isName_of_spelling? h fun p hk => hp ⟨p, hk⟩
    exact ⟨c, cs, hcs, isBlank_of_isNamePart (hname c (hcs ▸ List.mem_cons_self))⟩

/-- No punctuator is written like a name. -/
theorem ne_punct_of_spelling? {w : List Char} (hw : ∀ c ∈ w, isNamePart c = true) (hne : w ≠ [])
    (h : k.spelling? = some (String.ofList w)) : ∀ p, k ≠ .punct p := by
  rintro p rfl
  obtain ⟨c, w, rfl⟩ := List.exists_cons_of_ne_nil hne
  have hc : c ∈ p.spelling.toList := by
    rw [Option.some.inj h, String.toList_ofList]
    exact List.mem_cons_self
  have hname := hw c List.mem_cons_self
  rw [(Punct.not_other hc).2.2.1] at hname
  cases hname

/-- What a run of name characters stands for: the one kind that is spelled so, or else a name. -/
inductive Names (w : List Char) : Kind → Prop where
  | fixed {k : Kind} : k.spelling? = some (String.ofList w) →
      (∀ k' : Kind, k'.spelling? = some (String.ofList w) → k' = k) → Names w k
  | name : (∀ k' : Kind, k'.spelling? ≠ some (String.ofList w)) → Names w (.identifier (String.ofList w))

end Kind

theorem wordOrName_names (h : r.takeWhile isNamePart ≠ []) : (wordOrName r).1.Names (r.takeWhile isNamePart) := by
  have hw : ∀ c ∈ r.takeWhile isNamePart, isNamePart c = true := fun c hc => List.mem_takeWhile_imp hc
  simp only [wordOrName]
  generalize r.takeWhile isNamePart = w at h hw
  have hfixed : ∀ k' : Kind, k'.spelling? = some (String.ofList w) → Kind.ofWord? (String.ofList w) = some k' :=
    fun k' hk => Kind.ofWord?_of_spelling? hk (Kind.ne_punct_of_spelling? hw h hk)
  cases hk : Kind.ofWord? (String.ofList w) with
  | none =>
    refine .name fun k' hk' => ?_
    rw [hfixed k' hk'] at hk
    cases hk
  | some k =>
    refine .fixed (Kind.spelling?_of_ofWord? hk) fun k' hk' => ?_
    rw [hfixed k' hk'] at hk
    exact Option.some.inj hk

theorem isDigit_of_isNameStart {c : Char} (h : isNameStart c = true) : c.isDigit = false := by
  simp only [isNameStart, Char.isAlpha, Char.isUpper, Char.isLower, Bool.or_eq_true, Bool.and_eq_true, beq_iff_eq,
    decide_eq_true_eq, ge_iff_le, UInt32.le_iff_toNat_le] at h
  rcases h with (rfl | rfl) | h
  · decide
  · decide
  · refine Bool.eq_false_iff.2 fun hd => ?_
    simp only [Char.isDigit, Bool.and_eq_true, decide_eq_true_eq, ge_iff_le, UInt32.le_iff_toNat_le] at hd
    change (65 ≤ c.toNat ∧ c.toNat ≤ 90) ∨ 97 ≤ c.toNat ∧ c.toNat ≤ 122 at h
    change 48 ≤ c.toNat ∧ c.toNat ≤ 57 at hd
    omega

theorem rule?_of_isNameStart {c : Char} (hc : isNameStart c = true) (rest : List Char) (mode : Mode) :
    rule? mode (c :: rest) = some (wordOrName (c :: rest)) := by
  have hne : ∀ d, isNameStart d = false → c ≠ d := by
    rintro d hd rfl
    rw [hc] at hd
    cases hd
  have hnumber : startsNumber (c :: rest) = false := by
    rw [startsNumber]
    · exact isDigit_of_isNameStart hc
    · intro _ _ heq
      exact absurd heq (hne '.' (by decide))
  have hdouble : c ≠ '"' := hne _ (by decide)
  have hsingle : c ≠ '\'' := hne _ (by decide)
  have hslash : c ≠ '/' := hne _ (by decide)
  simp [rule?, hdouble, hsingle, hslash, hnumber, hc]

/-! ### What follows a token -/

/-- The text behind a token makes it another one: a longer punctuator, a longer word, or a number where a point
stood. -/
def Kind.ExtendedBy (t : List Char) : Kind → Prop
  | .punct p => (∃ q : Punct, p.spelling.length < q.spelling.length ∧ q.spelling.toList <+: p.spelling.toList ++ t) ∨
      p = .dot ∧ ∃ c ∈ t.head?, c.isDigit = true
  | _ => ∃ c ∈ t.head?, isNamePart c = true

theorem Punct.eq_dot {p : Punct} {cs : List Char} (h : p.spelling.toList = '.' :: cs) : p = .dot ∧ cs = [] := by
  have hdot : p.spelling.toList.head? = some '.' → p = .dot := by cases p <;> decide
  obtain rfl := hdot (by rw [h]; rfl)
  exact ⟨rfl, (List.cons.inj h).2.symm⟩

theorem rule?_punct_append {p : Punct} {t : List Char} (h : ¬ (Kind.punct p).ExtendedBy t) :
    rule? .operator (p.spelling.toList ++ t) = some (.punct p, p.spelling.length) := by
  simp only [Kind.ExtendedBy, not_or, not_exists, not_and] at h
  have hlongest : Longest punctuators (p.spelling.toList ++ t) p.spelling.toList := by
    refine ⟨⟨p, rfl⟩, List.prefix_append _ _, ?_⟩
    rintro _ ⟨q, rfl⟩ hq
    simp only [String.length_toList]
    by_contra hlt
    exact h.1 q (not_le.1 hlt) hq
  obtain ⟨c, cs, hcs⟩ := List.exists_cons_of_ne_nil (Punct.spelling_ne_nil p)
  have hc : c ∈ p.spelling.toList := hcs ▸ List.mem_cons_self
  have hnumber : startsNumber (c :: (cs ++ t)) = false := by
    refine startsNumber_of_punct hc ?_
    rintro ⟨rfl, d, hd, hdigit⟩
    obtain ⟨rfl, rfl⟩ := Punct.eq_dot hcs
    exact h.2 rfl d hd hdigit
  obtain ⟨q, hq, hrule⟩ := rule?_of_punct hc hnumber
  rw [← List.cons_append, ← hcs] at hq hrule
  obtain rfl := Punct.spelling_inj (hlongest.unique hq)
  exact hrule

theorem rule?_word_append {name : String} {t : List Char} (hk : k.spelling? = some name) (hp : ∀ p, k ≠ .punct p)
    (ht : ∀ c ∈ t.head?, isNamePart c = false) (mode : Mode) :
    rule? mode (name.toList ++ t) = some (k, name.toList.length) := by
  obtain ⟨hname, c, cs, hcs, hc⟩ := Kind.isName_of_spelling? hk hp
  have hrun : (name.toList ++ t).takeWhile isNamePart = name.toList := takeWhile_append_stop hname ht
  have hrule := rule?_of_isNameStart hc (cs ++ t) mode
  rw [← List.cons_append, ← hcs] at hrule
  rw [hrule, wordOrName, hrun]
  simp [Kind.ofWord?_of_spelling? hk hp]

/-- A token of fixed spelling is scanned as itself, if what follows does not extend it. -/
theorem rule?_spelling_append {name : String} {t : List Char} (hk : k.spelling? = some name) (ht : ¬ k.ExtendedBy t) :
    rule? .operator (name.toList ++ t) = some (k, name.toList.length) := by
  by_cases hp : ∃ p, k = .punct p
  · obtain ⟨p, rfl⟩ := hp
    cases hk
    exact rule?_punct_append ht
  · have hp' : ∀ p, k ≠ .punct p := fun p h => hp ⟨p, h⟩
    refine rule?_word_append hk hp' (fun c hc => ?_) _
    refine Bool.eq_false_iff.2 fun hname => ht ?_
    cases k with
    | punct p => exact absurd rfl (hp' p)
    | _ => exact ⟨c, hc, hname⟩

end Token

/-- Tokens of fixed spelling at a place of a source. Where an operator is expected and a character of a punctuator
stands that does not start a number, the longest punctuator is scanned that the text starts with. Where a name may
start, the longest run of name characters is scanned: as the one kind that is spelled so, or else as a name. So a
token of fixed spelling is scanned as itself before a text that does not extend it. -/
theorem fixed_tokens_longest {source r : List Char} {i : Nat} (hi : StandsAt source i r) :
    (∀ c rest, r = c :: rest → (∃ p : Punct, c ∈ p.spelling.toList) →
      ¬ (c = '.' ∧ ∃ d ∈ rest.head?, d.isDigit = true) →
      ∃ p, Longest punctuators r p.spelling.toList ∧ (∀ q : Punct, Longest punctuators r q.spelling.toList → q = p) ∧
        next? source i .operator = some (.ok (⟨.punct p, i, i + byteLength p.spelling.toList⟩,
          i + byteLength p.spelling.toList))) ∧
    (∀ c rest mode, r = c :: rest → isNameStart c = true →
      ∃ w k, Longest (oneOf isNamePart)∗ r w ∧ k.Names w ∧
        next? source i mode = some (.ok (⟨k, i, i + byteLength w⟩, i + byteLength w))) ∧
    ∀ (k : Kind) name t, k.spelling? = some name → r = name.toList ++ t → ¬ k.ExtendedBy t →
      next? source i .operator =
        some (.ok (⟨k, i, i + byteLength name.toList⟩, i + byteLength name.toList)) := by
  refine ⟨?_, ?_, ?_⟩
  · rintro c rest rfl ⟨p₀, hc⟩ hdot
    obtain ⟨p, hp, hrule⟩ := rule?_of_punct hc (startsNumber_of_punct hc hdot)
    refine ⟨p, hp, fun q hq => Punct.spelling_inj (hq.unique hp), ?_⟩
    have hnext := next?_of_rule? hi (fun d hd => by cases hd; exact (Punct.not_other hc).1) hrule
    rwa [← String.length_toList, ← List.prefix_iff_eq_take.1 hp.isPrefix] at hnext
  · rintro c rest mode rfl hc
    have hpart := isNamePart_of_isNameStart hc
    have hrule := rule?_of_isNameStart hc rest mode
    have hnext := next?_of_rule? hi (fun d hd => by cases hd; exact isBlank_of_isNamePart hpart) hrule
    rw [take_takeWhile_length] at hnext
    exact ⟨_, _, longest_takeWhile isNamePart _, wordOrName_names (by simp [hpart]), hnext⟩
  · rintro k name t hk rfl ht
    have hrule := rule?_spelling_append hk ht
    have hblank : ∀ c ∈ (name.toList ++ t).head?, isBlank c = false := by
      obtain ⟨c, cs, hcs, hc⟩ := Kind.isBlank_spelling hk
      rw [hcs]
      rintro d ⟨⟩
      exact hc
    have hnext := next?_of_rule? hi hblank hrule
    rwa [List.take_left] at hnext

/-- The longest of four punctuators that the text starts with, a name that starts with a word, and the word. -/
theorem fixed_tokens_longest_shift :
    next? "a>>>=b".toList 1 .operator = some (.ok (⟨.punct .unsignedRightShiftEqual, 1, 5⟩, 5)) ∧
    (∃ w k, Longest (oneOf isNamePart)∗ "newer+1".toList w ∧ k.Names w ∧
      next? "newer+1".toList 0 .operand = some (.ok (⟨k, 0, 0 + byteLength w⟩, 0 + byteLength w))) ∧
    next? "new+1".toList 0 .operator = some (.ok (⟨.word .new, 0, 3⟩, 3)) := by
  have hshift : StandsAt "a>>>=b".toList 1 ">>>=b".toList := ⟨['a'], by decide, by decide⟩
  have hnewer : StandsAt "newer+1".toList 0 "newer+1".toList := ⟨[], rfl, rfl⟩
  have hnew : StandsAt "new+1".toList 0 "new+1".toList := ⟨[], rfl, rfl⟩
  refine ⟨?_, ?_, ?_⟩
  · obtain ⟨p, -, hunique, hnext⟩ := (fixed_tokens_longest hshift).1 '>' ">>=b".toList (by decide)
      ⟨.greaterThan, by decide⟩ (by decide)
    have hscan : Punct.scan? ">>>=b".toList = some (.unsignedRightShiftEqual, ['b']) := by decide
    obtain rfl := hunique .unsignedRightShiftEqual (Punct.isLongest_of_scan? hscan).1.longest
    exact hnext
  · exact (fixed_tokens_longest hnewer).2.1 'n' "ewer+1".toList .operand
      (by decide) (by decide)
  · exact (fixed_tokens_longest hnew).2.2 (.word .new) "new" "+1".toList
      rfl (by decide) (by rintro ⟨c, hc, hname⟩; cases hc; exact absurd hname (by decide))

end Scriptlet
