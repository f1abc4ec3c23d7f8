import Mathlib
import Scriptlet.Token.Scan

/-!
# Token boundaries

A token does not depend on the text behind it, as long as that text is empty or starts with a blank,
a semicolon, a comma or a bracket (`Detached`): no lexical rule reads across such a character unless
it reads it as part of a string or of a regular expression. `rule?_append` says so for the rule that a scan
applies; everything before it is one lemma for each part of the lexical grammar.
-/

namespace Scriptlet.Token

open Text Number

/-- A character that continues no name, number or punctuator. -/
def isBreak (d : Char) : Bool :=
  isBlank d || [';', ',', '(', ')', '[', ']', '\x7b', '\x7d'].contains d

/-- A text that can follow every token without changing it. -/
def Detached (t : List Char) : Prop := ∀ d ∈ t.head?, isBreak d = true

theorem detached_cons {d : Char} (t : List Char) (h : isBreak d = true) : Detached (d :: t) := by
  simpa [Detached] using h

theorem Detached.ne_cons {t : List Char} (ht : Detached t) {c : Char} (hc : isBreak c = false)
    (u : List Char) : t ≠ c :: u := by
  rintro rfl
  rw [ht c (by simp)] at hc
  cases hc

theorem isBlank_toNat {c : Char} (h : isBlank c = true) :
    c.toNat ≤ 0x20 ∨ 0x85 ≤ c.toNat := by
  simp only [isBlank, isWhiteSpace, Bool.or_eq_true, Bool.and_eq_true, decide_eq_true_eq,
    beq_iff_eq] at h
  rcases h with h | rfl
  · omega
  · decide

theorem isBlank_semicolon : isBlank ';' = false := by decide

theorem isNamePart_toNat {c : Char} (h : isNamePart c = true) :
    0x20 < c.toNat ∧ c.toNat < 0x85 := by
  simp only [isNamePart, Char.isAlphanum, Char.isAlpha, Char.isUpper, Char.isLower, Char.isDigit,
    Bool.or_eq_true, Bool.and_eq_true, beq_iff_eq, decide_eq_true_eq, ge_iff_le,
    UInt32.le_iff_toNat_le] at h
  change (c = '_' ∨ c = '$') ∨ ((65 ≤ c.toNat ∧ c.toNat ≤ 90) ∨ 97 ≤ c.toNat ∧ c.toNat ≤ 122) ∨
    48 ≤ c.toNat ∧ c.toNat ≤ 57 at h
  rcases h with (rfl | rfl) | h
  · decide
  · decide
  · omega

theorem isNamePart_of_isBreak {d : Char} (h : isBreak d = true) : isNamePart d = false := by
  simp only [isBreak, Bool.or_eq_true] at h
  rcases h with h | h
  · refine Bool.eq_false_iff.2 fun hn => ?_
    have := isNamePart_toNat hn
    have := isBlank_toNat h
    omega
  · have hall : [';', ',', '(', ')', '[', ']', '\x7b', '\x7d'].all (!isNamePart ·) = true := by decide
    simpa using List.all_eq_true.1 hall d (List.contains_iff_mem.1 h)

theorem isNamePart_of_isDigit {c : Char} (h : c.isDigit = true) : isNamePart c = true := by
  simp [isNamePart, Char.isAlphanum, h]

theorem isNamePart_of_isHexDigit {c : Char} (h : isHexDigit c = true) : isNamePart c = true := by
  simp only [isHexDigit, hexDigit?] at h
  split at h
  next hd => exact isNamePart_of_isDigit hd
  have hl : c.isAlpha = true := by
    simp only [Char.isAlpha, Char.isUpper, Char.isLower, Bool.or_eq_true, Bool.and_eq_true,
      decide_eq_true_eq, ge_iff_le]
    split at h
    next hl =>
      simp only [Bool.and_eq_true, decide_eq_true_eq, Char.le_def] at hl
      exact .inr ⟨hl.1, UInt32.le_trans hl.2 (by decide)⟩
    split at h
    next hu =>
      simp only [Bool.and_eq_true, decide_eq_true_eq, Char.le_def] at hu
      exact .inl ⟨hu.1, UInt32.le_trans hu.2 (by decide)⟩
    · cases h
  simp [isNamePart, Char.isAlphanum, hl]

theorem isBreak_eq_false_of_isNamePart {c : Char} (h : isNamePart c = true) : isBreak c = false := by
  cases hb : isBreak c with
  | false => rfl
  | true => rw [isNamePart_of_isBreak hb] at h; cases h

section Append

variable {t : List Char}

theorem takeWhile_append_detached {p : Char → Bool} (ht : Detached t)
    (hp : ∀ d, isBreak d = true → p d = false) (cs : List Char) :
    (cs ++ t).takeWhile p = cs.takeWhile p := by
  induction cs with
  | nil =>
    cases t with
    | nil => rfl
    | cons d t => simp [hp d (ht d (by simp))]
  | cons c cs ih => simp only [List.cons_append, List.takeWhile_cons, ih]

theorem head?_any_append_detached {p : Char → Bool} (ht : Detached t)
    (hp : ∀ d, isBreak d = true → p d = false) (cs : List Char) :
    (cs ++ t).head?.any p = cs.head?.any p := by
  cases cs with
  | cons c cs => rfl
  | nil =>
    cases t with
    | nil => rfl
    | cons d t => simp [hp d (ht d (by simp))]

theorem isDigit_of_isBreak (d : Char) (h : isBreak d = true) : d.isDigit = false := by
  cases hd : d.isDigit with
  | false => rfl
  | true => rw [isBreak_eq_false_of_isNamePart (isNamePart_of_isDigit hd)] at h; cases h

theorem isHexDigit_of_isBreak (d : Char) (h : isBreak d = true) : isHexDigit d = false := by
  cases hd : isHexDigit d with
  | false => rfl
  | true => rw [isBreak_eq_false_of_isNamePart (isNamePart_of_isHexDigit hd)] at h; cases h

theorem digitRun_append (ht : Detached t) (cs : List Char) : digitRun (cs ++ t) = digitRun cs :=
  takeWhile_append_detached ht isDigit_of_isBreak cs

theorem digitRun_length_le (cs : List Char) : (digitRun cs).length ≤ cs.length :=
  (List.takeWhile_prefix _).length_le

theorem fractionLength_append (ht : Detached t) (cs : List Char) :
    fractionLength (cs ++ t) = fractionLength cs := by
  cases cs with
  | cons c cs =>
    rw [List.cons_append]
    unfold fractionLength
    split
    next h =>
      cases h
      simp only [digitRun_append ht]
    next h =>
      split
      next h' => cases h'; exact absurd rfl (h _)
      · rfl
  | nil =>
    rw [List.nil_append, fractionLength.eq_def]
    split
    next => exact absurd rfl (ht.ne_cons (by decide) _)
    · rfl

theorem fractionLength_le (cs : List Char) : fractionLength cs ≤ cs.length := by
  unfold fractionLength
  split
  · next cs =>
    have := digitRun_length_le cs
    simp only [List.length_cons]
    omega
  · omega

theorem signLength_append (ht : Detached t) (cs : List Char) :
    signLength (cs ++ t) = signLength cs := by
  cases cs with
  | cons c cs =>
    simp only [List.cons_append]
    unfold signLength
    split <;> split <;> simp_all
  | nil =>
    rw [List.nil_append, signLength.eq_def]
    split
    next => exact absurd rfl (ht.ne_cons (by decide) _)
    next => exact absurd rfl (ht.ne_cons (by decide) _)
    · rfl

theorem signLength_le (cs : List Char) : signLength cs ≤ cs.length := by
  unfold signLength
  split <;> simp

theorem exponentLength_append (ht : Detached t) (cs : List Char) :
    exponentLength (cs ++ t) = exponentLength cs := by
  cases cs with
  | cons c cs =>
    simp only [List.cons_append, exponentLength, signLength_append ht,
      List.drop_append_of_le_length (signLength_le cs), digitRun_append ht]
  | nil =>
    cases t with
    | nil => rfl
    | cons d t =>
      have hd := ht d (by simp)
      simp only [List.nil_append, exponentLength]
      split
      next h =>
        simp only [Bool.or_eq_true, beq_iff_eq] at h
        rcases h with rfl | rfl <;> exact absurd hd (by decide)
      · rfl

theorem exponentLength_le (cs : List Char) : exponentLength cs ≤ cs.length := by
  cases cs with
  | nil => simp [exponentLength]
  | cons c cs =>
    simp only [exponentLength]
    split
    · have hr := digitRun_length_le (cs.drop (signLength cs))
      have hs := signLength_le cs
      rw [List.length_drop] at hr
      split
      · omega
      next h =>
        simp only [List.length_cons]
        omega
    · omega

theorem wholeLength_append (ht : Detached t) {cs : List Char} (hcs : cs ≠ []) :
    wholeLength (cs ++ t) = wholeLength cs := by
  obtain ⟨c, cs, rfl⟩ := List.exists_cons_of_ne_nil hcs
  rw [List.cons_append]
  by_cases hc : c = '0'
  · subst hc; rfl
  · have h : ∀ cs, wholeLength (c :: cs) = (digitRun (c :: cs)).length := fun cs => by
      rw [wholeLength]; intro _ h; cases h; exact hc rfl
    rw [h, h, ← List.cons_append, digitRun_append ht]

theorem wholeLength_le (cs : List Char) : wholeLength cs ≤ cs.length := by
  unfold wholeLength
  split
  · simp
  · exact digitRun_length_le cs

theorem decimalLength_append (ht : Detached t) {cs : List Char} (hcs : cs ≠ []) :
    decimalLength (cs ++ t) = decimalLength cs ∧ decimalLength cs ≤ cs.length := by
  have hw := wholeLength_le cs
  have hf := fractionLength_le (cs.drop (wholeLength cs))
  have he := exponentLength_le (cs.drop (wholeLength cs + fractionLength (cs.drop (wholeLength cs))))
  rw [List.length_drop] at hf he
  simp only [decimalLength, wholeLength_append ht hcs]
  rw [List.drop_append_of_le_length hw, fractionLength_append ht,
    List.drop_append_of_le_length (by omega), exponentLength_append ht]
  exact ⟨rfl, by omega⟩

/-- Whether a text starts with `0x` is not decided behind its end. -/
theorem append_ne_zero_cons (ht : Detached t) {cs : List Char} (hcs : cs ≠ []) {x : Char}
    (hx : isBreak x = false) (h : ∀ ds, cs ≠ '0' :: x :: ds) (ds : List Char) :
    cs ++ t ≠ '0' :: x :: ds := by
  intro heq
  match cs with
  | [] => exact hcs rfl
  | [c] => exact ht.ne_cons hx ds (List.cons.inj heq).2
  | c :: d :: cs =>
    simp only [List.cons_append, List.cons.injEq] at heq
    obtain ⟨rfl, rfl, -⟩ := heq
    exact h cs rfl

theorem numeral?_append (ht : Detached t) {cs : List Char} (hcs : cs ≠ []) {x : Float} {n : Nat}
    (h : numeral? cs = some (x, n)) : numeral? (cs ++ t) = some (x, n) ∧ n ≤ cs.length := by
  obtain ⟨hd, hle⟩ := decimalLength_append ht hcs
  have hex := fun ds => takeWhile_append_detached (p := isHexDigit) ht isHexDigit_of_isBreak ds
  have hrun := fun ds : List Char => (List.takeWhile_prefix isHexDigit (l := ds)).length_le
  unfold numeral? at h ⊢
  simp only at h ⊢
  split at h
  · next ds =>
    have := hrun ds
    split at h
    · cases h
    · cases h
      simp_all
  · next ds =>
    have := hrun ds
    split at h
    · cases h
    · cases h
      simp_all
  next h1 h2 =>
    obtain ⟨l, hl, he⟩ := Option.map_eq_some_iff.1 h
    cases he
    refine ⟨?_, hle⟩
    split
    next ds heq => exact absurd heq (append_ne_zero_cons ht hcs (by decide) h1 ds)
    next ds heq => exact absurd heq (append_ne_zero_cons ht hcs (by decide) h2 ds)
    · rw [hd, List.take_append_of_le_length hle, hl]
      rfl

theorem number?_append (ht : Detached t) {cs : List Char} (hcs : cs ≠ []) {k : Kind} {n : Nat}
    (h : number? cs = some (k, n)) : number? (cs ++ t) = some (k, n) ∧ n ≤ cs.length := by
  unfold number? at h
  split at h
  next x m hm =>
    obtain ⟨hm', hle⟩ := numeral?_append ht hcs hm
    split at h
    · cases h
    next hn =>
      cases h
      refine ⟨?_, hle⟩
      simp only [number?, hm', List.drop_append_of_le_length hle,
        head?_any_append_detached ht fun _ => isNamePart_of_isBreak]
      exact if_neg hn
  · cases h

theorem string?_append (t : List Char) {quote : Char} {cs : List Char} {k : Kind} {n : Nat}
    (h : string? quote cs = some (k, n)) :
    string? quote (cs ++ t) = some (k, n) ∧ n ≤ cs.length + 1 := by
  simp only [string?] at h ⊢
  split at h
  next hlt =>
    cases h
    have hb : (cs ++ t).takeWhile (· != quote) = cs.takeWhile (· != quote) := by
      rw [List.takeWhile_append, if_neg (by omega)]
    rw [hb, List.length_append, if_pos (by omega)]
    exact ⟨rfl, by omega⟩
  · cases h

/-- A character that is no backslash, in the words of the cases of `patternLength?`. -/
theorem ne_backslash {c : Char} {cs : List Char} (h : c = '\\' → cs = [] → False)
    (h' : ∀ d ds, c = '\\' → cs = d :: ds → False) : c ≠ '\\' := by
  intro hc
  cases cs with
  | nil => exact h hc rfl
  | cons d ds => exact h' d ds hc rfl

/-- A pattern goes on with a character that is no backslash. -/
theorem patternLength?_cons {c : Char} (hc : c ≠ '\\') (inClass : Bool) (cs : List Char) :
    patternLength? inClass (c :: cs) = if isLineEnd c then none
      else if c == '/' && !inClass then some 0
      else (patternLength? (c == '[' || (inClass && c != ']')) cs).map (· + 1) := by
  rw [patternLength?] <;> simp [hc]

theorem patternLength?_append (t : List Char) (inClass : Bool) (cs : List Char) {n : Nat}
    (h : patternLength? inClass cs = some n) :
    patternLength? inClass (cs ++ t) = some n ∧ n + 1 ≤ cs.length := by
  fun_induction patternLength? inClass cs generalizing n with
  | case1 => cases h
  | case2 => cases h
  | case3 => cases h
  | case4 inClass c cs hc ih =>
    obtain ⟨m, hm, rfl⟩ := Option.map_eq_some_iff.1 h
    obtain ⟨h1, h2⟩ := ih hm
    simp only [List.cons_append, patternLength?, hc, h1, Option.map_some, List.length_cons]
    exact ⟨rfl, by omega⟩
  | case5 => cases h
  | case6 inClass c cs h1 h2 hl hs =>
    cases h
    rw [List.cons_append, patternLength?_cons (ne_backslash h1 h2), if_neg hl, if_pos hs]
    exact ⟨rfl, by simp⟩
  | case7 inClass c cs h1 h2 hl hs ih =>
    obtain ⟨m, hm, rfl⟩ := Option.map_eq_some_iff.1 h
    obtain ⟨h3, h4⟩ := ih hm
    rw [List.cons_append, patternLength?_cons (ne_backslash h1 h2), if_neg hl, if_neg hs, h3]
    exact ⟨rfl, by rw [List.length_cons]; omega⟩

theorem regExp?_append (ht : Detached t) {cs : List Char} {k : Kind} {n : Nat}
    (h : regExp? cs = some (k, n)) : regExp? (cs ++ t) = some (k, n) ∧ n ≤ cs.length + 1 := by
  obtain ⟨m, hm, he⟩ := Option.map_eq_some_iff.1 h
  obtain ⟨hm', hle⟩ := patternLength?_append t false cs hm
  have hf := (List.takeWhile_prefix isNamePart (l := cs.drop (m + 1))).length_le
  rw [List.length_drop] at hf
  have hfl := takeWhile_append_detached ht (fun _ => isNamePart_of_isBreak) (cs.drop (m + 1))
  cases he
  refine ⟨?_, by omega⟩
  simp only [regExp?, hm', Option.map_some, List.drop_append_of_le_length hle, hfl,
    List.take_append_of_le_length (Nat.le_of_succ_le hle)]

theorem startsNumber_append (ht : Detached t) {cs : List Char} (hcs : cs ≠ []) :
    startsNumber (cs ++ t) = startsNumber cs := by
  match cs with
  | [] => exact absurd rfl hcs
  | [c] =>
    cases t with
    | nil => rfl
    | cons d t =>
      have hd := isDigit_of_isBreak d (ht d (by simp))
      by_cases hc : c = '.'
      · subst hc; exact hd
      · simp only [List.cons_append, List.nil_append]
        rw [startsNumber, startsNumber] <;> simp [hc]
  | c :: d :: cs =>
    by_cases hc : c = '.'
    · subst hc; rfl
    · simp only [List.cons_append]
      rw [startsNumber, startsNumber] <;> simp [hc]

theorem spelling_tail_isBreak (p : Punct) : ∀ d ∈ p.spelling.toList.tail, isBreak d = false := by
  have h : p.spelling.toList.tail.all (fun d => !isBreak d) = true := by cases p <;> decide
  simpa using h

theorem spelling_isPrefix_append_iff (ht : Detached t) {cs : List Char} (hcs : cs ≠ []) (p : Punct) :
    p.spelling.toList <+: cs ++ t ↔ p.spelling.toList <+: cs := by
  refine ⟨fun h => ?_, fun h => h.trans (List.prefix_append ..)⟩
  rcases List.prefix_or_prefix_of_prefix h (List.prefix_append cs t) with hp | ⟨u, hu⟩
  · exact hp
  cases u with
  | nil => exact ⟨[], by simpa using hu.symm⟩
  | cons d u =>
    -- the spelling would have to go on with the first character of `t`
    rw [← hu, List.prefix_append_right_inj] at h
    obtain ⟨v, rfl⟩ := h
    obtain ⟨c, cs, rfl⟩ := List.exists_cons_of_ne_nil hcs
    have hd := spelling_tail_isBreak p d (by rw [← hu]; simp)
    rw [ht d (by simp)] at hd
    cases hd

theorem punctuator?_append (ht : Detached t) {cs : List Char} (hcs : cs ≠ []) {k : Kind} {n : Nat}
    (h : punctuator? cs = some (k, n)) : punctuator? (cs ++ t) = some (k, n) ∧ n ≤ cs.length := by
  obtain ⟨p, rfl, rfl, hp⟩ := punctuator?_eq_some_iff.1 h
  refine ⟨punctuator?_eq_some_iff.2 ⟨p, rfl, rfl, hp.isPrefix.trans (List.prefix_append cs t), fun q hq => ?_⟩, ?_⟩
  · exact hp.le q ((spelling_isPrefix_append_iff ht hcs q).1 hq)
  · rw [← String.length_toList]
    exact hp.isPrefix.length_le

theorem wordOrName_append (ht : Detached t) (cs : List Char) :
    wordOrName (cs ++ t) = wordOrName cs := by
  simp only [wordOrName, takeWhile_append_detached ht fun _ => isNamePart_of_isBreak]

/-- The token at the start of a text does not depend on a detached text behind it. -/
theorem rule?_append (ht : Detached t) {mode : Mode} {cs : List Char} {k : Kind} {n : Nat}
    (h : rule? mode cs = some (k, n)) : rule? mode (cs ++ t) = some (k, n) ∧ n ≤ cs.length := by
  cases cs with
  | nil => cases h
  | cons c cs =>
    have hcs : c :: cs ≠ [] := List.cons_ne_nil c cs
    have hlt : (c :: cs).length = cs.length + 1 := rfl
    simp only [rule?, List.cons_append] at h ⊢
    rw [← List.cons_append, startsNumber_append ht hcs, wordOrName_append ht, hlt]
    split at h
    next hq => rw [if_pos hq]; exact string?_append t h
    next hq =>
    rw [if_neg hq]
    split at h
    next hr => rw [if_pos hr]; exact regExp?_append ht h
    next hr =>
    rw [if_neg hr]
    split at h
    next hn => rw [if_pos hn]; exact number?_append ht hcs h
    next hn =>
    rw [if_neg hn]
    split at h
    next hw =>
      cases h
      rw [if_pos hw]
      exact ⟨rfl, (List.takeWhile_prefix isNamePart).length_le⟩
    next hw =>
      rw [if_neg hw]
      exact punctuator?_append ht hcs h

end Append

end Scriptlet.Token
