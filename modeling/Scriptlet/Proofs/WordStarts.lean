import Scriptlet.Console.Completion
import Scriptlet.Proofs.Entries

/-!
# Words before a position

The word that is completed is the longest end of the text before the position whose characters all belong to words.
Its start is taken to be one byte behind the character in front of it. That is where the word starts if the character
takes one byte, and inside of the character if not, where the text cannot be cut: then there is no answer, neither by
completion nor by a hint at the end of the line (`completion_of_line`).
-/

namespace Scriptlet

open Text Console

/-! ### Places between characters -/

/-- A place between two characters of the text, or at one of its ends. -/
def Text.IsBoundary (text : List Char) (position : Nat) : Prop :=
  ∃ seen rest, text = seen ++ rest ∧ byteLength seen = position

section

variable {text seen rest front : List Char} {c : Char} {n k : Nat}

theorem isBoundary_zero (text : List Char) : IsBoundary text 0 := ⟨[], text, rfl, rfl⟩

theorem Text.IsBoundary.append (h : IsBoundary text k) (front : List Char) :
    IsBoundary (front ++ text) (byteLength front + k) := by
  obtain ⟨seen, rest, rfl, rfl⟩ := h
  exact ⟨front ++ seen, rest, (List.append_assoc ..).symm, byteLength_append ..⟩

theorem isBoundary_append_iff : IsBoundary (front ++ text) (byteLength front + k) ↔ IsBoundary text k := by
  refine ⟨?_, fun h => h.append front⟩
  rintro ⟨seen, rest, h, hlen⟩
  rcases List.append_eq_append_iff.1 h with ⟨more, rfl, rfl⟩ | ⟨more, rfl, -⟩
  · exact ⟨more, rest, rfl, by rw [byteLength_append] at hlen; omega⟩
  · obtain rfl : k = 0 := by rw [byteLength_append] at hlen; omega
    exact isBoundary_zero text

/-- There is no boundary inside of a character. -/
theorem isBoundary_cons_iff :
    IsBoundary (c :: text) n ↔ n = 0 ∨ c.utf8Size ≤ n ∧ IsBoundary text (n - c.utf8Size) := by
  constructor
  · rintro ⟨seen, rest, h, rfl⟩
    cases seen with
    | nil => exact .inl rfl
    | cons d seen =>
      obtain ⟨rfl, rfl⟩ := List.cons.inj h
      rw [byteLength_cons, Nat.add_sub_cancel_left]
      exact .inr ⟨Nat.le_add_right .., seen, rest, rfl, rfl⟩
  · rintro (rfl | ⟨hle, h⟩)
    · exact isBoundary_zero (c :: text)
    · have := h.append [c]
      rwa [byteLength_cons, byteLength_nil, Nat.add_zero, Nat.add_sub_cancel' hle] at this

theorem isBoundary_cons_one_iff : IsBoundary (c :: text) 1 ↔ c.utf8Size = 1 := by
  have hpos := c.utf8Size_pos
  rw [isBoundary_cons_iff]
  constructor
  · rintro (h | ⟨hle, -⟩) <;> omega
  · exact fun h => .inr ⟨h.le, by rw [h]; exact isBoundary_zero text⟩

/-- A text can be cut at its boundaries and nowhere else. -/
theorem isSome_dropBytes?_iff (hn : n ≤ byteLength text) : (dropBytes? n text).isSome ↔ IsBoundary text n := by
  induction text generalizing n with
  | nil =>
    obtain rfl : n = 0 := by simpa using hn
    exact iff_of_true rfl (isBoundary_zero [])
  | cons c cs ih =>
    cases n with
    | zero => exact iff_of_true rfl (isBoundary_zero (c :: cs))
    | succ n =>
      rw [dropBytes?, isBoundary_cons_iff]
      split
      next hle =>
        rw [ih (by rw [byteLength_cons] at hn; omega)]
        simp [hle]
      next hlt => simp [hlt]

theorem takeBytes?_append (seen rest : List Char) : takeBytes? (byteLength seen) (seen ++ rest) = some seen := by
  induction seen with
  | nil => simp [takeBytes?]
  | cons c seen ih =>
    obtain ⟨n, hn⟩ := Nat.exists_eq_add_one.2 (byteLength_pos (List.cons_ne_nil c seen))
    have hrest : n + 1 - c.utf8Size = byteLength seen := by rw [← hn, byteLength_cons]; omega
    have hle : c.utf8Size ≤ n + 1 := by rw [← hn, byteLength_cons]; omega
    rw [hn, List.cons_append, takeBytes?, if_pos hle, hrest, ih, Option.map_some]

end

/-! ### The start of the word -/

section

variable {front word w : List Char} {c : Char}

/-- Words end at the last character that is no part of them. -/
theorem reverse_dropWhile_append {p : Char → Bool} (hw : ∀ c ∈ word, p c = true) (hf : EndsIn (p · = false) front) :
    (front ++ word).reverse.dropWhile p = front.reverse := by
  have h : trimEnd p (front ++ word) = front := by rw [trimEnd_append hw, trimEnd_eq_self hf]
  exact List.reverse_eq_iff.1 h

theorem endsIn_trimEnd (p : Char → Bool) (t : List Char) : EndsIn (p · = false) (trimEnd p t) := by
  intro c hc
  rw [trimEnd, List.getLast?_reverse] at hc
  simpa [Option.mem_def.1 hc] using List.head?_dropWhile_not p t.reverse

/-- No longer end of the text consists of such characters. -/
theorem suffix_of_forall {p : Char → Bool} (hword : ∀ c ∈ word, p c = true) (hf : EndsIn (p · = false) front)
    (hw : ∀ c ∈ w, p c = true) (h : w <:+ front ++ word) : w <:+ word := by
  obtain ⟨start, hstart⟩ := h
  obtain ⟨more, hmore, -⟩ := exists_eq_trimEnd_append p start
  have htrim : trimEnd p start = front := by
    rw [← trimEnd_append hw, hstart, trimEnd_append hword, trimEnd_eq_self hf]
  rw [hmore, htrim, List.append_assoc] at hstart
  exact ⟨more, List.append_cancel_left hstart⟩

variable (hword : ∀ c ∈ word, isCompletable c = true) (hf : EndsIn (isCompletable · = false) front)
include hword hf

/-- The start of the word is counted from the character in front of it. -/
theorem wordStart_cases : front = [] ∧ wordStart (front ++ word) = 0 ∨
    ∃ seen c, front = seen ++ [c] ∧ wordStart (front ++ word) = byteLength seen + 1 := by
  rw [wordStart, reverse_dropWhile_append hword hf]
  cases h : front.reverse with
  | nil => exact .inl ⟨List.reverse_eq_nil_iff.1 h, rfl⟩
  | cons c seen => exact .inr ⟨seen.reverse, c, by rw [← List.reverse_cons, ← h, List.reverse_reverse], rfl⟩

theorem wordStart_le : wordStart (front ++ word) ≤ byteLength (front ++ word) := by
  rcases wordStart_cases hword hf with ⟨-, h⟩ | ⟨seen, c, rfl, h⟩
  · rw [h]
    exact Nat.zero_le _
  · have := c.utf8Size_pos
    simp only [h, byteLength_append, byteLength_cons, byteLength_nil]
    omega

/-- The start of the word is a boundary if the character in front of it takes one byte. -/
theorem isBoundary_wordStart_iff (after : List Char) :
    IsBoundary (front ++ word ++ after) (wordStart (front ++ word)) ↔ EndsIn (·.utf8Size = 1) front := by
  rcases wordStart_cases hword hf with ⟨rfl, h⟩ | ⟨seen, c, rfl, h⟩
  · rw [h]
    exact iff_of_true (isBoundary_zero _) fun c hc => by cases hc
  · rw [h, List.append_assoc, List.append_assoc, isBoundary_append_iff, List.singleton_append,
      isBoundary_cons_one_iff]
    simp [EndsIn]

theorem wordStart_eq (hone : EndsIn (·.utf8Size = 1) front) : wordStart (front ++ word) = byteLength front := by
  rcases wordStart_cases hword hf with ⟨rfl, h⟩ | ⟨seen, c, rfl, h⟩
  · exact h
  · rw [h, byteLength_append, byteLength_cons, hone c (by simp), byteLength_nil]

theorem isSome_lastWord?_iff : (lastWord? (front ++ word)).isSome ↔ EndsIn (·.utf8Size = 1) front := by
  have h := isBoundary_wordStart_iff hword hf []
  rw [List.append_nil] at h
  rw [lastWord?, isSome_dropBytes?_iff (wordStart_le hword hf), h]

theorem lastWord?_eq_some (h : EndsIn (·.utf8Size = 1) front) : lastWord? (front ++ word) = some word := by
  rw [lastWord?, wordStart_eq hword hf h, dropBytes?_append]

end

/-! ### Completions and hints -/

section

variable {before after word : List Char} {d r : String}

theorem mem_extensions_iff :
    (d, r) ∈ extensions word ↔ d ∈ completions ∧ r ≠ "" ∧ d.toList = word ++ r.toList := by
  simp only [extensions, List.mem_filterMap]
  constructor
  · rintro ⟨candidate, hmem, h⟩
    split at h
    next hpre =>
      obtain ⟨rfl, rfl⟩ := Prod.mk.inj (Option.some.inj h)
      rw [Bool.and_eq_true, decide_eq_true_eq, List.isPrefixOf_iff_prefix] at hpre
      obtain ⟨⟨rest, hrest⟩, hlen⟩ := hpre
      refine ⟨hmem, fun hempty => ?_, by simp [← hrest]⟩
      have := congrArg String.toList hempty
      simp at this
      omega
    · cases h
  · rintro ⟨hmem, hne, h⟩
    refine ⟨d, hmem, ?_⟩
    have hlen : 0 < r.toList.length := List.length_pos_iff.2 (by simpa using hne)
    rw [if_pos (by simp [h, hlen]), h, List.drop_left, String.ofList_toList]

theorem complete?_append :
    complete? (before ++ after) (byteLength before)
      = (lastWord? before).map fun word => if word.isEmpty then [] else extensions word := by
  rw [complete?, takeBytes?_append]

theorem hint?_append (h : after ≠ []) : hint? (before ++ after) (byteLength before) = some none := by
  rw [hint?, if_pos (by rw [byteLength_append]; have := byteLength_pos h; omega)]

theorem hint?_self :
    hint? before (byteLength before) = (lastWord? before).map fun word =>
      if byteLength word < 2 then none else (extensions word).head?.map fun e => Style.dimmed.apply e.2 := by
  rw [hint?, if_neg (Nat.lt_irrefl _)]

end

/-- At each boundary of a line, the text before it is cut into its longest end made of characters of words, and what
stands in front of that. If this is empty or ends in a character of one byte, the word starts where the longest end
does, every known word that goes on after it is offered with what it adds, and what the first of them adds is the
hint. If not, the start lies inside of a character, and there is no answer; only a hint inside of the line, which is
none, does not look at the word. -/
theorem completion_of_line (before after : List Char) :
    ∃ front word, before = front ++ word ∧ (∀ c ∈ word, isCompletable c = true) ∧
      (∀ w, w <:+ before → (∀ c ∈ w, isCompletable c = true) → w <:+ word) ∧
      wordStart before ≤ byteLength before ∧
      (IsBoundary (before ++ after) (wordStart before) ↔ EndsIn (·.utf8Size = 1) front) ∧
      ((complete? (before ++ after) (byteLength before)).isSome ↔ EndsIn (·.utf8Size = 1) front) ∧
      ((hint? (before ++ after) (byteLength before)).isSome ↔ after ≠ [] ∨ EndsIn (·.utf8Size = 1) front) ∧
      (EndsIn (·.utf8Size = 1) front → wordStart before = byteLength front ∧
        ∃ candidates, complete? (before ++ after) (byteLength before) = some candidates ∧
          (∀ d r, (d, r) ∈ candidates ↔
            word ≠ [] ∧ d ∈ completions ∧ r ≠ "" ∧ d.toList = word ++ r.toList) ∧
          (∀ d r, (d, r) ∈ candidates → front ++ d.toList = before ++ r.toList) ∧
          hint? (before ++ after) (byteLength before) = some
            (if after ≠ [] ∨ byteLength word < 2 then none
              else candidates.head?.map fun e => Style.dimmed.apply e.2)) := by
  obtain ⟨word, hsplit, hword⟩ := exists_eq_trimEnd_append isCompletable before
  have hf := endsIn_trimEnd isCompletable before
  generalize trimEnd isCompletable before = front at hsplit hf
  subst hsplit
  have hsome := isSome_lastWord?_iff hword hf
  refine ⟨front, word, rfl, hword, fun w hw h => suffix_of_forall hword hf h hw, wordStart_le hword hf,
    isBoundary_wordStart_iff hword hf after, by rw [complete?_append, Option.isSome_map, hsome], ?_, fun h => ?_⟩
  · by_cases hafter : after = []
    · rw [hafter, List.append_nil, hint?_self, Option.isSome_map, hsome]
      simp
    · rw [hint?_append hafter]
      simp [hafter]
  · -- every known word extends the empty word, but that is not completed
    have hmem : ∀ d r, (d, r) ∈ (if word.isEmpty then [] else extensions word) ↔
        word ≠ [] ∧ d ∈ completions ∧ r ≠ "" ∧ d.toList = word ++ r.toList := by
      intro d r
      cases word with
      | nil => simp
      | cons c word => exact mem_extensions_iff.trans (by simp)
    have hlast := lastWord?_eq_some hword hf h
    refine ⟨wordStart_eq hword hf h, _, by rw [complete?_append, hlast, Option.map_some], hmem, ?_, ?_⟩
    · intro d r hdr
      rw [((hmem d r).1 hdr).2.2.2, List.append_assoc]
    · by_cases hafter : after = []
      · rw [hafter, List.append_nil, hint?_self, hlast, Option.map_some]
        cases word with
        | nil => simp
        | cons c word => simp
      · rw [hint?_append hafter, if_pos (.inl hafter)]

/-- Behind a blank, a word starts where it should, and every completion stands there in its full length. -/
theorem completion_of_line_assigned :
    let line := "x = ty".toList
    wordStart line = 4 ∧ ∃ candidates, complete? line 6 = some candidates ∧
      ∀ d r, (d, r) ∈ candidates → "x = ".toList ++ d.toList = line ++ r.toList := by
  obtain ⟨front, word, hsplit, -, -, -, -, hsome, -, hstarts⟩ := completion_of_line "x = ty".toList []
  obtain ⟨hstart, candidates, hcs, -, hshown, -⟩ := hstarts (hsome.1 (by decide +kernel))
  have hfour : wordStart "x = ty".toList = 4 := by decide
  have hfront : some front = some "x = ".toList := by
    rw [← takeBytes?_append front word, ← hsplit, ← hstart, hfour]
    decide
  obtain rfl := Option.some.inj hfront
  exact ⟨hfour, candidates, hcs, hshown⟩

/-- In front of the word stands a character of three bytes, of which one is counted. -/
theorem wordStart_inside :
    let line := "€ty".toList
    takeBytes? 5 line = some line ∧ wordStart line = 1 ∧ ¬ IsBoundary line (wordStart line) ∧
      complete? line 5 = none ∧ hint? line 5 = none := by
  have hstart : wordStart "€ty".toList = 1 := by decide +kernel
  refine ⟨by decide +kernel, hstart, ?_, by decide +kernel, by decide +kernel⟩
  rw [hstart]
  exact fun h => absurd (isBoundary_cons_one_iff.1 h) (by decide)

end Scriptlet
