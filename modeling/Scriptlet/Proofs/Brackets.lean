import Scriptlet.Proofs.Nesting

/-!
# Brackets that are left open

The texts that close all they open are generated by a grammar (`Balanced`): characters that are no brackets, strings
up to the next quote of their sort, and bracketed texts. A text `LeavesOpen` brackets, and perhaps a string, if it is
made of such texts with open brackets between them. Each text either does so or `Mismatches` a closing bracket
(`not_mismatches_iff`), one character after the other, and the brackets left open are the stack with which the rest is
read (`isBalanced_append_of_leavesOpen`). So only what closes them all balances the entry.
-/

namespace Scriptlet

open Console

/-! ### Balanced texts -/

/-- The texts that close all brackets and strings that they open, as a grammar. -/
inductive Balanced : List Char → Prop where
  | nil : Balanced []
  | plain {c : Char} {x : List Char} : isPlain c = true → Balanced x → Balanced (c :: x)
  | string {q : Char} {body x : List Char} : isQuote q = true → q ∉ body → Balanced x →
      Balanced (q :: body ++ q :: x)
  | brackets {o c : Char} {x y : List Char} : closer? o = some c → Balanced x → Balanced y →
      Balanced (o :: x ++ c :: y)

namespace Balanced

variable {x y : List Char} {c o q : Char}

theorem append (hx : Balanced x) (hy : Balanced y) : Balanced (x ++ y) := by
  induction hx with
  | nil => exact hy
  | plain hc _ ih => exact .plain hc ih
  | string hq hbody _ ih => rw [List.append_assoc]; exact .string hq hbody ih
  | brackets ho hx _ _ ih => rw [List.append_assoc]; exact .brackets ho hx ih

theorem singleton (hc : isPlain c = true) : Balanced [c] := .plain hc .nil

/-- Reading a balanced text leaves the open brackets as they were. -/
theorem nested (h : Balanced x) : Nested x := by
  induction h with
  | nil => exact nested_nil
  | plain hc _ ih => exact fun stack t => (closes_plain hc stack _).trans (ih stack t)
  | string hq hbody _ ih => simpa using (nested_string hq hbody).append ih
  | brackets ho _ _ ihx ihy => simpa using (nested_brackets ho ihx).append ihy

end Balanced

/-! ### What a text leaves open -/

/-- The text is made of balanced texts with open brackets between them, which the given brackets close, innermost
first. -/
inductive LeavesBrackets : List Char → List Char → Prop where
  | balanced {x : List Char} : Balanced x → LeavesBrackets x []
  | bracket {o c : Char} {x y ks : List Char} : LeavesBrackets x ks → closer? o = some c → Balanced y →
      LeavesBrackets (x ++ o :: y) (c :: ks)

/-- The text leaves open the brackets that the given ones close, and behind them the string that the quote opened, if
there is one. -/
def LeavesOpen (x ks : List Char) : Option Char → Prop
  | none => LeavesBrackets x ks
  | some q => isQuote q = true ∧ ∃ y body, x = y ++ q :: body ∧ LeavesBrackets y ks ∧ q ∉ body

/-- Outside of strings the text has a closing bracket that is not the one of the innermost open bracket. -/
def Mismatches (x : List Char) : Prop :=
  ∃ y ks c z, x = y ++ c :: z ∧ LeavesOpen y ks none ∧ isCloser c = true ∧ ks.head? ≠ some c

section

variable {x y t ks : List Char} {c : Char} {quote : Option Char}

theorem LeavesBrackets.append (h : LeavesBrackets x ks) (hy : Balanced y) : LeavesBrackets (x ++ y) ks := by
  cases h with
  | balanced hx => exact .balanced (hx.append hy)
  | bracket hx ho hz => rw [List.append_assoc]; exact .bracket hx ho (hz.append hy)

/-- The bracket that closes the innermost open one. -/
theorem LeavesBrackets.close (h : LeavesBrackets x (c :: ks)) : LeavesBrackets (x ++ [c]) ks := by
  cases h with
  | bracket hx ho hy =>
    rw [List.append_assoc]
    exact hx.append (.brackets ho hy .nil)

theorem LeavesBrackets.append_closers (h : LeavesBrackets x ks) : Balanced (x ++ ks) := by
  induction ks generalizing x with
  | nil => cases h with | balanced hx => rwa [List.append_nil]
  | cons c ks ih => rw [List.append_cons]; exact ih h.close

/-- The quote of the open string and the closing brackets complete a text. -/
theorem LeavesOpen.completed (h : LeavesOpen x ks quote) : Balanced (x ++ (quote.toList ++ ks)) := by
  cases quote with
  | none => exact LeavesBrackets.append_closers h
  | some q =>
    obtain ⟨hq, y, body, rfl, hy, hbody⟩ := h
    simpa using (hy.append (.string hq hbody .nil)).append_closers

theorem LeavesBrackets.isCloser (h : LeavesBrackets x ks) : ∀ c ∈ ks, ∃ o, closer? o = some c := by
  induction h with
  | balanced => exact fun _ h => by cases h
  | bracket _ ho _ ih => exact List.forall_mem_cons.2 ⟨⟨_, ho⟩, ih⟩

theorem LeavesOpen.isCloser (h : LeavesOpen x ks quote) : ∀ c ∈ ks, ∃ o, closer? o = some c := by
  cases quote with
  | none => exact LeavesBrackets.isCloser h
  | some q =>
    obtain ⟨-, _, _, -, h, -⟩ := h
    exact h.isCloser

theorem Mismatches.append (h : Mismatches x) (t : List Char) : Mismatches (x ++ t) := by
  obtain ⟨y, ks, c, z, rfl, hy⟩ := h
  exact ⟨y, ks, c, z ++ t, by simp, hy⟩

/-- One character more: it closes or opens something, or it is a mismatch. -/
theorem LeavesOpen.next (h : LeavesOpen x ks quote) (c : Char) :
    (∃ ks' quote', LeavesOpen (x ++ [c]) ks' quote') ∨ Mismatches (x ++ [c]) := by
  cases quote with
  | some q =>
    obtain ⟨hq, y, body, rfl, hy, hbody⟩ := h
    by_cases hc : c = q
    · refine .inl ⟨ks, none, ?_⟩
      rw [List.append_assoc, hc]
      exact LeavesBrackets.append hy (.string hq hbody .nil)
    · refine .inl ⟨ks, some q, hq, y, body ++ [c], by simp, hy, fun hmem => ?_⟩
      rcases List.mem_append.1 hmem with hmem | hmem
      · exact hbody hmem
      · exact hc (List.mem_singleton.1 hmem).symm
  | none =>
    by_cases hq : isQuote c = true
    · exact .inl ⟨ks, some c, hq, x, [], rfl, h, List.not_mem_nil⟩
    cases ho : closer? c with
    | some k => exact .inl ⟨k :: ks, none, .bracket h ho .nil⟩
    | none =>
      by_cases hk : Console.isCloser c = true
      · by_cases hhead : ks.head? = some c
        · obtain ⟨ks, rfl⟩ := List.head?_eq_some_iff.1 hhead
          exact .inl ⟨ks, none, LeavesBrackets.close h⟩
        · exact .inr ⟨x, ks, c, [], rfl, h, hk, hhead⟩
      · have hplain : isPlain c = true := by simp [isPlain, hq, ho, hk]
        exact .inl ⟨ks, none, LeavesBrackets.append h (.singleton hplain)⟩

theorem leavesOpen_or_mismatches (x : List Char) : (∃ ks quote, LeavesOpen x ks quote) ∨ Mismatches x := by
  induction x using List.reverseRecOn with
  | nil => exact .inl ⟨[], none, .balanced .nil⟩
  | append_singleton x c ih =>
    rcases ih with ⟨ks, quote, h⟩ | h
    · exact h.next c
    · exact .inr (h.append [c])

/-! ### Reading on -/

theorem LeavesBrackets.closes (h : LeavesBrackets x ks) (stack t : List Char) :
    closes stack none (x ++ t) = closes (ks ++ stack) none t := by
  induction h generalizing t with
  | balanced hx => exact hx.nested stack t
  | bracket _ ho hy ih => rw [List.append_assoc, ih, List.cons_append, closes_opener ho, hy.nested, List.cons_append]

theorem closes_in_string {q : Char} {body : List Char} (h : q ∉ body) (stack t : List Char) :
    closes stack (some q) (body ++ t) = closes stack (some q) t := by
  induction body with
  | nil => rfl
  | cons c body ih =>
    simp only [List.mem_cons, not_or] at h
    rw [List.cons_append, Console.closes, if_neg (Ne.symm h.1), ih h.2]

/-- What is left open is what the rest of an entry is read with. -/
theorem isBalanced_append_of_leavesOpen (h : LeavesOpen x ks quote) (t : List Char) :
    isBalanced (x ++ t) = closes ks quote t := by
  cases quote with
  | none =>
    rw [isBalanced, LeavesBrackets.closes h, List.append_nil]
  | some q =>
    obtain ⟨hq, y, body, rfl, hy, hbody⟩ := h
    rw [List.append_assoc, isBalanced, hy.closes, List.append_nil, List.cons_append]
    simp only [Console.closes, hq, if_true]
    exact closes_in_string hbody ks t

theorem closes_mismatch (hc : isCloser c = true) (hhead : ks.head? ≠ some c) : closes ks none (c :: t) = true := by
  have hother : isQuote c = false ∧ closer? c = none := by
    simp only [Console.isCloser, Bool.or_eq_true, beq_iff_eq] at hc
    rcases hc with (rfl | rfl) | rfl <;> decide
  cases ks with
  | nil => simp [Console.closes, hother, hc]
  | cons k ks =>
    have hne : k ≠ c := fun h => hhead (by rw [h]; rfl)
    simp [Console.closes, hother, hc, hne]

/-- Behind a mismatch nothing counts. -/
theorem Mismatches.isBalanced_append (h : Mismatches x) (t : List Char) : isBalanced (x ++ t) = true := by
  obtain ⟨y, ks, c, z, rfl, hy, hc, hhead⟩ := h
  rw [List.append_assoc, isBalanced_append_of_leavesOpen hy, List.cons_append]
  exact closes_mismatch hc hhead

/-- Closing brackets close the innermost of the open ones. -/
theorem closes_closers (h : ∀ c ∈ ks, ∃ o, closer? o = some c) (stack t : List Char) :
    closes (ks ++ stack) none (ks ++ t) = closes stack none t := by
  induction ks with
  | nil => rfl
  | cons c ks ih =>
    obtain ⟨⟨o, ho⟩, hks⟩ := List.forall_mem_cons.1 h
    rw [List.cons_append, List.cons_append, closes_closer ho, ih hks]

/-- Of the beginnings of what closes all that is open, only the whole of it does so. -/
theorem closes_beginning {p : List Char} (hks : ∀ c ∈ ks, ∃ o, closer? o = some c)
    (hp : p <+: quote.toList ++ ks) : closes ks quote p = true ↔ p = quote.toList ++ ks := by
  have hbrackets : ∀ p, p <+: ks → (closes ks none p = true ↔ p = ks) := by
    rintro p ⟨rest, rfl⟩
    have hp : ∀ c ∈ p, ∃ o, closer? o = some c := fun c hc => hks c (List.mem_append_left rest hc)
    have hread := closes_closers hp rest []
    rw [List.append_nil] at hread
    rw [hread]
    simp [Console.closes]
  cases quote with
  | none => exact hbrackets p hp
  | some q =>
    rcases List.prefix_cons_iff.1 hp with rfl | ⟨p, rfl, hrest⟩
    · simp [Console.closes]
    · simpa [Console.closes] using hbrackets p hrest

/-- A text leaves something open, or nothing, exactly if it has no mismatch. -/
theorem not_mismatches_iff : ¬ Mismatches x ↔ ∃ ks quote, LeavesOpen x ks quote := by
  constructor
  · exact (leavesOpen_or_mismatches x).resolve_right
  · rintro ⟨ks, quote, h⟩ hm
    -- an open bracket behind the text shows the difference
    have hopen : closes ks quote (quote.toList ++ ['(']) = true := by
      rw [← isBalanced_append_of_leavesOpen h]
      exact hm.isBalanced_append _
    cases quote <;> simp [Console.closes, isQuote, closer?] at hopen

end

/-- An entry goes on exactly if no closing bracket mismatches and a bracket or a string is left open. What completes
it is the quote of the open string and then the closing brackets, the innermost first, and no less. Once a closing
bracket mismatches, the entry is taken for closed whatever follows. -/
theorem isBalanced_completion (line : List Char) :
    (¬ Mismatches line ↔ ∃ ks quote, LeavesOpen line ks quote) ∧
    (isBalanced line = false ↔
      ¬ Mismatches line ∧ ∃ ks quote, LeavesOpen line ks quote ∧ (ks ≠ [] ∨ quote ≠ none)) ∧
    (∀ ks quote, LeavesOpen line ks quote →
      Balanced (line ++ (quote.toList ++ ks)) ∧ isBalanced (line ++ (quote.toList ++ ks)) = true ∧
      ∀ p, p <+: quote.toList ++ ks → p ≠ quote.toList ++ ks → isBalanced (line ++ p) = false) ∧
    (Mismatches line → ∀ t, isBalanced (line ++ t) = true) := by
  have hread : ∀ ks quote, LeavesOpen line ks quote → ∀ p, p <+: quote.toList ++ ks →
      (isBalanced (line ++ p) = true ↔ p = quote.toList ++ ks) := by
    intro ks quote h p hp
    rw [isBalanced_append_of_leavesOpen h]
    exact closes_beginning h.isCloser hp
  refine ⟨not_mismatches_iff, ⟨fun h => ?_, ?_⟩, fun ks quote h => ⟨?_, ?_, fun p hp hne => ?_⟩,
    fun h => h.isBalanced_append⟩
  · have hm : ¬ Mismatches line := by
      intro hm
      have hb := hm.isBalanced_append []
      rw [List.append_nil, h] at hb
      cases hb
    obtain ⟨ks, quote, hopen⟩ := not_mismatches_iff.1 hm
    refine ⟨hm, ks, quote, hopen, ?_⟩
    by_contra hnone
    obtain ⟨rfl, rfl⟩ : ks = [] ∧ quote = none := by simpa using hnone
    have hb := (hread [] none hopen [] List.nil_prefix).2 rfl
    rw [List.append_nil, h] at hb
    cases hb
  · rintro ⟨-, ks, quote, hopen, hsome⟩
    refine Bool.eq_false_iff.2 fun hb => ?_
    have hnil := (hread ks quote hopen [] List.nil_prefix).1 (by rwa [List.append_nil])
    obtain ⟨hq, rfl⟩ := List.append_eq_nil_iff.1 hnil.symm
    rcases hsome with h | h
    · exact h rfl
    · exact h (by simpa using hq)
  · exact h.completed
  · exact (hread ks quote h _ List.prefix_rfl).2 rfl
  · exact Bool.eq_false_iff.2 fun hb => hne ((hread ks quote h p hp).1 hb)

/-- A string is open behind two brackets of different sorts; the bracket in front of it counts, those in it do not. -/
theorem isBalanced_completion_string :
    isBalanced "f([')".toList = false ∧ isBalanced "f([')'])".toList = true ∧
      isBalanced "f([')']".toList = false ∧ ∀ t, isBalanced ("f(]".toList ++ t) = true := by
  have hf : LeavesBrackets ['f'] [] := .balanced (.singleton (by decide))
  have hparen : LeavesBrackets ['f', '('] [')'] := .bracket (o := '(') (y := []) hf rfl .nil
  have hopen : LeavesOpen "f([')".toList [']', ')'] (some '\'') :=
    ⟨rfl, ['f', '(', '['], [')'], rfl, .bracket (o := '[') (y := []) hparen rfl .nil, by decide⟩
  have hmismatch : Mismatches "f(]".toList := ⟨['f', '('], [')'], ']', [], rfl, hparen, rfl, by decide⟩
  have hentry := isBalanced_completion "f([')".toList
  have hcompletion := hentry.2.2.1 _ _ hopen
  refine ⟨hentry.2.1.2 ⟨hentry.1.2 ⟨_, _, hopen⟩, _, _, hopen, .inl nofun⟩, hcompletion.2.1, ?_, ?_⟩
  · exact hcompletion.2.2 ['\'', ']'] ⟨[')'], rfl⟩ (by decide)
  · exact (isBalanced_completion "f(]".toList).2.2.2 hmismatch

end Scriptlet
