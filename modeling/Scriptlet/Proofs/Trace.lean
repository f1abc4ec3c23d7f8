import Scriptlet.Proofs.Moves
import Scriptlet.Proofs.Soundness
import Scriptlet.Proofs.Truncation

/-!
# The tokens that a parser took

A cursor keeps the tokens that were taken on the way to it. Each was the next token of the text behind those
before it (`Trace`), so the tokens taken determine the text that is left (`Cursor.Tracked`).

An `Insertion` writes blanks into a source behind some of the tokens of a trace. Behind the blanks the text is
as it was; before them, it is the old text with the blanks in it (`Insertion.widen`). `widen_sees` says that
the next token of such a text is the one of the old text, of the same kind, and that only a token that stands
right behind the blanks can have a line end before it that it had not. The place of the blanks is known only
by what is taken later on, so the statement needs an outlook on these tokens: a text that starts with a slash
must not be looked at as the start of a regular expression and then be read as a division.
-/

namespace Scriptlet

open Text Token

/-- The text behind the tokens taken from a source, the last one first. -/
def restBehind (source : List Char) : List Lookahead → List Char
  | [] => source
  | l :: _ => l.rest

/-- Each of the tokens was the next one behind those taken before it. -/
inductive Trace (source : List Char) : List Lookahead → Prop where
  | nil : Trace source []
  | cons {l : Lookahead} {taken : List Lookahead} :
      Sees l.mode (restBehind source taken) l.token.kind l.lineBreak l.rest → Trace source taken →
      Trace source (l :: taken)

namespace Trace

variable {source : List Char} {taken earlier : List Lookahead} {l : Lookahead}

theorem of_suffix (h : Trace source taken) (hs : earlier <:+ taken) : Trace source earlier := by
  obtain ⟨front, rfl⟩ := hs
  induction front with
  | nil => exact h
  | cons l front ih =>
    cases h with
    | cons _ h => exact ih h

theorem sees (h : Trace source taken) (hl : (l :: earlier) <:+ taken) :
    Sees l.mode (restBehind source earlier) l.token.kind l.lineBreak l.rest := by
  cases h.of_suffix hl with
  | cons hs _ => exact hs

/-- The text behind more tokens is an end of the text behind fewer. -/
theorem restBehind_suffix (h : Trace source taken) (hs : earlier <:+ taken) :
    restBehind source taken <:+ restBehind source earlier := by
  obtain ⟨front, rfl⟩ := hs
  induction front with
  | nil => exact List.suffix_refl _
  | cons l front ih =>
    cases h with
    | cons hsees h => exact hsees.rest_suffix.trans (ih h)

end Trace

namespace Cursor

variable {source : List Char} {c c' : Cursor}

/-- The cursor stands behind the tokens that it took. -/
structure Tracked (source : List Char) (c : Cursor) : Prop where
  rest : c.rest = restBehind source c.consumed
  trace : Trace source c.consumed
  coherent : c.Coherent

theorem start_tracked (source : List Char) : (start source).Tracked source :=
  ⟨rfl, .nil, coherent_of_none rfl⟩

theorem Step.tracked (hs : Step c c') (hc : c.Tracked source) : c'.Tracked source := by
  cases hs with
  | look hl => exact ⟨hc.rest, hc.trace, coherent_of_lookAhead hl⟩
  | take hl =>
    have hsees := (lookAhead_sees (hc.coherent _ hl)).2
    rw [hc.rest] at hsees
    exact ⟨rfl, .cons hsees hc.trace, coherent_of_none rfl⟩

theorem Moves.tracked (hm : c.Moves c') (hc : c.Tracked source) : c'.Tracked source := by
  induction hm with
  | refl => exact hc
  | tail _ hs ih => exact hs.tracked ih

end Cursor

/-! ### Slashes -/

/-- Whether a token is read from a slash where an operator is expected. -/
def Token.Kind.isSlash : Kind → Bool
  | .punct .slash | .punct .slashEqual => true
  | _ => false

section Slashes

variable {mode : Mode} {cs : List Char} {k : Kind} {n : Nat}

theorem Token.rule?_slash (h : rule? mode cs = some (k, n)) (hk : k.isSlash = true) :
    n ≤ 2 ∧ ∃ ds, cs = '/' :: ds := by
  have hlen : (cs.take n).length = n :=
    List.length_take_of_le (rule?_append (t := []) (by simp [Detached]) h).2
  have htext : cs.take n = ['/'] ∨ cs.take n = ['/', '='] := by
    unfold Kind.isSlash at hk
    split at hk
    · exact .inl (rule?_punct h)
    · exact .inr (rule?_punct h)
    · cases hk
  have happ := List.take_append_drop n cs
  rcases htext with ht | ht
  all_goals
    rw [ht] at hlen happ
    exact ⟨by simp at hlen; omega, _, happ.symm⟩

theorem Token.rule?_operand_slash {ds : List Char} (h : rule? .operand ('/' :: ds) = some (k, n)) :
    2 ≤ n ∧ ∃ pattern flags, k = .regExp pattern flags := by
  obtain ⟨m, -, he⟩ := Option.map_eq_some_iff.1 (show regExp? ds = some (k, n) from h)
  cases he
  exact ⟨by omega, _, _, rfl⟩

end Slashes

namespace Sees

variable {mode : Mode} {cs rest rest' : List Char} {k k' : Kind} {lb lb' : Bool} {l : Lookahead}

theorem blank_of_eof (h : Sees mode cs .eof lb rest) :
    lb = cs.any isLineEnd ∧ ∀ c ∈ cs, isBlank c = true := by
  rcases h.shape with ⟨-, -, hlb, hblank⟩ | ⟨gap, body, n, -, -, -, hr, -, -⟩
  · exact ⟨hlb, hblank⟩
  · exact absurd rfl (rule?_kind hr).2

/-- Where an operand is expected, a slash opens a regular expression, which is longer than an operator. -/
theorem regExp_of_slash (h : Sees mode cs k lb rest) (hk : k.isSlash = true)
    (h' : Sees .operand cs k' lb' rest') :
    rest' <:+ rest ∧ ∃ pattern flags, k' = .regExp pattern flags := by
  simp only [Sees, ahead?] at h h'
  split at h
  · cases h; cases hk
  next he =>
  rw [if_neg he] at h'
  obtain ⟨⟨k₁, n⟩, hr, heq⟩ := Option.map_eq_some_iff.1 h
  obtain ⟨⟨k₂, n'⟩, hr', heq'⟩ := Option.map_eq_some_iff.1 h'
  cases heq
  cases heq'
  obtain ⟨hn, ds, hds⟩ := rule?_slash hr hk
  rw [hds] at hr'
  obtain ⟨hn', hregExp⟩ := rule?_operand_slash hr'
  refine ⟨?_, hregExp⟩
  obtain ⟨d, rfl⟩ := Nat.exists_eq_add_of_le (Nat.le_trans hn hn')
  rw [← List.drop_drop]
  exact List.drop_suffix _ _

theorem isSlash_of_operand (h : Sees .operand cs k lb rest) : k.isSlash = false := by
  cases hk : k.isSlash with
  | false => rfl
  | true =>
    obtain ⟨-, pattern, flags, rfl⟩ := h.regExp_of_slash hk h
    cases hk

theorem operand_of_isSlash (h : Sees .operator cs k lb rest) (hk : k.isSlash = false) :
    Sees .operand cs k lb rest :=
  h.operand_of_operator (by rintro rfl; cases hk) (by rintro rfl; cases hk)

/-- A token seen ends no later than the one that is taken in its place. -/
theorem rest_suffix_of_taken (h : Sees mode cs k lb rest)
    (hl : Sees l.mode cs l.token.kind l.lineBreak l.rest)
    (hslash : mode = .operand → l.token.kind.isSlash = false) : l.rest <:+ rest := by
  match mode, hm : l.mode with
  | .operand, .operand | .operator, .operator =>
    rw [hm] at hl
    rw [(h.unique hl).2.2]
  | .operand, .operator =>
    rw [hm] at hl
    rw [(h.unique (hl.operand_of_isSlash (hslash rfl))).2.2]
  | .operator, .operand =>
    rw [hm] at hl
    cases hk : k.isSlash with
    | true => exact (h.regExp_of_slash hk hl).1
    | false => rw [((h.operand_of_isSlash hk).unique hl).2.2]

end Sees

/-! ### Blanks in a source -/

/-- Whether no line may end between a token and the one before it, if there is one: before an update that
follows its operand, and between a `return` and its value. -/
def Lookahead.sticksTo (l : Lookahead) (before : Option Lookahead) : Bool :=
  l.mode = .operator && l.token.kind.updateAfter?.isSome ||
    before.any (·.token.kind = .word .«return») && !l.token.kind.endsReturn l.lineBreak

/-- Blanks to be written into a source, between the tokens of a trace. -/
structure Insertion where
  source : List Char
  /-- The tokens that follow the blanks, the last one first. -/
  later : List Lookahead
  /-- The tokens that stand before the blanks, the last one first. -/
  earlier : List Lookahead
  trace : Trace source (later ++ earlier)
  blanks : List Char
  blank : ∀ c ∈ blanks, isBlank c = true
  free : blanks.any isLineEnd = true → ∀ l, (l :: earlier) <:+ later ++ earlier →
    l.sticksTo earlier.head? = false

/-- What is known of the tokens still to be taken, by the tokens taken so far. -/
abbrev Outlook := List Lookahead → Prop

namespace Insertion

variable (i : Insertion) {taken : List Lookahead} {l l' : Lookahead} {mode : Mode}

/-- All tokens taken from the source, the last one first. -/
def log : List Lookahead := i.later ++ i.earlier

/-- The text behind the blanks. -/
def after : List Char := restBehind i.source i.earlier

/-- The text behind some of the tokens, with the blanks in it. -/
def widen (taken : List Lookahead) : List Char :=
  let rest := restBehind i.source taken
  if taken.length ≤ i.earlier.length then rest.take (rest.length - i.after.length) ++ i.blanks ++ i.after
  else rest

/-- The next token is taken under the given expectation. -/
def Takes (mode : Mode) : Outlook := fun taken => ∃ l, (l :: taken) <:+ i.log ∧ l.mode = mode

/-- The next token is no slash. -/
def Clear : Outlook := fun taken => ∀ l, (l :: taken) <:+ i.log → l.token.kind.isSlash = false

variable {i}

theorem earlier_suffix_log : i.earlier <:+ i.log := List.suffix_append ..

theorem next_unique (h : (l :: taken) <:+ i.log) (h' : (l' :: taken) <:+ i.log) : l = l' := by
  have hle := List.suffix_of_suffix_length_le h h' (Nat.le_refl _)
  exact (List.cons.inj (hle.eq_of_length rfl)).1

theorem takes_le_clear : i.Takes .operand ≤ i.Clear := by
  rintro taken ⟨l, hl, hm⟩ l' hl'
  obtain rfl := next_unique hl hl'
  have hsees := i.trace.sees hl
  rw [hm] at hsees
  exact hsees.isSlash_of_operand

/-- A token that is no regular expression where an operand is expected is no slash. -/
theorem clear_of_sees {k : Kind} {lb : Bool} {rest : List Char}
    (hs : Sees .operand (restBehind i.source taken) k lb rest)
    (hk : ∀ pattern flags, k ≠ .regExp pattern flags) : i.Clear taken := by
  intro l hl
  cases hslash : l.token.kind.isSlash with
  | false => rfl
  | true =>
    obtain ⟨-, pattern, flags, he⟩ := (i.trace.sees hl).regExp_of_slash hslash hs
    exact absurd he (hk pattern flags)

theorem widen_before {x : List Char} (h : taken <:+ i.earlier)
    (hx : restBehind i.source taken = x ++ i.after) : i.widen taken = x ++ i.blanks ++ i.after := by
  have hlen : (x ++ i.after).length - i.after.length = x.length := by simp
  simp only [widen, hx, hlen, if_pos h.length_le, List.take_left]

theorem widen_behind (h : i.earlier.length < taken.length) : i.widen taken = restBehind i.source taken := by
  simp only [widen, if_neg (Nat.not_le.2 h)]

/-- The blanks stand behind, at or before a place. -/
theorem place_cases (h : taken <:+ i.log) :
    (∃ l, (l :: taken) <:+ i.earlier) ∨ taken = i.earlier ∨ i.earlier.length < taken.length := by
  rcases Nat.lt_or_ge i.earlier.length taken.length with hlt | hle
  · exact .inr (.inr hlt)
  obtain ⟨front, hfront⟩ := List.suffix_of_suffix_length_le h earlier_suffix_log hle
  rcases List.eq_nil_or_concat front with rfl | ⟨front, l, rfl⟩
  · exact .inr (.inl hfront)
  · exact .inl ⟨l, front, by simpa using hfront⟩

/-- A token of the source and the token at the same place of the text with blanks in it: only right behind the
blanks a line can have ended that did not end before. -/
def Alike (i : Insertion) (taken : List Lookahead) (k : Kind) (lb lb' : Bool) : Prop :=
  lb' = lb ∨ lb' = true ∧ (k = .eof ∨ taken = i.earlier ∧ i.blanks.any isLineEnd = true)

/-- The next token is seen in the text with blanks in it, too. -/
theorem widen_sees {k : Kind} {lb : Bool} {rest : List Char} (ht : taken <:+ i.log)
    (hs : Sees mode (restBehind i.source taken) k lb rest) (hclear : mode = .operand → i.Clear taken) :
    ∃ lb' rest', Sees mode (i.widen taken) k lb' rest' ∧ i.Alike taken k lb lb' ∧
      (k ≠ .eof → ∀ l, (l :: taken) <:+ i.log → l.rest = rest → rest' = i.widen (l :: taken)) := by
  rcases place_cases ht with ⟨l, hl⟩ | rfl | hlt
  -- the blanks follow a token `l` that is still to be taken, and what is seen ends no later than it
  · have hlog := hl.trans earlier_suffix_log
    have hafter : i.after <:+ rest := by
      have hsuffix := (i.trace.of_suffix earlier_suffix_log).restBehind_suffix hl
      exact hsuffix.trans (hs.rest_suffix_of_taken (i.trace.sees hlog) fun hm => hclear hm l hlog)
    obtain ⟨x, hx⟩ := hafter.trans hs.rest_suffix
    rw [widen_before ((List.suffix_cons l taken).trans hl) hx.symm]
    rw [← hx] at hs
    by_cases hk : k = .eof
    · subst hk
      obtain ⟨hlb, hblank⟩ := hs.blank_of_eof
      refine ⟨_, [], .eof fun c hc => ?_, ?_, fun h => absurd rfl h⟩
      · rcases List.mem_append.1 hc with hc | hc
        · rcases List.mem_append.1 hc with hc | hc
          · exact hblank c (List.mem_append_left _ hc)
          · exact i.blank c hc
        · exact hblank c (List.mem_append_right _ hc)
      · rw [hlb]
        cases hb : i.blanks.any isLineEnd with
        | false => exact .inl (by simp [hb])
        | true => exact .inr ⟨by simp [hb], .inl rfl⟩
    · obtain ⟨y, rfl, hsees⟩ := hs.widen hk hafter i.blank
      refine ⟨lb, _, hsees, .inl rfl, fun _ l' hl' hrest => ?_⟩
      obtain rfl := next_unique hl' hlog
      exact (widen_before hl hrest).symm
  -- the next token stands behind the blanks
  · rw [widen_before (List.suffix_refl _) (List.nil_append _).symm, List.nil_append]
    refine ⟨_, rest, hs.gap i.blank, ?_, fun _ l _ hrest => ?_⟩
    · cases hb : i.blanks.any isLineEnd with
      | false => exact .inl rfl
      | true => exact .inr ⟨rfl, .inr ⟨rfl, hb⟩⟩
    · rw [widen_behind (by simp), ← hrest, restBehind]
  · rw [widen_behind hlt]
    refine ⟨lb, rest, hs, .inl rfl, fun _ l _ hrest => ?_⟩
    rw [widen_behind (Nat.lt_succ_of_lt hlt), ← hrest, restBehind]

end Insertion

end Scriptlet
