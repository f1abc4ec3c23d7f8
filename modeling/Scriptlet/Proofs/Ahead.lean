import Scriptlet.Grammar.Cursor
import Scriptlet.Proofs.Boundary

/-!
# The next token of a text

What a parser sees ahead depends on the text behind its cursor and on what is expected there, and on
nothing else: `Sees mode cs k lb rest` says that the next token of `cs` has kind `k`, that `lb` tells
whether a line end stands before it, and that `rest` follows it. Blanks in front change at most the
flag (`Sees.blank`), a detached text behind changes nothing (`Sees.append`), and a semicolon appended
to a text takes the place of its end (`Sees.semicolon`). `Cursor.lookAhead` is this function with
offsets (`lookAhead_ok`, `lookAhead_error`).
-/

namespace Scriptlet

open Text Token

/-- The next token as the grammar knows it. -/
structure Ahead where
  kind : Kind
  /-- Whether a line end stands before the token. -/
  lineBreak : Bool
  /-- The text after the token. -/
  rest : List Char
  deriving DecidableEq

/-- The next token of a text; none if no lexical rule applies. -/
def ahead? (mode : Mode) (cs : List Char) : Option Ahead :=
  let newline := (cs.takeWhile isBlank).any isLineEnd
  let body := cs.dropWhile isBlank
  if body.isEmpty then some ⟨.eof, newline, []⟩
  else (rule? mode body).map fun (kind, n) => ⟨kind, newline, body.drop n⟩

/-- The next token of `cs` has kind `k`, and `rest` follows it. -/
def Sees (mode : Mode) (cs : List Char) (k : Kind) (lb : Bool) (rest : List Char) : Prop :=
  ahead? mode cs = some ⟨k, lb, rest⟩

theorem rule?_kind {mode : Mode} {cs : List Char} {k : Kind} {n : Nat}
    (h : rule? mode cs = some (k, n)) : k ≠ .lineBreak ∧ k ≠ .eof := by
  unfold rule? at h
  split at h
  · cases h
  split at h
  · simp only [string?] at h
    split at h
    · cases h; exact ⟨Kind.noConfusion, Kind.noConfusion⟩
    · cases h
  split at h
  · obtain ⟨m, _, he⟩ := Option.map_eq_some_iff.1 h
    cases he; exact ⟨Kind.noConfusion, Kind.noConfusion⟩
  split at h
  · unfold number? at h
    split at h
    · split at h
      · cases h
      · cases h; exact ⟨Kind.noConfusion, Kind.noConfusion⟩
    · cases h
  split at h
  · simp only [wordOrName, Option.some.injEq, Prod.mk.injEq] at h
    rw [← h.1]
    unfold Kind.ofWord?
    split <;> exact ⟨Kind.noConfusion, Kind.noConfusion⟩
  · obtain ⟨p, rfl, -⟩ := punctuator?_eq_some_iff.1 h
    exact ⟨Kind.noConfusion, Kind.noConfusion⟩

theorem rule?_operand {cs : List Char} {k : Kind} {n : Nat} (h : rule? .operator cs = some (k, n))
    (h₁ : k ≠ .punct .slash) (h₂ : k ≠ .punct .slashEqual) : rule? .operand cs = some (k, n) := by
  cases cs with
  | nil => cases h
  | cons c cs =>
    by_cases hc : c = '/'
    · subst hc
      have hname : isNameStart '/' = false := by decide
      simp only [rule?, startsNumber, hname] at h
      change punctuator? ('/' :: cs) = some (k, n) at h
      obtain ⟨p, rfl, rfl, hp⟩ := punctuator?_eq_some_iff.1 h
      obtain ⟨d, ds, hds⟩ := List.exists_cons_of_ne_nil (Punct.spelling_ne_nil p)
      have hpre := hp.isPrefix
      rw [hds, List.cons_prefix_cons] at hpre
      have hslash : p.spelling.toList.head? = some '/' := by rw [hds, hpre.1]; rfl
      cases p <;> first | exact absurd rfl h₁ | exact absurd rfl h₂ | cases hslash
    · unfold rule? at h ⊢
      simpa [hc] using h

namespace Sees

variable {mode : Mode} {cs rest : List Char} {k : Kind} {lb : Bool}

/-- A text has one next token. -/
theorem unique {k' : Kind} {lb' : Bool} {rest' : List Char} (h : Sees mode cs k lb rest)
    (h' : Sees mode cs k' lb' rest') : k = k' ∧ lb = lb' ∧ rest = rest' := by
  cases Option.some.inj (h.symm.trans h')
  exact ⟨rfl, rfl, rfl⟩

theorem eof {gap : List Char} (hg : ∀ c ∈ gap, isBlank c = true) :
    Sees mode gap .eof (gap.any isLineEnd) [] := by
  have ht : gap.takeWhile isBlank = gap := by
    have : (gap ++ []).takeWhile isBlank = _ := List.takeWhile_append_of_pos hg
    simpa using this
  have hd : gap.dropWhile isBlank = [] := by
    have : (gap ++ []).dropWhile isBlank = _ := List.dropWhile_append_of_pos hg
    simpa using this
  simp [Sees, ahead?, ht, hd]

theorem token {gap body : List Char} {n : Nat} (hg : ∀ c ∈ gap, isBlank c = true)
    (hb : ∀ c ∈ body.head?, isBlank c = false) (h : rule? mode body = some (k, n)) :
    Sees mode (gap ++ body) k (gap.any isLineEnd) (body.drop n) := by
  cases body with
  | nil => cases h
  | cons c body =>
    have hc : isBlank c = false := hb c (by simp)
    simp [Sees, ahead?, List.takeWhile_append_of_pos hg, List.dropWhile_append_of_pos hg, hc, h]

/-- Either the text is blank, or a token stands behind its blanks. -/
theorem shape (h : Sees mode cs k lb rest) :
    (k = .eof ∧ rest = [] ∧ lb = cs.any isLineEnd ∧ ∀ c ∈ cs, isBlank c = true) ∨
    ∃ gap body n, cs = gap ++ body ∧ (∀ c ∈ gap, isBlank c = true) ∧
      (∀ c ∈ body.head?, isBlank c = false) ∧ rule? mode body = some (k, n) ∧
      lb = gap.any isLineEnd ∧ rest = body.drop n := by
  have happ : cs.takeWhile isBlank ++ cs.dropWhile isBlank = cs := List.takeWhile_append_dropWhile
  have hg : ∀ c ∈ cs.takeWhile isBlank, isBlank c = true := fun c hc => by
    have := List.all_takeWhile (p := isBlank) (l := cs)
    exact List.all_eq_true.1 this c hc
  simp only [Sees, ahead?] at h
  split at h
  next he =>
    cases h
    rw [List.isEmpty_iff.1 he, List.append_nil] at happ
    rw [happ] at hg ⊢
    exact .inl ⟨rfl, rfl, rfl, hg⟩
  next he =>
    obtain ⟨⟨k', n⟩, hr, heq⟩ := Option.map_eq_some_iff.1 h
    cases heq
    refine .inr ⟨_, _, n, happ.symm, hg, fun c hc => ?_, hr, rfl, rfl⟩
    have := List.head?_dropWhile_not isBlank cs
    rw [Option.mem_def.1 hc] at this
    simpa using this

/-- Blanks before a token only count for the line ends among them. -/
theorem blank {c : Char} (hc : isBlank c = true) (h : Sees mode cs k lb rest) :
    Sees mode (c :: cs) k (isLineEnd c || lb) rest := by
  rcases h.shape with ⟨rfl, rfl, rfl, hcs⟩ | ⟨gap, body, n, rfl, hg, hb, hr, rfl, rfl⟩
  · exact @eof mode (c :: cs) (by simpa [hc] using hcs)
  · exact @token _ _ (c :: gap) _ _ (by simpa [hc] using hg) hb hr

theorem of_blank {c : Char} (hc : isBlank c = true) (h : Sees mode (c :: cs) k lb rest) :
    ∃ lb', Sees mode cs k lb' rest := by
  rcases h.shape with ⟨rfl, rfl, -, hcs⟩ | ⟨gap, body, n, happ, hg, hb, hr, -, rfl⟩
  · exact ⟨_, eof (List.forall_mem_cons.1 hcs).2⟩
  · cases gap with
    | nil =>
      rw [List.nil_append] at happ
      rw [hb c (by rw [← happ]; rfl)] at hc
      cases hc
    | cons d gap =>
      cases happ
      exact ⟨_, token (List.forall_mem_cons.1 hg).2 hb hr⟩

theorem gap {gap : List Char} (hg : ∀ c ∈ gap, isBlank c = true) (h : Sees mode cs k lb rest) :
    Sees mode (gap ++ cs) k (gap.any isLineEnd || lb) rest := by
  induction gap with
  | nil => exact h
  | cons c gap ih =>
    obtain ⟨hc, hgap⟩ := List.forall_mem_cons.1 hg
    have := (ih hgap).blank hc
    rwa [← Bool.or_assoc] at this

/-- What follows a token does not change it, if it is detached. -/
theorem append {t : List Char} (ht : Detached t) (hk : k ≠ .eof) (h : Sees mode cs k lb rest) :
    Sees mode (cs ++ t) k lb (rest ++ t) := by
  rcases h.shape with ⟨rfl, -⟩ | ⟨gap, body, n, rfl, hg, hb, hr, rfl, rfl⟩
  · exact absurd rfl hk
  obtain ⟨hr', hn⟩ := rule?_append ht hr
  rw [List.append_assoc, ← List.drop_append_of_le_length hn]
  refine token hg (fun c hc => hb c ?_) hr'
  cases body with
  | nil => cases hr
  | cons => exact hc

/-- At the end of a text, an appended semicolon is the next token. -/
theorem semicolon (t : List Char) (h : Sees mode cs .eof lb rest) :
    Sees mode (cs ++ ';' :: t) (.punct .semicolon) lb t := by
  rcases h.shape with ⟨-, rfl, rfl, hcs⟩ | ⟨gap, body, n, rfl, hg, hb, hr, rfl, rfl⟩
  · refine @token _ _ cs (';' :: t) 1 hcs (fun c hc => ?_) ?_
    · cases hc; exact isBlank_semicolon
    · have hp : punctuator? (';' :: t) = some (.punct .semicolon, 1) := by
        simp [punctuator?, Punct.scan?, Punct.reader?]
      cases mode <;> simp [rule?, startsNumber, isNameStart, hp]
  · exact absurd rfl (rule?_kind hr).2

/-- Only a slash is seen in two ways. -/
theorem operand_of_operator (h : Sees .operator cs k lb rest) (h₁ : k ≠ .punct .slash)
    (h₂ : k ≠ .punct .slashEqual) : Sees .operand cs k lb rest := by
  rcases h.shape with ⟨rfl, rfl, rfl, hcs⟩ | ⟨gap, body, n, rfl, hg, hb, hr, rfl, rfl⟩
  · exact eof hcs
  · exact token hg hb (rule?_operand hr h₁ h₂)

theorem rest_length_le (h : Sees mode cs k lb rest) : rest.length ≤ cs.length := by
  rcases h.shape with ⟨-, rfl, -⟩ | ⟨gap, body, n, rfl, -, -, -, -, rfl⟩
  · simp
  · rw [List.length_append, List.length_drop]; omega

/-- Every token but the end of the text takes at least one character. -/
theorem rest_length_lt (hk : k ≠ .eof) (h : Sees mode cs k lb rest) : rest.length < cs.length := by
  rcases h.shape with ⟨rfl, -⟩ | ⟨gap, body, n, rfl, -, -, hr, -, rfl⟩
  · exact absurd rfl hk
  have hn := rule?_pos hr
  have hb : 0 < body.length := List.length_pos_iff.2 fun h0 => by rw [h0] at hr; cases hr
  rw [List.length_append, List.length_drop]
  omega

end Sees

namespace Cursor

variable {c : Cursor} {mode : Mode}

/-- Behind the blanks of a text no blank follows. -/
theorem blanks_dropWhile (cs : List Char) :
    (cs.dropWhile isBlank).takeWhile isBlank = [] ∧
      (cs.dropWhile isBlank).dropWhile isBlank = cs.dropWhile isBlank := by
  have h := List.head?_dropWhile_not isBlank cs
  cases hd : cs.dropWhile isBlank with
  | nil => exact ⟨rfl, rfl⟩
  | cons c body =>
    rw [hd] at h
    have hc : isBlank c = false := by simpa using h
    simp [hc]

/-- Looking ahead finds what the text shows. -/
theorem lookAhead_ok {a : Ahead} (h : ahead? mode c.rest = some a) :
    ∃ l, c.lookAhead mode = .ok l ∧ l.token.kind = a.kind ∧ l.lineBreak = a.lineBreak ∧
      l.rest = a.rest ∧ l.mode = mode := by
  obtain ⟨hb1, hb2⟩ := blanks_dropWhile c.rest
  simp only [ahead?] at h
  simp only [lookAhead, scanAt, scan]
  by_cases hl : (c.rest.takeWhile isBlank).any isLineEnd = true
  · simp only [hl, ↓reduceIte, hb1, hb2, List.any_nil, Bool.false_eq_true] at h ⊢
    split at h
    next he =>
      cases h
      simp only [he, ↓reduceIte]
      exact ⟨_, rfl, rfl, rfl, rfl, rfl⟩
    next he =>
      obtain ⟨⟨k, n⟩, hr, heq⟩ := Option.map_eq_some_iff.1 h
      cases heq
      simp only [he, hr]
      exact ⟨_, rfl, rfl, rfl, rfl, rfl⟩
  · simp only [hl, ↓reduceIte, Bool.false_eq_true] at h ⊢
    split at h
    next he =>
      cases h
      simp only [he, ↓reduceIte]
      exact ⟨_, rfl, rfl, rfl, rfl, rfl⟩
    next he =>
      obtain ⟨⟨k, n⟩, hr, heq⟩ := Option.map_eq_some_iff.1 h
      cases heq
      simp only [he, hr, (rule?_kind hr).1, ↓reduceIte, Bool.false_eq_true]
      exact ⟨_, rfl, rfl, rfl, rfl, rfl⟩

/-- Where no lexical rule applies, looking ahead fails. -/
theorem lookAhead_error (h : ahead? mode c.rest = none) :
    ∃ place, c.lookAhead mode = .error (.invalidToken place) := by
  obtain ⟨hb1, hb2⟩ := blanks_dropWhile c.rest
  simp only [ahead?] at h
  split at h
  · cases h
  next he =>
    have hr : rule? mode (c.rest.dropWhile isBlank) = none := by simpa using h
    simp only [lookAhead, scanAt, scan]
    by_cases hl : (c.rest.takeWhile isBlank).any isLineEnd = true
    · simp only [hl, ↓reduceIte, hb1, hb2, List.any_nil, Bool.false_eq_true, he, hr]
      exact ⟨_, rfl⟩
    · simp only [hl, ↓reduceIte, Bool.false_eq_true, he, hr]
      exact ⟨_, rfl⟩

end Cursor

end Scriptlet
