import Scriptlet.Proofs.Lossless
import Scriptlet.Proofs.Moves
import Scriptlet.Proofs.SyntaxErrors

/-!
# Syntax errors point at real tokens

A parser may raise an error from a token that it looked at under either expectation, or from one that it
took long before. All of them were scanned from the source at the place that they name, `Lookahead.Genuine`;
the invariant `Cursor.Placed` says so of all tokens that a cursor holds and is kept by each step, so it holds
wherever a parser raises an error.
-/

namespace Scriptlet

open Text Token

/-- The text stands at byte `i` of the source and goes on to its end. -/
def Text.StandsAt (source : List Char) (i : Nat) (cs : List Char) : Prop :=
  ∃ before, before ++ cs = source ∧ byteLength before = i

theorem Text.StandsAt.behind {source cs rest : List Char} {i : Nat} (h : StandsAt source i (cs ++ rest)) :
    StandsAt source (i + byteLength cs) rest := by
  obtain ⟨before, rfl, rfl⟩ := h
  exact ⟨before ++ cs, List.append_assoc .., byteLength_append ..⟩

theorem Text.StandsAt.add_byteLength {source cs : List Char} {i : Nat} (h : StandsAt source i cs) :
    i + byteLength cs = byteLength source := by
  obtain ⟨before, rfl, rfl⟩ := h
  exact (byteLength_append ..).symm

theorem Text.StandsAt.unique {source cs cs' : List Char} {i : Nat} (h : StandsAt source i cs)
    (h' : StandsAt source i cs') : cs = cs' := by
  obtain ⟨before, rfl, rfl⟩ := h
  obtain ⟨before', happ, hlen⟩ := h'
  rcases List.append_eq_append_iff.1 happ with ⟨x, rfl, rfl⟩ | ⟨x, rfl, rfl⟩
  all_goals
    obtain rfl : x = [] := by
      by_contra hx
      have := byteLength_pos hx
      simp only [byteLength_append] at hlen
      omega
    rfl

theorem Text.StandsAt.slice {source text rest : List Char} {i : Nat} (h : StandsAt source i (text ++ rest)) :
    Slice source i (i + byteLength text) text := by
  obtain ⟨before, rfl, rfl⟩ := h
  exact ⟨before, rest, List.append_assoc .., rfl, rfl⟩

theorem Text.Slice.unique {source text text' : List Char} {i j : Nat} (h : Slice source i j text)
    (h' : Slice source i j text') : text = text' := by
  obtain ⟨before, after, happ, hi, hj⟩ := h
  obtain ⟨before', after', happ', hi', hj'⟩ := h'
  have hafter : StandsAt source j after := ⟨before ++ text, happ, by rw [byteLength_append, hj]⟩
  have hafter' : StandsAt source j after' := ⟨before' ++ text', happ', by rw [byteLength_append, hj']⟩
  have htext : StandsAt source i (text ++ after) := ⟨before, by rw [← List.append_assoc, happ], hi⟩
  have htext' : StandsAt source i (text' ++ after') := ⟨before', by rw [← List.append_assoc, happ'], hi'⟩
  obtain rfl := hafter.unique hafter'
  exact List.append_cancel_right (htext.unique htext')

/-! ### Scanning again -/

section Scans

variable {mode : Mode} {source cs rest gap : List Char} {l : Lexeme} {i place : Nat} {t : Token}

/-- Scanning at the token itself finds it again. -/
theorem scan_behind_gap (h : scan mode cs = .lexeme gap l) (hk : l.kind ≠ .lineBreak) :
    scan mode (l.text ++ l.rest) = .lexeme [] l := by
  obtain ⟨hb₁, hb₂⟩ := Cursor.blanks_dropWhile cs
  simp only [scan] at h
  split at h
  · cases h; exact absurd rfl hk
  split at h
  · cases h; rfl
  next hb =>
  split at h
  next k n hr =>
    cases h
    simp [scan, hb₁, hb₂, hb, hr]
  · cases h

/-- Scanning at a place where no rule applies fails there. -/
theorem scan_behind_gap_invalid (h : scan mode cs = .invalid gap) :
    ∃ rest, gap ++ rest = cs ∧ rest ≠ [] ∧ scan mode rest = .invalid [] := by
  obtain ⟨hb₁, hb₂⟩ := Cursor.blanks_dropWhile cs
  simp only [scan] at h
  split at h
  · cases h
  split at h
  · cases h
  next hb =>
  split at h
  · cases h
  next hr =>
    cases h
    refine ⟨_, List.takeWhile_append_dropWhile, by simpa using hb, ?_⟩
    simp [scan, hb₁, hb₂, hb, hr]

theorem scanAt_ok_iff : scanAt i mode cs = .ok (t, rest) ↔
    ∃ gap text, scan mode cs = .lexeme gap ⟨t.kind, text, rest⟩ ∧ t.start = i + byteLength gap ∧
      t.stop = t.start + byteLength text := by
  unfold scanAt
  constructor
  · intro h
    split at h
    next gap l hs => cases h; exact ⟨gap, l.text, hs, rfl, rfl⟩
    · cases h
  · rintro ⟨gap, text, hs, hstart, hstop⟩
    rw [hs]
    cases t
    simp_all

/-- A scan at a place of the source gives a token that can be scanned at the place where it starts, and the
text behind its end. -/
theorem scanAt_ok_standsAt (hi : StandsAt source i cs) (h : scanAt i mode cs = .ok (t, rest)) :
    StandsAt source t.stop rest ∧ (t.kind ≠ .lineBreak →
      ∃ cs', StandsAt source t.start cs' ∧ scanAt t.start mode cs' = .ok (t, rest)) := by
  obtain ⟨gap, text, hs, hstart, hstop⟩ := scanAt_ok_iff.1 h
  have happ : gap ++ (text ++ rest) = cs := by rw [← List.append_assoc]; exact scan_append hs
  have hcs : StandsAt source t.start (text ++ rest) := by
    rw [hstart]
    exact (happ ▸ hi).behind
  refine ⟨hstop ▸ hcs.behind, fun hk => ⟨_, hcs, ?_⟩⟩
  exact scanAt_ok_iff.2 ⟨[], text, scan_behind_gap hs hk, by simp, hstop⟩

theorem scanAt_error_standsAt (hi : StandsAt source i cs) (h : scanAt i mode cs = .error place) :
    ∃ rest, StandsAt source place rest ∧ rest ≠ [] ∧ scanAt place mode rest = .error place := by
  unfold scanAt at h
  split at h
  · cases h
  next gap hs =>
    cases h
    obtain ⟨rest, happ, hne, hs'⟩ := scan_behind_gap_invalid hs
    refine ⟨rest, (happ ▸ hi).behind, hne, ?_⟩
    simp [scanAt, hs']

/-- Behind a line break stands no other one. -/
theorem scanAt_behind_lineBreak {j : Nat} {u : Token} {rest' : List Char}
    (h : scanAt i mode cs = .ok (t, rest)) (hk : t.kind = .lineBreak)
    (h' : scanAt j mode rest = .ok (u, rest')) : u.kind ≠ .lineBreak := by
  obtain ⟨gap, text, hs, -⟩ := scanAt_ok_iff.1 h
  obtain ⟨gap', text', hs', -⟩ := scanAt_ok_iff.1 h'
  exact scan_ne_lineBreak ((scan_cuts hs).rest_not_blank hk) hs'

/-- A scan of the source at a place is a scan of the text that stands there. -/
theorem next?_standsAt (hi : StandsAt source i cs) :
    next? source i mode =
      some ((scanAt i mode cs).map fun (t, rest) => (t, byteLength source - byteLength rest)) := by
  have hle := hi.add_byteLength
  obtain ⟨before, rfl, rfl⟩ := hi
  have hoff : byteLength (before ++ cs) - byteLength cs = byteLength before := by omega
  rw [next?, dropBytes?_append, Option.map_some, hoff]
  cases scanAt (byteLength before) mode cs <;> rfl

theorem next?_of_scanAt (hi : StandsAt source i cs) (h : scanAt i mode cs = .ok (t, rest)) :
    next? source i mode = some (.ok (t, t.stop)) := by
  have hstop := (scanAt_ok_standsAt hi h).1.add_byteLength
  rw [next?_standsAt hi, h, ← hstop]
  simp [Except.map]

theorem next?_of_scanAt_error (hi : StandsAt source i cs) (h : scanAt i mode cs = .error place) :
    next? source i mode = some (.error place) := by
  rw [next?_standsAt hi, h]
  rfl

end Scans

/-! ### The tokens of a cursor -/

/-- The token was scanned from the source at the place that it names. -/
structure Lookahead.Genuine (source : List Char) (l : Lookahead) : Prop where
  kind : l.token.kind ≠ .lineBreak
  scanned : ∃ cs, StandsAt source l.token.start cs ∧ scanAt l.token.start l.mode cs = .ok (l.token, l.rest)

theorem Lookahead.Genuine.rest {source : List Char} {l : Lookahead} (h : l.Genuine source) :
    StandsAt source l.token.stop l.rest :=
  let ⟨_, hcs, hs⟩ := h.scanned
  (scanAt_ok_standsAt hcs hs).1

namespace Cursor

variable {source : List Char} {c c' : Cursor} {mode : Mode} {l : Lookahead} {e : Error}

/-- The cursor stands in the source where it says, and so do the tokens that it holds. -/
structure Placed (source : List Char) (c : Cursor) : Prop where
  rest : StandsAt source c.offset c.rest
  ahead : ∀ l, c.ahead = some l → l.Genuine source
  consumed : ∀ l ∈ c.consumed, l.Genuine source

theorem start_placed (source : List Char) : (start source).Placed source :=
  ⟨⟨[], rfl, rfl⟩, fun _ h => (by cases h), fun _ h => (by cases h)⟩

theorem Placed.lookAhead (hc : c.Placed source) (h : c.lookAhead mode = .ok l) : l.Genuine source := by
  unfold Cursor.lookAhead at h
  split at h
  · cases h
  next token rest hs =>
    obtain ⟨hrest, hself⟩ := scanAt_ok_standsAt hc.rest hs
    split at h
    next hk =>
      split at h
      · cases h
      next hs' =>
        cases h
        have hk' := scanAt_behind_lineBreak hs hk hs'
        exact ⟨hk', (scanAt_ok_standsAt hrest hs').2 hk'⟩
    next hk =>
      cases h
      exact ⟨hk, hself hk⟩

theorem Step.placed (hs : Step c c') (hc : c.Placed source) : c'.Placed source := by
  cases hs with
  | look hl =>
    refine ⟨hc.rest, fun l h => ?_, hc.consumed⟩
    cases h
    exact hc.lookAhead hl
  | take hl =>
    have hg := hc.ahead _ hl
    exact ⟨hg.rest, fun _ h => (by cases h), List.forall_mem_cons.2 ⟨hg, hc.consumed⟩⟩

theorem Moves.placed (hm : c.Moves c') (hc : c.Placed source) : c'.Placed source := by
  induction hm with
  | refl => exact hc
  | tail _ hs ih => exact hs.placed ih

end Cursor

/-! ### Errors -/

/-- A token of the kind can be scanned at the place. -/
def Token.FoundAt (source : List Char) (found : Kind) (offset : Nat) : Prop :=
  ∃ mode token next, next? source offset mode = some (.ok (token, next)) ∧ token.kind = found ∧
    token.start = offset

/-- The error names a token of the source and the place where it starts, or a place before the end and
between two characters where no token can be scanned. -/
def Error.PointsInto (source : List Char) : Error → Prop
  | .unexpected found offset _ =>
    FoundAt source found offset ∧ (found = .eof → offset = byteLength source) ∧ found ≠ .lineBreak
  | .invalidToken offset =>
    offset < byteLength source ∧ (∃ rest, StandsAt source offset rest) ∧
      ∃ mode, next? source offset mode = some (.error offset)
  | _ => False

section Errors

variable {source : List Char} {c : Cursor} {l : Lookahead} {e : Error}

theorem Lookahead.Genuine.pointsInto (h : l.Genuine source) (expected : Expected) :
    (Error.unexpected l.token.kind l.token.start expected).PointsInto source := by
  obtain ⟨cs, hcs, hs⟩ := h.scanned
  refine ⟨⟨l.mode, l.token, l.token.stop, next?_of_scanAt hcs hs, rfl, rfl⟩, fun hk => ?_, h.kind⟩
  obtain ⟨gap, text, hscan, hgap, -⟩ := scanAt_ok_iff.1 hs
  have hcut := scan_cuts hscan
  have htext : text = [] := by
    have hw := hcut.written
    simpa only [hk, Kind.WrittenAs] using hw
  have hrest : l.rest = [] := hcut.rest_eq_nil hk
  have hlen := congrArg byteLength hcut.append
  simp only [htext, hrest, byteLength_append, byteLength_nil] at hlen
  have := hcs.add_byteLength
  omega

theorem Cursor.Placed.pointsInto_of_lookAhead {mode : Mode} (hc : c.Placed source)
    (h : c.lookAhead mode = .error e) : e.PointsInto source := by
  have hpoints : ∀ {i cs place}, StandsAt source i cs → scanAt i mode cs = .error place →
      (Error.invalidToken place).PointsInto source := by
    intro i cs place hi hs
    obtain ⟨rest, hrest, hne, hs'⟩ := scanAt_error_standsAt hi hs
    have := hrest.add_byteLength
    have := byteLength_pos hne
    exact ⟨by omega, ⟨rest, hrest⟩, mode, next?_of_scanAt_error hrest hs'⟩
  unfold Cursor.lookAhead at h
  split at h
  next hs => cases h; exact hpoints hc.rest hs
  next token rest hs =>
    split at h
    · split at h
      next hs' => cases h; exact hpoints (scanAt_ok_standsAt hc.rest hs).1 hs'
      · cases h
    · cases h

/-- An error that arises in a cursor points into the source, unless the parser gives up. -/
theorem Cursor.Raises.pointsInto (h : c.Raises e) (hc : c.Placed source) (he : e.isSyntaxError = true) :
    e.PointsInto source := by
  cases h with
  | invalid h => exact hc.pointsInto_of_lookAhead h
  | ahead hl => exact (hc.ahead _ hl).pointsInto _
  | taken hl => exact (hc.consumed _ hl).pointsInto _
  | tooDeep => cases he

theorem Parser.Walks.pointsInto {α : Type} {p : Parser α} (hp : p.Walks) (h : p.read source = .error e)
    (he : e.isSyntaxError = true) : e.PointsInto source := by
  obtain ⟨c, hm, hr⟩ := hp.read_error h
  exact hr.pointsInto (hm.placed (Cursor.start_placed source)) he

end Errors

/-- Where reading a source fails, the error points into it. -/
theorem syntaxError_pointsInto (source : String) (e : Error)
    (h : parse source = .error e ∨ parseExpression source = .error e) : e.PointsInto source.toList := by
  rcases h with h | h
  · exact (Parser.statements_walks _ _).pointsInto h (parse_error_isSyntaxError h)
  · exact (Parser.wholeExpression_walks _).pointsInto h (parseExpression_error_isSyntaxError h)

/-- The second of two operands on different lines, where an expression should end. -/
theorem syntaxError_pointsInto_operands :
    (Error.unexpected (.identifier "b") 2 (.kind .eof)).PointsInto "a\nb".toList :=
  syntaxError_pointsInto "a\nb" _ (.inr (by cbv))

end Scriptlet
