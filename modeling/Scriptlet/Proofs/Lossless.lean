import Scriptlet.Proofs.TokenText

/-!
# Scanning loses nothing

The tokens of a source take it up from its start to its end, or to the place where scanning fails:
their spans follow each other, only blanks on one line stand between them, and the text in each span
is how its token is written (`Lossless`). Positions count bytes; `Slice` speaks of characters, so a
span that has a slice starts and stops between two characters.

`Reader` gives the tokens one at a time. It gives those that `stream` lists, then the place where
scanning fails, and then nothing any more.
-/

namespace Scriptlet

open Text Token

/-- The text from byte `i` to byte `j` of a source. There is none if one of the two places lies inside
of a character or past the end. -/
def Text.Slice (source : List Char) (i j : Nat) (text : List Char) : Prop :=
  ∃ before after, before ++ text ++ after = source ∧ byteLength before = i ∧
    byteLength before + byteLength text = j

/-- Only a gap stands between two places. -/
def Text.Blank (source : List Char) (i j : Nat) : Prop := ∃ gap, Slice source i j gap ∧ IsGap gap

/-- The text in a token's span is how the token is written. -/
def Token.Covers (source : List Char) (t : Token) : Prop :=
  ∃ text, Slice source t.start t.stop text ∧ t.kind.WrittenAs text

/-- The tokens take up a source from one place to another. -/
structure Lossless (source : List Char) (start : Nat) (tokens : List Token) (stop : Nat) : Prop where
  covers : ∀ t ∈ tokens, t.start < t.stop ∧ t.Covers source
  inside : ∀ t ∈ tokens, start ≤ t.start ∧ t.stop ≤ stop
  ordered : tokens.Pairwise fun t u => t.stop ≤ u.start
  /-- What stands before, between and behind the tokens. -/
  gaps : List.Forall₂ (Blank source) (start :: tokens.map Token.stop) (tokens.map Token.start ++ [stop])
  lineBreaks : tokens.IsChain fun t u => t.kind = .lineBreak → u.kind ≠ .lineBreak

section

variable {source seen cs gap : List Char} {i j k : Nat} {l : Lexeme} {t : Token} {ts : List Token}

theorem Text.Slice.le {text : List Char} (h : Slice source i j text) :
    i ≤ j ∧ j ≤ byteLength source := by
  obtain ⟨before, after, rfl, rfl, rfl⟩ := h
  simp only [byteLength_append]
  omega

theorem Text.Blank.le (h : Blank source i j) : i ≤ j ∧ j ≤ byteLength source :=
  let ⟨_, hs, _⟩ := h; hs.le

theorem byteLength_pos (h : cs ≠ []) : 0 < byteLength cs :=
  Nat.lt_of_lt_of_le (List.length_pos_iff.2 h) (length_le_byteLength cs)

/-- A gap at the start of the text behind `seen`. -/
theorem Text.blank_append (seen : List Char) (rest : List Char) (h : IsGap gap) :
    Blank (seen ++ (gap ++ rest)) (byteLength seen) (byteLength seen + byteLength gap) :=
  ⟨gap, ⟨seen, rest, by simp, rfl, rfl⟩, h⟩

/-- The token that a scan makes of the text behind `seen`. -/
def Token.Lexeme.tokenAt (seen gap : List Char) (l : Lexeme) : Token :=
  ⟨l.kind, byteLength seen + byteLength gap, byteLength seen + byteLength gap + byteLength l.text⟩

theorem Token.Cuts.blank (seen : List Char) (h : Cuts cs gap l) :
    Blank (seen ++ cs) (byteLength seen) (l.tokenAt seen gap).start := by
  rw [← h.append, List.append_assoc]
  exact blank_append seen _ h.gap

theorem Token.Cuts.covers (seen : List Char) (h : Cuts cs gap l) : (l.tokenAt seen gap).Covers (seen ++ cs) :=
  ⟨l.text, ⟨seen ++ gap, l.rest, by rw [← h.append]; simp, byteLength_append .., by simp [Lexeme.tokenAt]⟩,
    h.written⟩

namespace Lossless

theorem nil (h : Blank source i j) : Lossless source i [] j :=
  ⟨by simp, by simp, .nil, .cons h .nil, .nil⟩

theorem cons (hb : Blank source i t.start) (hlt : t.start < t.stop) (hc : t.Covers source)
    (h : Lossless source t.stop ts j) (hl : t.kind = .lineBreak → ∀ u ∈ ts.head?, u.kind ≠ .lineBreak) :
    Lossless source i (t :: ts) j := by
  have hstop : t.stop ≤ j := by
    cases ts with
    | nil =>
      obtain ⟨hb, -⟩ := List.forall₂_cons.1 h.gaps
      exact hb.le.1
    | cons u ts =>
      have hu := h.inside u List.mem_cons_self
      have := (h.covers u List.mem_cons_self).1
      omega
  refine ⟨List.forall_mem_cons.2 ⟨⟨hlt, hc⟩, h.covers⟩, ?_, ?_, .cons hb h.gaps, ?_⟩
  · refine List.forall_mem_cons.2 ⟨⟨hb.le.1, hstop⟩, fun u hu => ⟨?_, (h.inside u hu).2⟩⟩
    have := hb.le.1
    have := (h.inside u hu).1
    omega
  · exact List.pairwise_cons.2 ⟨fun u hu => (h.inside u hu).1, h.ordered⟩
  · exact h.lineBreaks.cons fun u hu hk => hl hk u hu

end Lossless

/-- A text that starts with no blank does not start with a line break. -/
theorem scan_ne_lineBreak {mode : Mode} (hcs : ∀ c ∈ cs.head?, isBlank c = false)
    (h : scan mode cs = .lexeme gap l) : l.kind ≠ .lineBreak := by
  intro hk
  have hcut := scan_cuts h
  have hw := hcut.written
  rw [hk] at hw
  obtain ⟨hblank, c, hc, -⟩ := hw
  obtain ⟨d, ds, hd⟩ := List.exists_cons_of_ne_nil
    (List.append_ne_nil_of_right_ne_nil gap (List.ne_nil_of_mem hc))
  have hmem : d ∈ gap ++ l.text := by rw [hd]; exact List.mem_cons_self
  have hdb : isBlank d = true := by
    rcases List.mem_append.1 hmem with h | h
    · exact (hcut.gap d h).1
    · exact hblank d h
  rw [hcs d (by rw [← hcut.append, hd]; rfl)] at hdb
  cases hdb

theorem streamFrom_head_ne_lineBreak (before : Option Kind) (offset : Nat)
    (h : ∀ c ∈ cs.head?, isBlank c = false) :
    ∀ u ∈ (streamFrom before offset cs).1.head?, u.kind ≠ .lineBreak := by
  intro u hu
  rw [streamFrom] at hu
  split at hu
  · cases hu
  next gap found hs =>
    split at hu
    · cases hu
    · cases hu
      exact scan_ne_lineBreak h hs

/-- The tokens of the text behind `seen` take up the source from there on. -/
theorem streamFrom_lossless (before : Option Kind) (seen cs : List Char) :
    Lossless (seen ++ cs) (byteLength seen) (streamFrom before (byteLength seen) cs).1
      ((streamFrom before (byteLength seen) cs).2.getD (byteLength (seen ++ cs))) := by
  generalize hoff : byteLength seen = offset
  fun_induction streamFrom before offset cs generalizing seen with
  | case1 before offset cs gap hs =>
    obtain ⟨hgap, rest, -, rfl⟩ := scan_invalid hs
    subst hoff
    exact .nil (blank_append seen rest hgap)
  | case2 before offset cs gap found hs hk =>
    have hcut := scan_cuts hs
    subst hoff
    have hw := hcut.written
    rw [hk] at hw
    have hcs : cs = gap ++ [] := by rw [← hcut.append, hw, hcut.rest_eq_nil hk, List.append_nil]
    subst hcs
    refine .nil ?_
    simpa using blank_append seen [] hcut.gap
  | case3 before offset cs gap found hs hk start stop tokens bad hrec ih =>
    have hcut := scan_cuts hs
    subst hoff
    have hpos := byteLength_pos (hcut.text_ne_nil hk)
    have hsource : (seen ++ gap ++ found.text) ++ found.rest = seen ++ cs := by
      rw [← hcut.append]; simp
    have hstop : byteLength (seen ++ gap ++ found.text) = stop := by
      simp [stop, start, Nat.add_assoc]
    have ih := ih _ hstop
    rw [hsource, hrec] at ih
    refine .cons (t := found.tokenAt seen gap) (hcut.blank seen) ?_ (hcut.covers seen) ih fun hline => ?_
    · show start < start + byteLength found.text
      omega
    · have hhead := streamFrom_head_ne_lineBreak (previous before found.kind) stop
        (hcut.rest_not_blank hline)
      rwa [hrec] at hhead

end

/-! ### Single scans -/

/-- A place behind a text in front is counted from the end of that text. -/
theorem dropBytes?_add (seen cs : List Char) (i : Nat) :
    dropBytes? (byteLength seen + i) (seen ++ cs) = dropBytes? i cs := by
  induction seen with
  | nil => simp
  | cons c seen ih =>
    obtain ⟨n, hn⟩ : ∃ n, byteLength (c :: seen) + i = n + 1 :=
      Nat.exists_eq_succ_of_ne_zero (Nat.ne_of_gt
        (Nat.add_pos_left (byteLength_pos (List.cons_ne_nil c seen)) i))
    have hrest : n + 1 - c.utf8Size = byteLength seen + i := by rw [← hn, byteLength_cons]; omega
    have hle : c.utf8Size ≤ n + 1 := by rw [← hn, byteLength_cons]; omega
    rw [hn, List.cons_append, dropBytes?, if_pos hle, hrest, ih]

theorem dropBytes?_append (seen cs : List Char) : dropBytes? (byteLength seen) (seen ++ cs) = some cs := by
  have h := dropBytes?_add seen cs 0
  rwa [Nat.add_zero, dropBytes?] at h

/-- What scanning at a place may answer: a token behind a gap, of which the end of the text alone has
an empty span, and the place behind the token; or a place before the end. -/
def Located (source : List Char) (offset : Nat) : Except Nat (Token × Nat) → Prop
  | .ok (t, next) => Blank source offset t.start ∧ t.Covers source ∧ next = t.stop ∧
      if t.kind = .eof then t.start = byteLength source ∧ t.stop = byteLength source else t.start < t.stop
  | .error place => Blank source offset place ∧ place < byteLength source

theorem next?_located (seen cs : List Char) (mode : Mode) :
    ∃ answer, next? (seen ++ cs) (byteLength seen) mode = some answer ∧
      Located (seen ++ cs) (byteLength seen) answer := by
  have hoff : byteLength (seen ++ cs) - byteLength cs = byteLength seen := by simp
  simp only [next?, dropBytes?_append, Option.map_some, hoff, scanAt]
  refine ⟨_, rfl, ?_⟩
  cases hs : scan mode cs with
  | invalid gap =>
    obtain ⟨hgap, rest, hne, rfl⟩ := scan_invalid hs
    have hpos := byteLength_pos hne
    refine ⟨blank_append seen rest hgap, ?_⟩
    simp only [byteLength_append]
    omega
  | lexeme gap l =>
    have hcut := scan_cuts hs
    have hlen : byteLength (seen ++ cs) =
        byteLength seen + byteLength gap + byteLength l.text + byteLength l.rest := by
      rw [← hcut.append]
      simp only [byteLength_append]
      omega
    refine ⟨hcut.blank seen, hcut.covers seen, ?_, ?_⟩
    · show byteLength (seen ++ cs) - byteLength l.rest = byteLength seen + byteLength gap + byteLength l.text
      omega
    · show if l.kind = .eof then _ else _
      split
      next hk =>
        have hw := hcut.written
        rw [hk] at hw
        have htext : byteLength l.text = 0 := by rw [hw]; rfl
        have hrest : byteLength l.rest = 0 := by rw [hcut.rest_eq_nil hk]; rfl
        constructor <;> simp only <;> omega
      next hk =>
        have hpos := byteLength_pos (hcut.text_ne_nil hk)
        simp only
        omega

/-! ### One token at a time -/

/-- A source in the middle of being read: the text that is left and the place where it starts, the last
token that was no line break, and whether the end was met. -/
structure Reader where
  rest : List Char
  offset : Nat
  before : Option Kind
  finished : Bool

namespace Reader

def ofSource (source : List Char) : Reader := ⟨source, 0, none, false⟩

/-- Reads the next token. At the end and after a failure there is none. -/
def next (r : Reader) : Option (Except Nat Token) × Reader :=
  if r.finished then (none, r)
  else match scan (modeAfter r.before) r.rest with
    | .invalid gap => (some (.error (r.offset + byteLength gap)), { r with finished := true })
    | .lexeme gap found =>
      if found.kind = .eof then (none, { r with finished := true })
      else
        let start := r.offset + byteLength gap
        let stop := start + byteLength found.text
        (some (.ok ⟨found.kind, start, stop⟩), ⟨found.rest, stop, previous r.before found.kind, false⟩)

/-- The answer to the call of `next` that follows `n` others. -/
def answer (r : Reader) : Nat → Option (Except Nat Token)
  | 0 => r.next.1
  | n + 1 => r.next.2.answer n

theorem answer_of_finished {r : Reader} (h : r.finished = true) (n : Nat) : r.answer n = none := by
  have hnext : r.next = (none, r) := by simp [next, h]
  induction n with
  | zero => rw [answer, hnext]
  | succ n ih => rw [answer, hnext, ih]

/-- A list of tokens, and the place of a failure behind them. -/
def answers (result : List Token × Option Nat) : List (Except Nat Token) :=
  result.1.map .ok ++ result.2.toList.map .error

theorem answer_eq (before : Option Kind) (offset : Nat) (cs : List Char) (n : Nat) :
    (Reader.mk cs offset before false).answer n = (answers (streamFrom before offset cs))[n]? := by
  fun_induction streamFrom before offset cs generalizing n with
  | case1 before offset cs gap hs =>
    cases n with
    | zero => simp [answer, next, hs, answers]
    | succ n => simp [answer, next, hs, answers, answer_of_finished]
  | case2 before offset cs gap found hs hk =>
    cases n with
    | zero => simp [answer, next, hs, hk, answers]
    | succ n => simp [answer, next, hs, hk, answers, answer_of_finished]
  | case3 before offset cs gap found hs hk start stop tokens bad hrec ih =>
    cases n with
    | zero => simp [answer, next, hs, hk, answers, start, stop]
    | succ n =>
      simp only [answer, next, hs, hk]
      rw [hrec] at ih
      simpa [answers] using ih n

end Reader

/-- A source is taken up by its tokens, up to its end or to the place where scanning fails, and reading
it token by token gives these tokens and ends there. A single scan between two characters of the source
gives a token of the same sort in either mode. -/
theorem stream_lossless (source : List Char) :
    Lossless source 0 (stream source).1 ((stream source).2.getD (byteLength source)) ∧
    (∀ n, (Reader.ofSource source).answer n = (Reader.answers (stream source))[n]?) ∧
    ∀ (i : Nat) (mode : Mode), ∃ answer, next? source (byteLength (source.take i)) mode = some answer ∧
      Located source (byteLength (source.take i)) answer := by
  refine ⟨streamFrom_lossless none [] source, Reader.answer_eq none 0 source, fun i mode => ?_⟩
  have h := next?_located (source.take i) (source.drop i) mode
  rwa [List.take_append_drop] at h

end Scriptlet
