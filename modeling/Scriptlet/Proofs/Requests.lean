import Scriptlet.Proofs.Progress

/-!
# What a parser remembers makes no difference

The rules of the grammar make requests to a cursor: to look at the next token, to check its kind, to take it.
A cursor remembers the token that it saw last, and each request may come under another expectation.
`Rescans` is a fresh scan of the source, which knows nothing of what was seen before; `Lookahead.Fresh` says that
a token seen is the one that a fresh scan finds. All that a request does follows from the fresh scan alone
(`Request.leaves_of_found`, `Request.leaves_of_missed`), in every cursor that requests lead to from the start.
-/

namespace Scriptlet

open Text Token

/-! ### Fresh scans -/

/-- A scan of a source from byte `i` on, under an expectation: line breaks are passed over, up to a token and
the place behind it, or to a place where no lexical rule applies. -/
inductive Rescans (source : List Char) (mode : Mode) : Nat → Except Nat (Token × Nat) → Prop where
  | token {i next : Nat} {t : Token} : next? source i mode = some (.ok (t, next)) → t.kind ≠ .lineBreak →
      Rescans source mode i (.ok (t, next))
  | lineBreak {i next : Nat} {t : Token} {answer : Except Nat (Token × Nat)} :
      next? source i mode = some (.ok (t, next)) → t.kind = .lineBreak → Rescans source mode next answer →
      Rescans source mode i answer
  | invalid {i place : Nat} : next? source i mode = some (.error place) → Rescans source mode i (.error place)

/-- The token is the one that a fresh scan from byte `i` on finds. -/
structure Lookahead.Fresh (source : List Char) (i : Nat) (mode : Mode) (l : Lookahead) : Prop where
  token : Rescans source mode i (.ok (l.token, l.token.stop))
  rest : StandsAt source l.token.stop l.rest
  mode : l.mode = mode
  lineBreak : l.lineBreak = true ↔ ∃ text, Slice source i l.token.start text ∧ text.any isLineEnd = true

section Fresh

variable {source : List Char} {i : Nat} {mode : Mode} {l l' : Lookahead} {answer answer' : Except Nat (Token × Nat)}

theorem Rescans.unique (h : Rescans source mode i answer) (h' : Rescans source mode i answer') :
    answer = answer' := by
  induction h with
  | token hs hk =>
    cases h' with
    | token hs' _ => cases hs.symm.trans hs'; rfl
    | lineBreak hs' hk' _ => cases hs.symm.trans hs'; exact absurd hk' hk
    | invalid hs' => cases hs.symm.trans hs'
  | lineBreak hs hk _ ih =>
    cases h' with
    | token hs' hk' => cases hs.symm.trans hs'; exact absurd hk hk'
    | lineBreak hs' _ hr => cases hs.symm.trans hs'; exact ih hr
    | invalid hs' => cases hs.symm.trans hs'
  | invalid hs =>
    cases h' with
    | token hs' _ => cases hs.symm.trans hs'
    | lineBreak hs' _ _ => cases hs.symm.trans hs'
    | invalid hs' => cases hs.symm.trans hs'; rfl

/-- There is one such token. -/
theorem Lookahead.Fresh.unique (h : l.Fresh source i mode) (h' : l'.Fresh source i mode) : l = l' := by
  have htoken : l.token = l'.token := congrArg Prod.fst (Except.ok.inj (h.token.unique h'.token))
  have hrest := h.rest
  have hbreak := h.lineBreak
  rw [htoken] at hrest hbreak
  obtain ⟨token, rest, mode, lineBreak⟩ := l
  obtain ⟨token', rest', mode', lineBreak'⟩ := l'
  obtain rfl : token = token' := htoken
  obtain rfl : rest = rest' := hrest.unique h'.rest
  obtain rfl : mode = mode' := h.mode.trans h'.mode.symm
  obtain rfl : lineBreak = lineBreak' := Bool.eq_iff_iff.2 (hbreak.trans h'.lineBreak.symm)
  rfl

end Fresh

namespace Cursor

variable {source : List Char} {c : Cursor} {mode : Mode} {l : Lookahead} {e : Error} {place : Nat}

theorem lookAhead_fresh (hc : StandsAt source c.offset c.rest) (h : c.lookAhead mode = .ok l) :
    l.Fresh source c.offset mode := by
  unfold Cursor.lookAhead at h
  split at h
  · cases h
  next token rest hs =>
  obtain ⟨gap, text, hscan, hstart, hstop⟩ := scanAt_ok_iff.1 hs
  have hcut := scan_cuts hscan
  have hnext := next?_of_scanAt hc hs
  have hrest := (scanAt_ok_standsAt hc hs).1
  split at h
  next hk =>
    -- A run of line ends is one token, so the second scan finds a token of the grammar.
    split at h
    · cases h
    next token' rest' hs' =>
    cases h
    obtain ⟨gap', text', hscan', hstart', -⟩ := scanAt_ok_iff.1 hs'
    have hcut' := scan_cuts hscan'
    have happ : gap ++ text ++ gap' ++ (text' ++ rest') = c.rest := by
      rw [← hcut.append, ← hcut'.append]
      simp
    have hplace : token'.start = c.offset + byteLength (gap ++ text ++ gap') := by
      rw [hstart', hstop, hstart, byteLength_append, byteLength_append]
      omega
    refine ⟨.lineBreak hnext hk (.token (next?_of_scanAt hrest hs') (scanAt_behind_lineBreak hs hk hs')),
      (scanAt_ok_standsAt hrest hs').1, rfl, iff_of_true rfl ⟨gap ++ text ++ gap', ?_, ?_⟩⟩
    · rw [hplace]
      exact (happ ▸ hc).slice
    · have hw := hcut.written
      rw [hk] at hw
      obtain ⟨-, d, hd, hend⟩ := hw
      exact List.any_eq_true.2 ⟨d, by simp [hd], hend⟩
  next hk =>
    cases h
    refine ⟨.token hnext hk, hrest, rfl, iff_of_false Bool.false_ne_true ?_⟩
    -- Only the gap stands before the token, and no line ends in a gap.
    rintro ⟨between, hslice, hline⟩
    rw [← hcut.append, List.append_assoc] at hc
    obtain rfl := hslice.unique (hstart ▸ hc.slice)
    obtain ⟨d, hd, hend⟩ := List.any_eq_true.1 hline
    rw [(hcut.gap d hd).2] at hend
    cases hend

theorem lookAhead_missed (hc : StandsAt source c.offset c.rest) (h : c.lookAhead mode = .error e) :
    ∃ place, e = .invalidToken place ∧ Rescans source mode c.offset (.error place) := by
  unfold Cursor.lookAhead at h
  split at h
  next place hs =>
    cases h
    exact ⟨place, rfl, .invalid (next?_of_scanAt_error hc hs)⟩
  next token rest hs =>
  split at h
  next hk =>
    split at h
    next place hs' =>
      cases h
      have hrest := (scanAt_ok_standsAt hc hs).1
      exact ⟨place, rfl, .lineBreak (next?_of_scanAt hc hs) hk (.invalid (next?_of_scanAt_error hrest hs'))⟩
    · cases h
  · cases h

/-- Looking ahead finds what a fresh scan finds. -/
theorem lookAhead_eq_ok_iff (hc : StandsAt source c.offset c.rest) :
    c.lookAhead mode = .ok l ↔ l.Fresh source c.offset mode := by
  refine ⟨lookAhead_fresh hc, fun hl => ?_⟩
  cases h : c.lookAhead mode with
  | ok l' => rw [hl.unique (lookAhead_fresh hc h)]
  | error e =>
    obtain ⟨place, -, hmissed⟩ := lookAhead_missed hc h
    cases hl.token.unique hmissed

/-- Looking ahead fails where a fresh scan fails. -/
theorem lookAhead_eq_error_iff (hc : StandsAt source c.offset c.rest) :
    c.lookAhead mode = .error (.invalidToken place) ↔ Rescans source mode c.offset (.error place) := by
  constructor
  · intro h
    obtain ⟨place', heq, hmissed⟩ := lookAhead_missed hc h
    cases heq
    exact hmissed
  · intro hplace
    cases h : c.lookAhead mode with
    | ok l => cases hplace.unique (lookAhead_fresh hc h).token
    | error e =>
      obtain ⟨place', rfl, hmissed⟩ := lookAhead_missed hc h
      cases hplace.unique hmissed
      rfl

/-- The cursor with a token ahead. -/
def facing (c : Cursor) (l : Lookahead) : Cursor := { c with ahead := some l }

/-- The cursor behind a token that was ahead of it. -/
def past (c : Cursor) (l : Lookahead) : Cursor := ⟨l.token.stop, l.rest, none, l :: c.consumed⟩

theorem coherent_facing (c : Cursor) (h : c.lookAhead mode = .ok l) : (c.facing l).Coherent :=
  coherent_of_lookAhead h

end Cursor

/-! ### Requests -/

/-- What the rules of the grammar ask a cursor for. -/
inductive Request where
  | peek (mode : Mode)
  | check (kind : Kind) (mode : Mode)
  | eat (kind : Kind) (mode : Mode)
  | expect (kind : Kind) (mode : Mode)
  | expectName
  | advance (mode : Mode)
  | unexpected (mode : Mode) (expected : Expected)
  | endStatement

namespace Parser

variable {α β : Type} {c : Cursor} {mode : Mode} {l : Lookahead} {e : Error}

/-- The cursor that a parser leaves behind, whether it succeeds or fails. -/
def leaves (p : Parser α) (c : Cursor) : Cursor :=
  match p c with
  | .ok _ c' => c'
  | .error _ c' => c'

section Seen

variable (hc : c.Coherent) (hl : c.lookAhead mode = .ok l)

include hc hl

theorem peekKind_of_lookAhead : peekKind mode c = .ok l.token.kind (c.facing l) :=
  bind_of_ok (peek_of_lookAhead hc hl) _

theorem advance_of_lookAhead : advance mode c = .ok l.token (c.past l) := by
  rw [advance_eq]
  exact bind_of_ok (peek_of_lookAhead hc hl) _

theorem check_of_lookAhead (kind : Kind) : check kind mode c = .ok (l.token.kind.alike kind) (c.facing l) :=
  bind_of_ok (peekKind_of_lookAhead hc hl) _

theorem unexpected_of_lookAhead (expected : Expected) : (unexpected mode expected : Parser α) c =
    .error (.unexpected l.token.kind l.token.start expected) (c.facing l) :=
  bind_of_ok (peek_of_lookAhead hc hl) _

omit hc in
/-- What was seen is taken from where it was seen. -/
theorem advance_facing : advance mode (c.facing l) = .ok l.token (c.past l) :=
  advance_of_lookAhead (c.coherent_facing hl) hl

theorem eat_of_lookAhead (kind : Kind) : eat kind mode c =
    .ok (l.token.kind.alike kind) (if l.token.kind.alike kind then c.past l else c.facing l) := by
  rw [eat, bind_of_ok (check_of_lookAhead hc hl kind)]
  cases l.token.kind.alike kind with
  | true => exact bind_of_ok (advance_facing hl) _
  | false => rfl

theorem expect_of_lookAhead (kind : Kind) : expect kind mode c =
    if l.token.kind.alike kind then .ok l.token (c.past l)
    else .error (.unexpected l.token.kind l.token.start (.kind kind)) (c.facing l) := by
  rw [expect, bind_of_ok (check_of_lookAhead hc hl kind)]
  split
  · exact advance_facing hl
  · exact unexpected_of_lookAhead (c.coherent_facing hl) hl _

end Seen

theorem expectName_of_lookAhead (hc : c.Coherent) (hl : c.lookAhead .operand = .ok l) : expectName c =
    match l.token.kind with
    | .identifier name => .ok name (c.past l)
    | found => .error (.unexpected found l.token.start .identifier) (c.past l) := by
  rw [expectName, bind_of_ok (advance_of_lookAhead hc hl)]
  cases l.token.kind <;> rfl

theorem endStatement_of_lookAhead (hc : c.Coherent) (hl : c.lookAhead .operator = .ok l) : endStatement c =
    if l.token.kind = .punct .semicolon then .ok () (c.past l)
    else if l.lineBreak || endsStatement l.token.kind then .ok () (c.facing l)
    else .error (.unexpected l.token.kind l.token.start (.kind (.punct .semicolon))) (c.facing l) := by
  rw [endStatement, bind_of_ok (peek_of_lookAhead hc hl)]
  split
  · exact bind_of_ok (advance_facing hl) _
  · split
    · rfl
    · exact unexpected_of_lookAhead (c.coherent_facing hl) hl _

theorem leaves_of_ok {p : Parser α} {a : α} {c' : Cursor} (h : p c = .ok a c') : p.leaves c = c' := by
  rw [leaves, h]

theorem leaves_of_error {p : Parser α} {c' : Cursor} (h : p c = .error e c') : p.leaves c = c' := by
  rw [leaves, h]

theorem Walks.moves_leaves {p : Parser α} (hp : p.Walks) (c : Cursor) : c.Moves (p.leaves c) := by
  have h := hp c
  unfold Runs at h
  unfold leaves
  cases hr : p c with
  | ok a c' => rw [hr] at h; exact h.1
  | error e c' => rw [hr] at h; exact h.1

end Parser

namespace Request

open Scriptlet.Parser

variable {c : Cursor} {l : Lookahead} {e : Error} {r : Request}

/-- The expectation under which a request looks at the next token. -/
def mode : Request → Mode
  | .peek mode | .check _ mode | .eat _ mode | .expect _ mode | .advance mode | .unexpected mode _ => mode
  | .expectName => .operand
  | .endStatement => .operator

/-- Whether a request takes the token that it sees. -/
def takes : Request → Lookahead → Bool
  | .peek _, _ | .check .., _ | .unexpected .., _ => false
  | .advance _, _ | .expectName, _ => true
  | .eat kind _, l | .expect kind _, l => l.token.kind.alike kind
  | .endStatement, l => l.token.kind = .punct .semicolon

/-- The cursor that a request leaves behind, whether it is granted or not. -/
def leaves : Request → Cursor → Cursor
  | .peek mode => (Parser.peek mode).leaves
  | .check kind mode => (Parser.check kind mode).leaves
  | .eat kind mode => (Parser.eat kind mode).leaves
  | .expect kind mode => (Parser.expect kind mode).leaves
  | .expectName => Parser.expectName.leaves
  | .advance mode => (Parser.advance mode).leaves
  | .unexpected mode expected => (Parser.unexpected mode expected : Parser Unit).leaves
  | .endStatement => Parser.endStatement.leaves

theorem moves_leaves (r : Request) (c : Cursor) : c.Moves (r.leaves c) := by
  cases r with
  | peek mode => exact (peek_walks mode).moves_leaves c
  | check kind mode => exact (check_walks kind mode).moves_leaves c
  | eat kind mode => exact (eat_walks kind mode).moves_leaves c
  | expect kind mode => exact (expect_walks kind mode).moves_leaves c
  | expectName => exact expectName_walks.moves_leaves c
  | advance mode => exact (advance_walks mode).moves_leaves c
  | unexpected mode expected => exact (unexpected_walks mode expected).moves_leaves c
  | endStatement => exact endStatement_walks.moves_leaves c

theorem leaves_of_missed (hc : c.Coherent) (h : c.lookAhead r.mode = .error e) : r.leaves c = c := by
  have hpeek := peek_error hc h
  cases r with
  | peek => exact leaves_of_error hpeek
  | advance | unexpected | endStatement => exact leaves_of_error (bind_error hpeek _)
  | check | expectName => exact leaves_of_error (bind_error (bind_error hpeek _) _)
  | eat | expect => exact leaves_of_error (bind_error (bind_error (bind_error hpeek _) _) _)

theorem leaves_of_found (hc : c.Coherent) (h : c.lookAhead r.mode = .ok l) :
    r.leaves c = if r.takes l then c.past l else c.facing l := by
  cases r with
  | peek => exact leaves_of_ok (peek_of_lookAhead hc h)
  | check kind => exact leaves_of_ok (check_of_lookAhead hc h kind)
  | unexpected _ expected => exact leaves_of_error (unexpected_of_lookAhead hc h expected)
  | advance => exact leaves_of_ok (advance_of_lookAhead hc h)
  | eat kind => exact leaves_of_ok (eat_of_lookAhead hc h kind)
  | expect kind mode =>
    have hexpect : Parser.expect kind mode c = _ := expect_of_lookAhead hc h kind
    by_cases hk : l.token.kind.alike kind = true
    · rw [if_pos hk] at hexpect
      rw [takes, if_pos hk]
      exact leaves_of_ok hexpect
    · rw [if_neg hk] at hexpect
      rw [takes, if_neg hk]
      exact leaves_of_error hexpect
  | expectName =>
    rw [leaves, Parser.leaves, expectName_of_lookAhead hc h]
    cases l.token.kind <;> rfl
  | endStatement =>
    have hend := endStatement_of_lookAhead hc h
    by_cases hk : l.token.kind = .punct .semicolon
    · rw [if_pos hk] at hend
      rw [takes, if_pos (decide_eq_true hk)]
      exact leaves_of_ok hend
    · rw [if_neg hk] at hend
      rw [takes, if_neg (by simpa using hk)]
      split at hend
      · exact leaves_of_ok hend
      · exact leaves_of_error hend

end Request

/-- The cursor that requests lead to from the start of a source. -/
def Cursor.after (source : List Char) (requests : List Request) : Cursor :=
  requests.foldl (fun c r => r.leaves c) (start source)

theorem Cursor.after_moves (source : List Char) (requests : List Request) :
    (start source).Moves (after source requests) := by
  induction requests using List.reverseRecOn with
  | nil => exact .refl
  | append_singleton requests r ih =>
    rw [after, List.foldl_append]
    exact ih.trans (r.moves_leaves _)

/-- Whatever requests led to a cursor, under whatever expectations: the token that it remembers is the one that a
fresh scan finds. So the next token is the one that a fresh scan finds, seen before or not, and there is none if
a fresh scan fails; then the cursor stays as it is. A request that takes the token puts the cursor behind it, and
any other leaves the cursor in its place. -/
theorem lookahead_transparent (source : List Char) (requests : List Request) :
    let c := Cursor.after source requests
    (∀ l : Lookahead, c.ahead = some l → l.Fresh source c.offset l.mode) ∧
    (∀ mode, (∃ l : Lookahead, l.Fresh source c.offset mode) ∨ ∃ place, Rescans source mode c.offset (.error place)) ∧
    (∀ mode (l : Lookahead), l.Fresh source c.offset mode →
      Parser.peek mode c = .ok l (c.facing l) ∧ Parser.advance mode c = .ok l.token (c.past l)) ∧
    (∀ mode place, Rescans source mode c.offset (.error place) →
      Parser.peek mode c = .error (.invalidToken place) c ∧
        Parser.advance mode c = .error (.invalidToken place) c) ∧
    ∀ r : Request,
      (∀ l : Lookahead, l.Fresh source c.offset r.mode → r.leaves c = if r.takes l then c.past l else c.facing l) ∧
      ∀ place, Rescans source r.mode c.offset (.error place) → r.leaves c = c := by
  intro c
  have hm : (Cursor.start source).Moves c := Cursor.after_moves source requests
  have hplaced := (hm.placed (Cursor.start_placed source)).rest
  have hc : c.Coherent := hm.coherent (Cursor.coherent_of_none rfl)
  refine ⟨fun l hl => Cursor.lookAhead_fresh hplaced (hc l hl), fun mode => ?_, fun mode l hl => ?_,
    fun mode place hp => ?_, fun r => ⟨fun l hl => ?_, fun place hp => ?_⟩⟩
  · cases h : c.lookAhead mode with
    | ok l => exact .inl ⟨l, Cursor.lookAhead_fresh hplaced h⟩
    | error e =>
      obtain ⟨place, -, hp⟩ := Cursor.lookAhead_missed hplaced h
      exact .inr ⟨place, hp⟩
  · have h := (Cursor.lookAhead_eq_ok_iff hplaced).2 hl
    exact ⟨Parser.peek_of_lookAhead hc h, Parser.advance_of_lookAhead hc h⟩
  · have h := (Cursor.lookAhead_eq_error_iff hplaced).2 hp
    exact ⟨Parser.peek_error hc h, Parser.bind_error (Parser.peek_error hc h) _⟩
  · exact Request.leaves_of_found hc ((Cursor.lookAhead_eq_ok_iff hplaced).2 hl)
  · exact Request.leaves_of_missed hc ((Cursor.lookAhead_eq_error_iff hplaced).2 hp)

/-- A slash that was seen as a division stays ahead while the scan for a regular expression fails, and is taken
afterwards. -/
theorem lookahead_transparent_slash :
    let slash : Lookahead := ⟨⟨.punct .slash, 2, 3⟩, ['a'], .operator, true⟩
    let c : Cursor := ⟨1, "\n/a".toList, some slash, [⟨⟨.identifier "x", 0, 1⟩, "\n/a".toList, .operand, false⟩]⟩
    Cursor.after "x\n/a".toList [.advance .operand, .peek .operator] = c ∧
    Parser.peek .operator c = .ok slash (c.facing slash) ∧
    Parser.peek .operand c = .error (.invalidToken 2) c ∧
    Request.leaves (.eat (.punct .slash) .operator) c = c.past slash ∧
    Request.leaves (.expect .eof .operand) c = c := by
  intro slash c
  have hc : Cursor.after "x\n/a".toList [.advance .operand, .peek .operator] = c := by cbv
  obtain ⟨hahead, -, hseen, hmissed, hrequest⟩ :=
    lookahead_transparent "x\n/a".toList [.advance .operand, .peek .operator]
  rw [hc] at hahead hseen hmissed hrequest
  have hfresh : slash.Fresh "x\n/a".toList 1 .operator := hahead slash rfl
  have hbreak : next? "x\n/a".toList 1 .operand = some (.ok (⟨.lineBreak, 1, 2⟩, 2)) := by cbv
  have hinvalid : Rescans "x\n/a".toList .operand 1 (.error 2) := .lineBreak hbreak rfl (.invalid (by cbv))
  exact ⟨hc, (hseen _ _ hfresh).1, (hmissed _ _ hinvalid).1,
    (hrequest (.eat (.punct .slash) .operator)).1 slash hfresh, (hrequest (.expect .eof .operand)).2 2 hinvalid⟩

end Scriptlet
