import Scriptlet.Error
import Scriptlet.Token.Stream

/-!
# The reading place of a parser

A cursor stands in a source text behind the last token that was consumed. It remembers the token
ahead together with what was expected when it was scanned; asked for a token under another
expectation, it scans the same place again. Line ends are not tokens of the grammar: a token ahead
carries a flag that says whether one stands before it.
-/

namespace Scriptlet

open Token

/-- The next token, scanned and not yet consumed. -/
structure Lookahead where
  token : Token
  /-- The text after the token. -/
  rest : List Char
  /-- What was expected when the token was scanned. -/
  mode : Mode
  /-- Whether a line end stands before the token. -/
  lineBreak : Bool

/-- A place in a source, behind the last token consumed. -/
structure Cursor where
  offset : Nat
  rest : List Char
  ahead : Option Lookahead
  /-- The tokens consumed so far, each as it was seen ahead, the last one first. -/
  consumed : List Lookahead

/-- A step of the parser: it moves a cursor, or fails and leaves the cursor where it got to. -/
abbrev Parser := EStateM Error Cursor

/-- The start of a source. -/
def Cursor.start (source : List Char) : Cursor := ⟨0, source, none, []⟩

namespace Cursor

/-- Scans the token behind the cursor, past a line end if there is one. -/
def lookAhead (c : Cursor) (mode : Mode) : Except Error Lookahead :=
  match scanAt c.offset mode c.rest with
  | .error place => .error (.invalidToken place)
  | .ok (token, rest) =>
    if token.kind = .lineBreak then
      match scanAt token.stop mode rest with
      | .error place => .error (.invalidToken place)
      | .ok (token, rest) => .ok ⟨token, rest, mode, true⟩
    else .ok ⟨token, rest, mode, false⟩

/-- Whether the token ahead is remembered and was scanned under this expectation. -/
def remembers (c : Cursor) (mode : Mode) : Bool := c.ahead.any fun a => a.mode = mode

theorem remembers_iff {c : Cursor} {mode : Mode} :
    c.remembers mode = true ↔ ∃ l, c.ahead = some l ∧ l.mode = mode := by
  cases h : c.ahead <;> simp [remembers, h]

theorem exists_place_of_lookAhead {c : Cursor} {mode : Mode} {e : Error} (h : c.lookAhead mode = .error e) :
    ∃ place, e = .invalidToken place := by
  unfold lookAhead at h
  split at h
  next place _ =>
    cases h
    exact ⟨place, rfl⟩
  next =>
    split at h
    · split at h
      next place _ =>
        cases h
        exact ⟨place, rfl⟩
      next => cases h
    · cases h

end Cursor

namespace Parser

/-- Scans the next token under an expectation and remembers it, unless it does so already. -/
def remember (mode : Mode) : Parser Unit := fun c =>
  if c.remembers mode then .ok () c
  else
    match c.lookAhead mode with
    | .ok ahead => .ok () { c with ahead := some ahead }
    | .error e => .error e c

/-- The next token under an expectation. -/
def peek (mode : Mode) : Parser Lookahead := do
  remember mode
  match (← get).ahead with
  | some ahead => return ahead
  | none => throw (.internal .noLookahead)

/-- The kind of the next token. -/
def peekKind (mode : Mode) : Parser Kind := return (← peek mode).token.kind

/-- Consumes the next token. -/
def advance (mode : Mode) : Parser Token := do
  let _ ← peek mode
  let c ← get
  match c.ahead with
  | some ahead =>
    set (⟨ahead.token.stop, ahead.rest, none, ahead :: c.consumed⟩ : Cursor)
    return ahead.token
  | none => throw (.internal .noLookahead)

/-- Whether the next token has the given kind, whatever value or text it carries. -/
def check (kind : Kind) (mode : Mode) : Parser Bool := return (← peekKind mode).alike kind

/-- Consumes the next token if it has the given kind, and says whether it does. -/
def eat (kind : Kind) (mode : Mode) : Parser Bool := do
  if ← check kind mode then
    let _ ← advance mode
    return true
  else return false

/-- Fails at the next token. -/
def unexpected {α : Type} (mode : Mode) (expected : Expected) : Parser α := do
  let token := (← peek mode).token
  throw (.unexpected token.kind token.start expected)

/-- Consumes a token of the given kind. -/
def expect (kind : Kind) (mode : Mode) : Parser Token := do
  if ← check kind mode then advance mode else unexpected mode (.kind kind)

/-- Consumes a name. -/
def expectName : Parser String := do
  let token ← advance .operand
  match token.kind with
  | .identifier name => return name
  | found => throw (.unexpected found token.start .identifier)

/-- Whether a statement may end before a token of this kind without a semicolon. -/
def endsStatement : Kind → Bool
  | .punct .rightBrace | .eof => true
  | _ => false

/-- Ends a statement: by a semicolon, or without one before a closing brace, at the end of the text
or where a line ends. -/
def endStatement : Parser Unit := do
  let ahead ← peek .operator
  if ahead.token.kind = .punct .semicolon then
    let _ ← advance .operator
    return
  else if ahead.lineBreak || endsStatement ahead.token.kind then return
  else unexpected .operator (.kind (.punct .semicolon))

/-! ### Looking ahead

A token that was scanned is remembered, from any cursor, so `peek` and `advance` find it there. -/

section

variable {c c' : Cursor} {mode : Mode} {l : Lookahead} {e : Error}

theorem peek_of_ahead (h : c.ahead = some l) (hm : l.mode = mode) : peek mode c = .ok l c := by
  have hr : remember mode c = .ok () c := by simp [remember, Cursor.remembers, h, hm]
  show EStateM.bind (remember mode) _ c = _
  simp only [EStateM.bind, hr]
  show (match c.ahead with
    | some ahead => pure ahead
    | none => throw (.internal .noLookahead) : Parser Lookahead) c = _
  rw [h]
  rfl

theorem peek_of_not_remembers (h : c.remembers mode = false) : peek mode c =
    match c.lookAhead mode with
    | .ok ahead => .ok ahead { c with ahead := some ahead }
    | .error e => .error e c := by
  show EStateM.bind (remember mode) _ c = _
  simp only [EStateM.bind, remember, h]
  cases c.lookAhead mode <;> rfl

/-- What `peek` yields is remembered behind it. -/
theorem ahead_of_peek (h : peek mode c = .ok l c') : c'.ahead = some l := by
  cases hr : c.remembers mode with
  | true =>
    obtain ⟨l', hl, hm⟩ := Cursor.remembers_iff.1 hr
    rw [peek_of_ahead hl hm] at h
    cases h
    exact hl
  | false =>
    rw [peek_of_not_remembers hr] at h
    split at h <;> cases h
    rfl

theorem advance_eq (mode : Mode) : advance mode = do
    let ahead ← peek mode
    modify fun c => ⟨ahead.token.stop, ahead.rest, none, ahead :: c.consumed⟩
    return ahead.token := by
  funext c
  show EStateM.bind (peek mode) _ c = EStateM.bind (peek mode) _ c
  unfold EStateM.bind
  cases h : peek mode c with
  | error e c' => rfl
  | ok l c' =>
    show (match c'.ahead with
      | some ahead => do
        set (⟨ahead.token.stop, ahead.rest, none, ahead :: c'.consumed⟩ : Cursor)
        return ahead.token
      | none => throw (.internal .noLookahead) : Parser Token) c' = _
    rw [ahead_of_peek h]
    rfl

/-- If `peek` fails, then at a character that starts no token. -/
theorem exists_place_of_peek (h : peek mode c = .error e c') : ∃ place, e = .invalidToken place := by
  cases hr : c.remembers mode with
  | true =>
    obtain ⟨l', hl, hm⟩ := Cursor.remembers_iff.1 hr
    rw [peek_of_ahead hl hm] at h
    cases h
  | false =>
    rw [peek_of_not_remembers hr] at h
    split at h
    next => cases h
    next e' he =>
      cases h
      exact Cursor.exists_place_of_lookAhead he

theorem peek_ne_noLookahead : peek mode c ≠ .error (.internal .noLookahead) c' := by
  intro h
  obtain ⟨place, he⟩ := exists_place_of_peek h
  cases he

theorem advance_ne_noLookahead : advance mode c ≠ .error (.internal .noLookahead) c' := by
  intro h
  rw [advance_eq] at h
  change EStateM.bind (peek mode) _ c = _ at h
  unfold EStateM.bind at h
  split at h
  next => cases h
  next hp =>
    cases h
    exact peek_ne_noLookahead hp

end

end Parser

end Scriptlet
