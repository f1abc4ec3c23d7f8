import Scriptlet.Text.Bytes
import Scriptlet.Token.Scan

/-!
# Tokens in their places

A token is a kind with its span, in bytes from the start of the source. `Token.next?` scans at any
place of a source, `Token.stream` lists all tokens and chooses for each what is expected from the
token before it.
-/

namespace Scriptlet

open Text Token

/-- A token and its span `start ≤ · < stop`, in bytes. -/
structure Token where
  kind : Token.Kind
  start : Nat
  stop : Nat
  deriving DecidableEq

namespace Token

/-- The number of bytes in a token's span. -/
def length (t : Token) : Nat := t.stop - t.start

/-- Whether a token's span is empty. -/
def isEmpty (t : Token) : Bool := t.start == t.stop

/-- Scans a text that starts at byte `offset` of its source: the token and the text after it, or the
place where no lexical rule applies. -/
def scanAt (offset : Nat) (mode : Mode) (cs : List Char) : Except Nat (Token × List Char) :=
  match scan mode cs with
  | .lexeme gap found =>
    let start := offset + byteLength gap
    .ok (⟨found.kind, start, start + byteLength found.text⟩, found.rest)
  | .invalid gap => .error (offset + byteLength gap)

/-- Scans a source at a byte offset; an offset past the end stands for the end. Gives the token and
the offset of the text after it, or the place where no lexical rule applies. There is no answer if
the offset lies inside a character. -/
def next? (source : List Char) (offset : Nat) (mode : Mode) : Option (Except Nat (Token × Nat)) :=
  (dropBytes? offset source).map fun cs => do
    let (token, rest) ← scanAt (byteLength source - byteLength cs) mode cs
    return (token, byteLength source - byteLength rest)

/-- What is expected after a token. -/
def modeAfter : Option Kind → Mode
  | some k => if k.endsOperand then .operator else .operand
  | none => .operand

/-- The token before the next one, line ends left out. -/
def previous (before : Option Kind) (k : Kind) : Option Kind :=
  if k = .lineBreak then before else some k

/-- The tokens of a text up to its end, or up to the place where no lexical rule applies. -/
def streamFrom (before : Option Kind) (offset : Nat) (cs : List Char) : List Token × Option Nat :=
  match _h : scan (modeAfter before) cs with
  | .invalid gap => ([], some (offset + byteLength gap))
  | .lexeme gap found =>
    if _hk : found.kind = .eof then ([], none)
    else
      let start := offset + byteLength gap
      let stop := start + byteLength found.text
      let (tokens, bad) := streamFrom (previous before found.kind) stop found.rest
      (⟨found.kind, start, stop⟩ :: tokens, bad)
termination_by cs.length
decreasing_by exact scan_length_lt _h _hk

/-- All tokens of a source, without the end, and the place where scanning fails, if it does. -/
def stream (source : List Char) : List Token × Option Nat := streamFrom none 0 source

end Token

end Scriptlet
