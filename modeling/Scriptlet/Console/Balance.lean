import Scriptlet.Console.Highlight
import Scriptlet.Text.Blank

/-!
# Entries that go on

An entry at the prompt goes on over the next line if a bracket or a string is still open, or if it
ends in an operator. A closing bracket that does not match ends it at once: the parser will report
it.
-/

namespace Scriptlet.Console

open Text

/-- The closing bracket that an opening one asks for. -/
def closer? : Char → Option Char
  | '(' => some ')'
  | '[' => some ']'
  | '\x7b' => some '\x7d'
  | _ => none

/-- A closing bracket. -/
def isCloser (c : Char) : Bool := c == ')' || c == ']' || c == '\x7d'

/-- Whether a text closes all that is open: the brackets that `stack` lists, innermost first, and the
string that `quote` opened. A mismatch counts as closed. -/
def closes (stack : List Char) (quote : Option Char) : List Char → Bool
  | [] => stack.isEmpty && quote.isNone
  | c :: cs =>
    match quote with
    | some q => closes stack (if c = q then none else some q) cs
    | none =>
      if isQuote c then closes stack (some c) cs
      else
        match closer? c with
        | some close => closes (close :: stack) none cs
        | none =>
          if isCloser c then
            match stack with
            | [] => true
            | top :: stack => if top = c then closes stack none cs else true
          else closes stack none cs

/-- Whether no bracket and no string is left open. -/
def isBalanced (line : List Char) : Bool := closes [] none line

/-- The characters after which an entry goes on. -/
def continuing : List Char := ['\\', '+', '-', '*', '/', '=', ',', '&', '|', '?', ':']

/-- Whether an entry ends in a character after which it goes on. Commands never do. -/
def endsOpen (entry : List Char) : Bool :=
  let trimmed := trimEnd isWhiteSpace entry
  trimmed.head? != some '.' && trimmed.getLast?.any continuing.contains

/-- Whether an entry is complete as it stands. -/
def isComplete (entry : List Char) : Bool := isBalanced entry && !endsOpen entry

end Scriptlet.Console
