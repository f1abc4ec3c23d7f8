import Scriptlet.Grammar.Rules

/-!
# Listings

Sources shown as syntax trees or as lists of tokens.
-/

namespace Scriptlet.Console

open Text

/-- The syntax tree of a source, over several lines. -/
def listTree (source : String) (expression : Bool) : Except Error String :=
  if expression then (parseExpression source).map fun node => node.outline.tall 0
  else (parse source).map fun program => (Program.outline program).tall 0

/-- The text with blanks before it, up to a width. -/
def padLeft (width : Nat) (s : String) : String :=
  String.ofList (List.replicate (width - s.length) ' ') ++ s

/-- The text with blanks after it, up to a width. -/
def padRight (width : Nat) (s : String) : String :=
  s ++ String.ofList (List.replicate (width - s.length) ' ')

/-- A token with its span. -/
def tokenLine (t : Token) : String :=
  padLeft 4 (toString t.start) ++ ".." ++ padRight 4 (toString t.stop) ++ " " ++ t.kind.describe

/-- The tokens of a source, one on each line. -/
def listTokens (source : String) : Except Error (List String) :=
  match Token.stream source.toList with
  | (tokens, none) => .ok (tokens.map tokenLine)
  | (_, some place) => .error (.invalidToken place)

end Scriptlet.Console
