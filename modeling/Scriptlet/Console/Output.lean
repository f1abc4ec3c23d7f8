import Scriptlet.Console.Listing
import Scriptlet.Console.Style

/-!
# Output

What a program writes to its two output streams.
-/

namespace Scriptlet.Console

/-- Text for the standard output and for the standard error. -/
structure Output where
  out : String
  err : String
  deriving Inhabited

namespace Output

/-- Nothing. -/
def empty : Output := ⟨"", ""⟩

/-- One output after the other. -/
def append (a b : Output) : Output := ⟨a.out ++ b.out, a.err ++ b.err⟩

/-- Text on the standard output. -/
def text (s : String) : Output := ⟨s, ""⟩

/-- A line on the standard output. -/
def line (s : String) : Output := ⟨s ++ "\n", ""⟩

/-- Lines on the standard output. -/
def lines (ls : List String) : Output := ⟨String.join (ls.map (· ++ "\n")), ""⟩

/-- A line on the standard error. -/
def errorLine (s : String) : Output := ⟨"", s ++ "\n"⟩

/-- A failure outside of the language: a label and the cause. -/
def failure (label cause : String) : Output :=
  errorLine ((Style.bold .red).apply label ++ ": " ++ cause)

/-- An error, the part before its first colon in colour. -/
def ofError (e : Error) : Output :=
  let message := e.message.toList
  let kind := message.takeWhile (· != ':')
  if kind.length < message.length then
    errorLine ((Style.bold .red).apply (String.ofList kind) ++
      String.ofList (message.drop kind.length))
  else errorLine ((Style.coloured .red).apply e.message)

end Output

end Scriptlet.Console
