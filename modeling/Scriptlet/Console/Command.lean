import Scriptlet.Text.Blank

/-!
# Commands

A line that starts with a dot may be a command: its name, in letters of either case, and an argument
after white space.
-/

namespace Scriptlet.Console

open Text

/-- The commands at the prompt. -/
inductive Command where
  | help | exit | clear | version | load | ast | tokens
  deriving DecidableEq, Repr

namespace Command

/-- The small form of a letter in the name of a command: that of an ASCII letter, and `k` for the
Kelvin sign. No other character has a small form that occurs in such a name. -/
def lower (c : Char) : Char := if c == '\u212a' then 'k' else c.toLower

/-- The command with the given name or short name. -/
def ofName? (name : String) : Option Command :=
  if ["help", "h", "?"].contains name then some .help
  else if ["exit", "quit", "q"].contains name then some .exit
  else if ["clear", "cls"].contains name then some .clear
  else if ["version", "v"].contains name then some .version
  else if ["load", "l"].contains name then some .load
  else if name == "ast" then some .ast
  else if name == "tokens" then some .tokens
  else none

/-- The command and the argument on a line; an argument of white space only is none. -/
def parse? (line : String) : Option (Command × Option String) :=
  match trim isWhiteSpace line.toList with
  | '.' :: rest =>
    let name := rest.takeWhile fun c => !isWhiteSpace c
    let argument := trim isWhiteSpace (rest.drop name.length)
    (ofName? (String.ofList (name.map lower))).map fun command =>
      (command, if argument.isEmpty then none else some (String.ofList argument))
  | _ => none

/-- The commands with what they do, for the help text. -/
def summaries : List (String × String) := [
  (".help", "Show this help message"),
  (".exit", "Exit the REPL"),
  (".clear", "Clear the screen"),
  (".version", "Show version information"),
  (".load <file>", "Load and execute a source file"),
  (".ast <code>", "Print the syntax tree of a program"),
  (".tokens <code>", "Print the token stream of some code")]

end Command

end Scriptlet.Console
