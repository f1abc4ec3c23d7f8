import Scriptlet.Console.Balance
import Scriptlet.Console.Command
import Scriptlet.Console.Files
import Scriptlet.Console.Output
import Scriptlet.Session
import Scriptlet.Text.Cluster

/-!
# The prompt

Entries are read line by line; an entry that is not complete goes on over the next line. An entry is
a command or a program, which runs in one session.
-/

namespace Scriptlet.Console

open Text

/-- The version of the program. -/
def version : String := "0.1.0"

/-- What is printed when the session starts. -/
def banner : Output := .lines [
  "",
  "  " ++ (Style.bold .white).apply "Quill" ++ " " ++ Style.dimmed.apply "v" ++ " " ++
    (Style.coloured .brightYellow).apply version,
  "  " ++ Style.dimmed.apply "Type" ++ " " ++ (Style.coloured .cyan).apply ".help" ++ " " ++
    Style.dimmed.apply "for available commands",
  ""]

/-- A line of the help text: what to type, and what it does. -/
def helpLine (colour : Colour) (entry : String × String) : String :=
  "  " ++ (Style.coloured colour).apply (padRight 16 entry.1) ++ " " ++ Style.dimmed.apply entry.2

/-- The help text. -/
def help : Output := .lines (
  ["", (Style.bold .white).apply "REPL Commands:", ""] ++
  Command.summaries.map (helpLine .cyan) ++
  ["", (Style.bold .white).apply "Keyboard Shortcuts:", ""] ++
  [("Ctrl+C", "Cancel current input"), ("Ctrl+D", "Exit REPL"), ("Tab", "Autocomplete"),
    ("↑/↓", "Navigate history")].map (helpLine .yellow) ++
  [""])

/-- What is printed when a command lacks its argument. -/
def missingArgument (command what : String) : Output :=
  .failure "Error" ((Style.coloured .cyan).apply command ++ " " ++
    Style.dimmed.apply ("requires " ++ what))

/-- What is printed when an evaluation is cut off. -/
def cutOff : Output := .failure "Error" "evaluation takes too long"

/-- Evaluates a source and prints its value. -/
def evaluate (limit : Nat) (s : Session) (source : String) : Output × Session :=
  match s.eval limit source with
  | (.value v, s) => (.line (showValue v), s)
  | (.error e, s) => (.ofError e, s)
  | (.exhausted, s) => (cutOff, s)

/-- Runs a command; there is no session after the one that ends it. -/
def perform (limit : Nat) (files : Files) (s : Session) (command : Command)
    (argument : Option String) : Output × Option Session :=
  match command, argument with
  | .help, _ => (help, some s)
  | .exit, _ => (.empty, none)
  | .clear, _ => (.text "\x1b[2J\x1b[H", some s)
  | .version, _ =>
    (.line ((Style.bold .brightCyan).apply "Quill" ++ ": " ++
      (Style.coloured .yellow).apply version), some s)
  | .load, none => (missingArgument ".load" "a file path", some s)
  | .load, some path =>
    match files.read path with
    | .ok source =>
      let (output, s) := evaluate limit s source
      (output, some s)
    | .error cause => (.failure "Error" cause, some s)
  | .ast, none => (missingArgument ".ast" "some code", some s)
  | .ast, some code =>
    match listTree code false with
    | .ok tree => (.line tree, some s)
    | .error e => (.ofError e, some s)
  | .tokens, none => (missingArgument ".tokens" "some code", some s)
  | .tokens, some code =>
    match listTokens code with
    | .ok tokens => (.lines (tokens.map Style.dimmed.apply), some s)
    | .error e => (.ofError e, some s)

/-- Handles a complete entry: nothing but white space is skipped, a command is run, and anything else
is evaluated. -/
def handle (limit : Nat) (files : Files) (s : Session) (entry : String) : Output × Option Session :=
  if (trim isWhiteSpace entry.toList).isEmpty then (.empty, some s)
  else
    match Command.parse? entry with
    | some (command, argument) => perform limit files s command argument
    | none =>
      let (output, s) := evaluate limit s entry
      (output, some s)

/-- A text that was typed: the sizes of its clusters and its characters, the last ones first. -/
structure Typed where
  sizes : List Nat
  text : List Char

namespace Typed

/-- Types a cluster. The size of a cluster in bytes is kept in a single byte, so it counts modulo
256. -/
def type (t : Typed) (cluster : List Char) : Typed :=
  ⟨byteLength cluster % 256 :: t.sizes, cluster.reverse ++ t.text⟩

/-- Erases as many bytes as the last cluster is known to have. -/
def erase (t : Typed) : Typed :=
  match t.sizes with
  | [] => t
  | n :: sizes => ⟨sizes, (dropBytes? n t.text).getD t.text⟩

/-- Types a cluster, or erases one if it is a backspace. -/
def key (t : Typed) (cluster : List Char) : Typed :=
  if cluster = ['\x08'] then t.erase else t.type cluster

end Typed

/-- Applies backspaces: each erases the cluster before it. -/
def applyBackspaces (cs : List Char) : List Char :=
  ((clusters cs).foldl Typed.key ⟨[], []⟩).text.reverse

/-- A line without the characters that end it, and those characters. -/
def splitEnd (line : List Char) : List Char × List Char :=
  match line.reverse with
  | '\n' :: '\r' :: front => (front.reverse, ['\r', '\n'])
  | '\n' :: front => (front.reverse, ['\n'])
  | _ => (line, [])

/-- A session at the prompt, with the start of an entry that goes on. -/
structure Prompt where
  session : Session
  pending : List Char

/-- The prompt at the start. -/
def Prompt.new : Prompt := ⟨.new, []⟩

/-- What a line makes of the entry it belongs to: the text so far, and whether it is complete. -/
def Prompt.entry (p : Prompt) (line : List Char) : List Char × Bool :=
  let (body, ending) := splitEnd line
  let entry := applyBackspaces (p.pending ++ body)
  if isComplete entry then (entry, true) else (entry ++ ending, false)

/-- Reads a line, which includes the characters that end it. -/
def Prompt.read (limit : Nat) (files : Files) (p : Prompt) (line : List Char) :
    Output × Option Prompt :=
  match p.entry line with
  | (entry, false) => (.empty, some { p with pending := entry })
  | (entry, true) =>
    let (output, session) := handle limit files p.session (String.ofList entry)
    (output, session.map fun s => ⟨s, []⟩)

/-- What is printed when the input ends. -/
def goodbye : Output := .line (Style.dimmed.apply "^D")

/-- Reads lines until one of them ends the session or the input ends. -/
def Prompt.run (limit : Nat) (files : Files) (p : Prompt) : List (List Char) → Output
  | [] => goodbye
  | line :: lines =>
    match p.read limit files line with
    | (output, some p) => output.append (p.run limit files lines)
    | (output, none) => output

/-- The lines of a text, each with the line feed that ends it. -/
def splitLines : List Char → List (List Char)
  | [] => []
  | c :: cs =>
    if c = '\n' then ['\n'] :: splitLines cs
    else
      match splitLines cs with
      | [] => [[c]]
      | line :: lines => (c :: line) :: lines

/-- A whole session, from the banner to its end. -/
def interactive (limit : Nat) (files : Files) (input : String) : Output :=
  banner.append ((Prompt.new.run limit files (splitLines input.toList)).append (.line ""))

end Scriptlet.Console
