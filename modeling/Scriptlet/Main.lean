import Scriptlet.Console.CommandLine

/-!
# The program

The outer layer: it reads the arguments, files and input, and prints what the command line comes to.
-/

namespace Scriptlet.Console

/-- The bound on evaluations, out of reach for a program that ends. -/
def evaluationLimit : Nat := 1000000000000000000

/-- Prints an output. -/
def Output.print (o : Output) : IO Unit := do
  IO.print o.out
  IO.eprint o.err

/-- What the number of a system error says about a file; some calls give it with a minus sign. -/
def faultOfNumber? (code : UInt32) : Option FileFault :=
  match (if code < 2147483648 then code else 0 - code) with
  | 2 => some .missing
  | 20 => some .notFolder
  | 21 => some .folder
  | 36 => some .nameTooLong
  | _ => none

/-- What a failure to read a file comes to. -/
def faultOf (e : IO.Error) : FileFault :=
  let known := match e with
    | .noFileOrDirectory _ code _ => faultOfNumber? code
    | .inappropriateType _ code _ => faultOfNumber? code
    | .invalidArgument _ code _ => faultOfNumber? code
    | _ => none
  known.getD (.other (toString e))

/-- Reads a file. -/
def readText (path : String) : IO (Except FileFault String) := do
  try
    return .ok (← IO.FS.readFile path)
  catch e => return .error (faultOf e)

/-- The files that a step may ask for: just the one at the given path, if there is one. -/
def filesAt (path : Option String) : IO Files := do
  match path with
  | some path =>
    let content ← readText path
    return fun _ => content
  | none => return Files.ofList []

/-- The file that an entry asks for. -/
def wanted (entry : List Char × Bool) : Option String :=
  match entry with
  | (text, true) =>
    match Command.parse? (String.ofList text) with
    | some (.load, path) => path
    | _ => none
  | _ => none

/-- Reads lines from the standard input until the session or the input ends. -/
partial def interact (p : Prompt) : IO Unit := do
  let line := (← (← IO.getStdin).getLine).toList
  if line.isEmpty then goodbye.print
  else
    let files ← filesAt (wanted (p.entry line))
    let (output, next) := p.read evaluationLimit files line
    output.print
    match next with
    | some p => interact p
    | none => return

/-- Runs the program with its arguments. -/
def start (args : List String) : IO UInt32 := do
  match Options.request args with
  | .run ⟨none, none, _, _, _, _⟩ =>
    banner.print
    interact .new
    (Output.line "").print
    return 0
  | .run o =>
    let files ← filesAt o.file
    let exit := runOptions evaluationLimit files "" o
    exit.output.print
    return exit.code.toUInt32
  | _ =>
    let exit := commandLine evaluationLimit (Files.ofList []) "" args
    exit.output.print
    return exit.code.toUInt32

end Scriptlet.Console

/-- Runs the program. -/
def main (args : List String) : IO UInt32 := Scriptlet.Console.start args
