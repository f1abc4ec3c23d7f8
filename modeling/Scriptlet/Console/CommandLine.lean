import Scriptlet.Console.Prompt

/-!
# The command line

Options come before or after the file, in a long or a short form; short ones without a value can be
joined. After `--` there are no more options. The first fault in the arguments decides, unless the
version is asked for before it.
-/

namespace Scriptlet.Console

/-- What the arguments ask for. -/
structure Options where
  file : Option String := none
  code : Option String := none
  expression : Bool := false
  ast : Bool := false
  tokens : Bool := false
  verbose : Bool := false
  deriving DecidableEq, Repr

/-- What reading the arguments comes to. -/
inductive Request where
  | run (o : Options)
  | version
  | help
  | usage
  deriving DecidableEq, Repr

namespace Options

/-- What an option without a value does. -/
inductive Switch where
  | set (o : Options)
  | stop (r : Request)

/-- Sets a switch, or stops if it was set before. -/
def switch (o : Options) (isSet : Bool) (set : Options → Options) : Switch :=
  if isSet then .stop .usage else .set (set o)

/-- The option of the given long name, if it takes no value. -/
def long (o : Options) (name : String) : Switch :=
  if name = "expression" then o.switch o.expression fun o => { o with expression := true }
  else if name = "ast" then o.switch o.ast fun o => { o with ast := true }
  else if name = "tokens" then o.switch o.tokens fun o => { o with tokens := true }
  else if name = "verbose" then o.switch o.verbose fun o => { o with verbose := true }
  else if name = "version" then .stop .version
  else if name = "help" then .stop .help
  else .stop .usage

/-- The option of the given short name, if it takes no value. -/
def short (o : Options) (c : Char) : Switch :=
  if c = 'x' then o.long "expression"
  else if c = 'V' then .stop .version
  else if c = 'h' then .stop .help
  else .stop .usage

/-- Takes the code to evaluate, which may be given once. -/
def withCode (o : Options) (code : String) : Switch :=
  if o.code.isSome then .stop .usage else .set { o with code := some code }

/-- Takes the file, which may be given once and has a name. -/
def withFile (o : Options) (path : String) : Switch :=
  if o.file.isSome || path.isEmpty then .stop .usage else .set { o with file := some path }

/-- What an argument asks for: a step, or a step with the next argument as its value. -/
inductive Step where
  | done (s : Switch)
  | needsCode (o : Options)

/-- Short options in one argument. The code may follow its option at once or behind an equals
sign. -/
def cluster (o : Options) : List Char → Step
  | [] => .done (.set o)
  | 'e' :: [] => .needsCode o
  | 'e' :: '=' :: code => .done (o.withCode (String.ofList code))
  | 'e' :: code => .done (o.withCode (String.ofList code))
  | c :: cs =>
    match o.short c with
    | .set o => cluster o cs
    | .stop r => .done (.stop r)

/-- One argument before `--`. -/
def argument (o : Options) (arg : String) : Step :=
  match arg.toList with
  | '-' :: '-' :: body =>
    let name := body.takeWhile (· != '=')
    if name = "eval".toList then
      if name.length < body.length then
        .done (o.withCode (String.ofList (body.drop (name.length + 1))))
      else .needsCode o
    else if name.length < body.length then .done (.stop .usage)
    else .done (o.long (String.ofList name))
  | '-' :: c :: cs => cluster o (c :: cs)
  | _ => .done (o.withFile arg)

/-- Arguments after `--`. -/
def files (o : Options) : List String → Switch
  | [] => .set o
  | arg :: args =>
    match o.withFile arg with
    | .set o => files o args
    | .stop r => .stop r

/-- Whether an argument can be the value of an option: a lone dash can, anything else after a dash
cannot. -/
def isValue (arg : String) : Bool := arg == "-" || !arg.startsWith "-"

/-- Reads arguments in order. -/
def read (o : Options) : List String → Switch
  | [] => .set o
  | arg :: args =>
    if arg = "--" then o.files args
    else
      match o.argument arg with
      | .done (.set o) => read o args
      | .done (.stop r) => .stop r
      | .needsCode o =>
        match args with
        | code :: args =>
          if isValue code then
            match o.withCode code with
            | .set o => read o args
            | .stop r => .stop r
          else .stop .usage
        | [] => .stop .usage

/-- Whether the options go together: a tree or tokens but not both, and an expression only of code. -/
def isConsistent (o : Options) : Bool := !(o.ast && o.tokens) && (!o.expression || o.code.isSome)

/-- What the arguments ask for. -/
def request (args : List String) : Request :=
  match Options.read {} args with
  | .set o => if o.isConsistent then .run o else .usage
  | .stop r => r

end Options

/-- What a run of the program comes to. -/
structure Exit where
  code : Nat
  output : Output

/-- Evaluates code and prints its value, unless that is undefined. -/
def evaluateOnce (limit : Nat) (source : String) (expression : Bool) : Exit :=
  let s := Session.new
  match (if expression then s.evalExpression limit source else s.eval limit source).1 with
  | .value .undefined => ⟨0, .empty⟩
  | .value v => ⟨0, .line v.toText⟩
  | .error e => ⟨1, .ofError e⟩
  | .exhausted => ⟨1, cutOff⟩

/-- Evaluates a source or lists it, as the options say. -/
def runSource (limit : Nat) (o : Options) (source : String) (expression : Bool) : Exit :=
  if o.ast then
    match listTree source expression with
    | .ok tree => ⟨0, .line tree⟩
    | .error e => ⟨1, .ofError e⟩
  else if o.tokens then
    match listTokens source with
    | .ok tokens => ⟨0, .lines tokens⟩
    | .error e => ⟨1, .ofError e⟩
  else evaluateOnce limit source expression

/-- Runs the program as its options say: the code, else the file, else a session on the input. -/
def runOptions (limit : Nat) (files : Files) (input : String) (o : Options) : Exit :=
  match o.code, o.file with
  | some code, _ => runSource limit o code o.expression
  | none, some path =>
    match files.read path with
    | .ok source => runSource limit o source false
    | .error cause => ⟨1, .failure "Error" cause⟩
  | none, none => ⟨0, interactive limit files input⟩

/-- How the program is called. -/
def usage : String := "usage: [--eval CODE [--expression]] [--ast | --tokens] [--verbose] [FILE]"

/-- Runs the program with its arguments, files and input. -/
def commandLine (limit : Nat) (files : Files) (input : String) (args : List String) : Exit :=
  match Options.request args with
  | .run o => runOptions limit files input o
  | .version => ⟨0, .line ("quill " ++ version)⟩
  | .help => ⟨0, .line usage⟩
  | .usage => ⟨2, .errorLine usage⟩

end Scriptlet.Console
