import Scriptlet.Grammar.Rules
import Scriptlet.Eval

/-!
# Sessions

A session evaluates one source after the other in the same global frame. A source that cannot be
read leaves the store as it was; one that fails while it runs keeps what it did before.
-/

namespace Scriptlet

namespace Run

/-- Reads a tree and runs it; nothing runs if it cannot be read. -/
def ofParsed {α : Type} (parsed : Except Error α) (run : α → Run Value) : Run Value :=
  match parsed with
  | .ok tree => run tree
  | .error e => fail e

/-- Runs a source as a program in a frame. -/
def source (limit : Nat) (text : String) (env : FrameId) : Run Value :=
  ofParsed (parse text) (Eval.program limit · env)

/-- Runs a source that is one expression in a frame. -/
def expressionSource (limit : Nat) (text : String) (env : FrameId) : Run Value :=
  ofParsed (parseExpression text) (Eval.node limit · env)

end Run

/-- A store with its global frame. -/
structure Session where
  store : Store
  global : FrameId

namespace Session

/-- A session in which nothing has been evaluated. -/
def new : Session :=
  let (global, store) := Store.empty.newRoot
  ⟨store, global⟩

/-- How a source ended in a session. -/
inductive Outcome where
  | value (v : Value)
  | error (e : Error)
  | exhausted

/-- Lets a run act on the session. -/
def perform (s : Session) (run : FrameId → Run Value) : Outcome × Session :=
  match run s.global s.store with
  | .ok v st => (.value v, { s with store := st })
  | .error (.failed e) st => (.error e, { s with store := st })
  | .error .exhausted st => (.exhausted, { s with store := st })

/-- Evaluates a program. -/
def eval (limit : Nat) (s : Session) (text : String) : Outcome × Session :=
  s.perform (Run.source limit text)

/-- Evaluates a single expression. -/
def evalExpression (limit : Nat) (s : Session) (text : String) : Outcome × Session :=
  s.perform (Run.expressionSource limit text)

end Session

end Scriptlet
