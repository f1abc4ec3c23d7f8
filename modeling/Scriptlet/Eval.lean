import Scriptlet.Error
import Scriptlet.Value.Operation
import Scriptlet.Store

/-!
# Evaluation

A node runs in a frame and changes the store. It completes, or the run halts: with an error, or
since a bound on its length was reached. What was done to the store before a halt stays done.

Each construct is a function of `exec`, which runs the nodes inside of it; `exec` itself ties the
knot. Its first argument bounds the depth of nesting and the number of rounds of each loop.
-/

namespace Scriptlet

/-- Why a run stopped before its end. -/
inductive Halt where
  | failed (e : Error)
  | exhausted

/-- A run: it changes a store, and yields a result or halts. -/
abbrev Run := EStateM Halt Store

namespace Run

/-- Halts with an error. -/
def fail {α : Type} (e : Error) : Run α := throw (.failed e)

/-- The value of a name. -/
def read (env : FrameId) (name : String) : Run Value := return (← get).read env name

/-- Assigns to a name. -/
def write (env : FrameId) (name : String) (v : Value) : Run Unit := modify (·.write env name v)

/-- Binds a name in a frame. -/
def declare (env : FrameId) (name : String) (v : Value) : Run Unit := modify (·.declare env name v)

/-- Removes the binding of a name. -/
def delete (env : FrameId) (name : String) : Run Bool := modifyGet (·.delete env name)

/-- Opens a frame inside another. -/
def newChild (env : FrameId) : Run FrameId := modifyGet (·.newChild env)

/-- Makes a closure in a frame. -/
def newClosure (env : FrameId) (name : Option String) (params : List String) (body : List Node)
    (bindsOwnName : Bool) : Run Closure :=
  modifyGet fun st =>
    (⟨st.closures, name, params, body, env, bindsOwnName⟩, { st with closures := st.closures + 1 })

end Run

namespace Eval

open Run

/-- What runs the nodes inside of a construct. -/
abbrev Exec := Node → FrameId → Run Completion

/-- Runs a node that has to yield a value. -/
def value (exec : Exec) (node : Node) (env : FrameId) : Run Value := do
  match ← exec node env with
  | .normal v => return v
  | c => fail (.internal (.noValue c))

/-- Runs an optional node that has to yield a value; without it the value is undefined. -/
def optionalValue (exec : Exec) (node : Option Node) (env : FrameId) : Run Value :=
  match node with
  | some node => value exec node env
  | none => return .undefined

/-- Runs nodes for their values, in order. -/
def values (exec : Exec) (env : FrameId) : List Node → Run (List Value)
  | [] => return []
  | node :: nodes => do
    let v ← value exec node env
    return v :: (← values exec env nodes)

/-- Runs statements in order up to the first that completes abruptly. They yield the value of the
last one. -/
def statements (exec : Exec) (env : FrameId) (last : Value) : List Node → Run Completion
  | [] => return .normal last
  | node :: nodes => do
    match ← exec node env with
    | .normal v => statements exec env v nodes
    | c => return c

/-- Binds the parameters of a function; missing arguments are undefined, extra ones are dropped. -/
def bindParams (env : FrameId) : List String → List Value → Run Unit
  | [], _ => return
  | name :: names, args => do
    declare env name (args.headD .undefined)
    bindParams env names args.tail

/-- The frame of a call: inside the frame that the function was made in, with the function's own name
if it is visible to its body, and then the parameters. -/
def openCall (f : Closure) (args : List Value) : Run FrameId := do
  let env ← newChild f.env
  match f.name with
  | some name => if f.bindsOwnName then declare env name (.function f)
  | none => pure ()
  bindParams env f.params args
  return env

/-- Calls a function. It yields the value of the first `return` that its body reaches. -/
def call (exec : Exec) (f : Closure) (args : List Value) : Run Value := do
  let env ← openCall f args
  match ← statements exec env .undefined f.body with
  | .returned v => return v
  | .normal _ => return .undefined
  | .broken | .continued => fail (.internal .escapedJump)

/-- Calls the value of a node. The arguments are evaluated first, also if there is nothing to call. -/
def callNode (exec : Exec) (callee : Node) (args : List Node) (env : FrameId) : Run Value := do
  let f ← value exec callee env
  let args ← values exec env args
  match f with
  | .function f => call exec f args
  | other =>
    match callee with
    | .identifier name => fail (.notCallable name)
    | _ => fail (.notCallable other.toText)

/-- What an assignment writes to: a name, or a property, which no value has. -/
inductive Reference where
  | variable (name : String)
  | property

/-- Finds what a node refers to. -/
def resolve (exec : Exec) (env : FrameId) : Node → Run Reference
  | .identifier name => return .variable name
  | .property object key => do
    let _ ← value exec object env
    let _ ← value exec key env
    return .property
  | other => fail (.internal (.noTarget other))

/-- The value of a reference. -/
def Reference.get (env : FrameId) : Reference → Run Value
  | .variable name => read env name
  | .property => return .undefined

/-- Writes through a reference; what is written to a property is lost. -/
def Reference.put (env : FrameId) (v : Value) : Reference → Run Unit
  | .variable name => write env name v
  | .property => return

/-- An assignment. The old value is read before the right side is evaluated. -/
def assign (exec : Exec) (op : AssignOp) (target source : Node) (env : FrameId) : Run Value := do
  let reference ← resolve exec env target
  match op.binary? with
  | none =>
    let v ← value exec source env
    reference.put env v
    return v
  | some binary =>
    let old ← reference.get env
    let v := binary.apply old (← value exec source env)
    reference.put env v
    return v

/-- An update by one. -/
def update (exec : Exec) (op : UpdateOp) (target : Node) (env : FrameId) : Run Value := do
  let reference ← resolve exec env target
  let old := (← reference.get env).toNumber
  let new := old + op.delta
  reference.put env (.number new)
  return .number (if op.yieldsOld then old else new)

/-- A unary operation. Deletion removes the binding of a name; of anything else it is true. -/
def unary (exec : Exec) (op : UnaryOp) (argument : Node) (env : FrameId) : Run Value :=
  match op, argument with
  | .delete, .identifier name => return .boolean (← delete env name)
  | op, argument => return op.apply (← value exec argument env)

/-- A binary operation. The logical operators evaluate their right side only if it decides. -/
def binary (exec : Exec) (op : BinaryOp) (left right : Node) (env : FrameId) : Run Value := do
  let a ← value exec left env
  match op with
  | .and => if a.toBoolean then value exec right env else return a
  | .or => if a.toBoolean then return a else value exec right env
  | .sequence => value exec right env
  | op => return op.apply a (← value exec right env)

/-- Binds the names of a declaration in order, each after its initial value is computed. -/
def declareAll (exec : Exec) (env : FrameId) : List (String × Option Node) → Run Unit
  | [] => return
  | (name, init) :: rest => do
    declare env name (← optionalValue exec init env)
    declareAll exec env rest

/-- What the completion of its body means for a loop, and the value of the last round that ran to its end. -/
inductive LoopStep where
  | next (last : Value)
  | exit (last : Value)
  | propagate (c : Completion)

/-- What a completion means for a loop whose last round so far had the value `last`. -/
def loopStep (last : Value) : Completion → LoopStep
  | .normal v => .next v
  | .continued => .next last
  | .broken => .exit last
  | .returned v => .propagate (.returned v)

/-- The rounds of a `while` loop, at most `n` of them. -/
def whileRounds (exec : Exec) (test body : Node) (env : FrameId) : Nat → Value → Run Completion
  | 0, _ => throw .exhausted
  | n + 1, last => do
    if (← value exec test env).toBoolean then
      match loopStep last (← exec body env) with
      | .next last => whileRounds exec test body env n last
      | .exit last => return .normal last
      | .propagate c => return c
    else return .normal last

/-- The rounds of a `do` loop, which is tested after each of them. -/
def doWhileRounds (exec : Exec) (test body : Node) (env : FrameId) : Nat → Value → Run Completion
  | 0, _ => throw .exhausted
  | n + 1, last => do
    match loopStep last (← exec body env) with
    | .next last =>
      if (← value exec test env).toBoolean then doWhileRounds exec test body env n last else return .normal last
    | .exit last => return .normal last
    | .propagate c => return c

/-- Whether a `for` loop goes on; a missing test holds. -/
def holds (exec : Exec) (test : Option Node) (env : FrameId) : Run Bool :=
  match test with
  | some test => return (← value exec test env).toBoolean
  | none => return true

/-- The rounds of a `for` loop. -/
def forRounds (exec : Exec) (test update : Option Node) (body : Node) (env : FrameId) :
    Nat → Value → Run Completion
  | 0, _ => throw .exhausted
  | n + 1, last => do
    if ← holds exec test env then
      match loopStep last (← exec body env) with
      | .next last =>
        let _ ← optionalValue exec update env
        forRounds exec test update body env n last
      | .exit last => return .normal last
      | .propagate c => return c
    else return .normal last

/-- Runs the first part of a loop, however it completes. -/
def init (exec : Exec) (node : Option Node) (env : FrameId) : Run Unit :=
  match node with
  | some node => do
    let _ ← exec node env
    return
  | none => return

/-- Runs a node, given what runs the nodes inside of it and a bound for the rounds of its loop. -/
def execWith (exec : Exec) (n : Nat) (node : Node) (env : FrameId) : Run Completion :=
  match node with
  | .number x => return .normal (.number x)
  | .boolean b => return .normal (.boolean b)
  | .string s => return .normal (.string s)
  | .regExp pattern flags => return .normal (.string ("/" ++ pattern ++ "/" ++ flags))
  | .null => return .normal .null
  | .identifier name => return .normal (← read env name)
  | .unary op argument => return .normal (← unary exec op argument env)
  | .update op target => return .normal (← update exec op target env)
  | .binary op left right => return .normal (← binary exec op left right env)
  | .property object key => do
    let _ ← value exec object env
    let _ ← value exec key env
    return .normal .undefined
  | .assign op target source => return .normal (← assign exec op target source env)
  | .conditional test consequent alternate => do
    let branch := if (← value exec test env).toBoolean then consequent else alternate
    return .normal (← value exec branch env)
  | .call callee args => return .normal (← callNode exec callee args env)
  | .function name params body =>
    return .normal (.function (← newClosure env name params body name.isSome))
  | .declaration name params body => do
    let f ← newClosure env name params body false
    match name with
    | some name => declare env name (.function f)
    | none => pure ()
    return .normal (.function f)
  | .block nodes => do statements exec (← newChild env) .undefined nodes
  | .varList declarators => do
    declareAll exec env declarators
    return .normal .undefined
  | .returning argument => return .returned (← optionalValue exec argument env)
  | .branch test consequent alternate => do
    if (← value exec test env).toBoolean then exec consequent env
    else match alternate with
      | some alternate => exec alternate env
      | none => return .normal .undefined
  | .whileLoop test body => whileRounds exec test body env n .undefined
  | .doWhileLoop test body => doWhileRounds exec test body env n .undefined
  | .forLoop first test update body => do
    init exec first env
    forRounds exec test update body env n .undefined
  | .breakLoop => return .broken
  | .continueLoop => return .continued
  | .empty => return .normal .undefined

/-- Runs a node, at most `n` deep. -/
def exec : Nat → Exec
  | 0 => fun _ _ => throw .exhausted
  | n + 1 => execWith (exec n) n

/-- The value of a completion at the end of a program; a `return` ends it. -/
def result : Completion → Run Value
  | .normal v => return v
  | .returned v => return v
  | .broken | .continued => fail (.internal .strayJump)

/-- Runs a single node for its value. -/
def node (limit : Nat) (root : Node) (env : FrameId) : Run Value := do
  result (← exec limit root env)

/-- Runs a program. It yields the value of the last statement. -/
def program (limit : Nat) (p : Program) (env : FrameId) : Run Value := do
  result (← statements (exec limit) env .undefined p)

/-- A `for` loop with a test and without an update takes the rounds of a `while` loop. -/
theorem forRounds_eq_whileRounds (exec : Exec) (test body : Node) (env : FrameId) (n : Nat) (last : Value) :
    forRounds exec (some test) none body env n last = whileRounds exec test body env n last := by
  induction n generalizing last with
  | zero => rfl
  | succ n ih => simp only [forRounds, whileRounds, holds, optionalValue, bind_assoc, pure_bind, ih]

end Eval

end Scriptlet
