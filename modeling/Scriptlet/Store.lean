import Scriptlet.Value

/-!
# Frames

Variables live in frames, and each frame but the outermost has an outer frame, which is older. The
chain of a frame is the frame itself, its outer frame, and so on. A name means the binding in the
first frame of the chain that owns it. Frames are never removed: closures keep using the frames they
were made in.
-/

namespace Scriptlet

/-- The names of a frame with their values; a name occurs once. -/
abbrev Bindings := List (String × Value)

namespace Bindings

/-- The value of a name. -/
def get? (b : Bindings) (name : String) : Option Value := b.lookup name

/-- Gives a name a value, in the place of its old one if it had one. -/
def insert (name : String) (v : Value) : Bindings → Bindings
  | [] => [(name, v)]
  | (x, w) :: b => if x = name then (name, v) :: b else (x, w) :: insert name v b

/-- Removes a name. -/
def erase (name : String) (b : Bindings) : Bindings := b.filter fun p => p.1 ≠ name

/-- The names that have values. -/
def names (b : Bindings) : List String := b.map Prod.fst

end Bindings

/-- A frame: its own bindings and the frame outside of it. -/
structure Frame where
  bindings : Bindings
  outer : Option FrameId
  deriving Inhabited

/-- Whether a frame binds a name itself. -/
def Frame.owns (f : Frame) (name : String) : Bool := (f.bindings.get? name).isSome

/-- All frames by number, and the number of closures made so far. -/
structure Store where
  frames : Array Frame
  closures : Nat
  deriving Inhabited

namespace Store

/-- No frames and no closures. -/
def empty : Store := ⟨#[], 0⟩

/-- Adds a frame that has no outer frame. -/
def newRoot (st : Store) : FrameId × Store :=
  (st.frames.size, { st with frames := st.frames.push ⟨[], none⟩ })

/-- Adds a frame inside another. -/
def newChild (st : Store) (env : FrameId) : FrameId × Store :=
  (st.frames.size, { st with frames := st.frames.push ⟨[], some env⟩ })

/-- The frame outside of a frame. -/
def outer? (st : Store) (env : FrameId) : Option FrameId := st.frames[env]?.bind Frame.outer

/-- Whether a frame binds a name itself. -/
def owns (st : Store) (name : String) (env : FrameId) : Bool :=
  st.frames[env]?.any (·.owns name)

/-- A frame, its outer frame, and so on to the outermost. Outer frames are older, so their numbers
decrease. -/
def chain (st : Store) (env : FrameId) : List FrameId :=
  match st.outer? env with
  | some outer => if outer < env then env :: chain st outer else [env]
  | none => [env]
termination_by env

/-- The first frame of the chain that binds a name. -/
def owner? (st : Store) (env : FrameId) (name : String) : Option FrameId :=
  (st.chain env).find? (st.owns name)

/-- The outermost frame of the chain. -/
def root (st : Store) (env : FrameId) : FrameId := (st.chain env).getLastD env

/-- The number of frames outside of a frame. -/
def depth (st : Store) (env : FrameId) : Nat := (st.chain env).length - 1

/-- The bindings of a frame. -/
def bindings (st : Store) (env : FrameId) : Bindings :=
  match st.frames[env]? with
  | some f => f.bindings
  | none => []

/-- Changes the bindings of a frame. -/
def modify (st : Store) (env : FrameId) (change : Bindings → Bindings) : Store :=
  { st with frames := st.frames.modify env fun f => { f with bindings := change f.bindings } }

/-- Binds a name in a frame. -/
def declare (st : Store) (env : FrameId) (name : String) (v : Value) : Store :=
  st.modify env (.insert name v)

/-- The value of a name seen from a frame; undefined if no frame of the chain binds it. -/
def read (st : Store) (env : FrameId) (name : String) : Value :=
  match st.owner? env name with
  | some owner => ((st.bindings owner).get? name).getD .undefined
  | none => .undefined

/-- Assigns to a name where it is bound, or binds it in the outermost frame. -/
def write (st : Store) (env : FrameId) (name : String) (v : Value) : Store :=
  st.declare ((st.owner? env name).getD (st.root env)) name v

/-- Removes the binding that a name means, and says whether there was one. -/
def delete (st : Store) (env : FrameId) (name : String) : Bool × Store :=
  match st.owner? env name with
  | some owner => (((st.bindings owner).get? name).isSome, st.modify owner (.erase name))
  | none => (false, st)

/-- Whether a name has a binding in some frame of the chain. -/
def hasBinding (st : Store) (env : FrameId) (name : String) : Bool := (st.owner? env name).isSome

/-- The number of frames outside of a frame and its own names in order, as text. -/
def describe (st : Store) (env : FrameId) : String :=
  let names := (st.bindings env).names.mergeSort fun a b => decide (a ≤ b)
  (Text.Outline.record "Environment"
    [("depth", .atom (toString (st.depth env))), ("bindings", Node.outlineNames names)] false).line

end Store

end Scriptlet
