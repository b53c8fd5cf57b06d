import Lox.Text.Sorted
import Lox.Value

/-!
# The store

What a running program can change: the frames that hold its variables and the fields of its
instances. An environment is a chain of frame addresses, so many environments share a frame, and a
write through one of them is seen by all.

* `getAt`, `assignAt` act on the frame at a distance and on no other; `get`, `assign` on the
  nearest frame that binds the name; `define` on the innermost frame, where alone a name is made;
* an access that fails leaves the store as it was;
* `child` and `newObject` hand out the next free address, and no address is handed out twice.
-/

namespace Lox

/-- Frames and objects by their address, and the next identity of a function or class. -/
structure Store where
  frames : Array (Bindings Value)
  objects : Array (Bindings Value)
  nextIdentity : Identity

/-- Why an access to a variable failed. -/
inductive AccessError where
  /-- The frame or the chain does not bind the name. -/
  | unbound
  /-- The chain is shorter than the distance; it has `hops` links. -/
  | overshoot (distance hops : Nat)
deriving DecidableEq, Repr

namespace Store

/-- The store with one empty frame, at address zero. -/
def empty : Store := ⟨#[[]], #[], 0⟩

/-- The frame of the global names. -/
def globalFrame : FrameId := 0

/-- The environment of the global names. -/
def globals : Env := [globalFrame]

/-! ## 1. Frames -/

/-- The bindings of a frame. -/
def frame (s : Store) (f : FrameId) : Bindings Value := s.frames[f]?.getD []

/-- Binds a name in a frame, whether or not it is bound there. -/
def defineIn (s : Store) (f : FrameId) (name : String) (v : Value) : Store :=
  { s with frames := s.frames.modify f (·.put name v) }

/-- Binds a name in the innermost frame. -/
def define (s : Store) (env : Env) (name : String) (v : Value) : Store :=
  match env with
  | [] => s
  | f :: _ => s.defineIn f name v

/-- An environment with a new frame in front, and the store that holds the frame. -/
def child (s : Store) (env : Env) (b : Bindings Value) : Env × Store :=
  (s.frames.size :: env, { s with frames := s.frames.push b })

/-- What the nearest frame that binds a name binds it to. -/
def get? (s : Store) : Env → String → Option Value
  | [], _ => none
  | f :: outer, name => ((s.frame f).find? name).orElse fun _ => s.get? outer name

/-- The nearest frame that binds a name. -/
def owner? (s : Store) : Env → String → Option FrameId
  | [], _ => none
  | f :: outer, name => if (s.frame f).binds name then some f else s.owner? outer name

/-- Binds a name anew in the nearest frame that binds it. -/
def assign? (s : Store) (env : Env) (name : String) (v : Value) : Option Store :=
  (s.owner? env name).map fun f => s.defineIn f name v

/-- The frame at a distance. -/
def frameAt (env : Env) (distance : Nat) : Except AccessError FrameId :=
  match env[distance]? with
  | some f => .ok f
  | none => .error (.overshoot distance (env.length - 1))

/-- What the frame at a distance binds a name to. -/
def getAt (s : Store) (env : Env) (distance : Nat) (name : String) : Except AccessError Value :=
  match frameAt env distance with
  | .error e => .error e
  | .ok f =>
    match (s.frame f).find? name with
    | some v => .ok v
    | none => .error .unbound

/-- The frame at a distance, which must bind a name. -/
def ownerAt (s : Store) (env : Env) (distance : Nat) (name : String) :
    Except AccessError FrameId :=
  match frameAt env distance with
  | .error e => .error e
  | .ok f => if (s.frame f).binds name then .ok f else .error .unbound

/-- Binds a name anew in the frame at a distance, which must bind it. -/
def assignAt (s : Store) (env : Env) (distance : Nat) (name : String) (v : Value) :
    Except AccessError Store :=
  (s.ownerAt env distance name).map fun f => s.defineIn f name v

/-- All names of an environment, each once: frame by frame from the innermost, sorted in each. -/
def names (s : Store) : Env → List String
  | [] => []
  | f :: outer =>
    let own := Text.sorted (s.frame f).names
    own ++ (s.names outer).filter fun n => !(own.contains n)

/-! ## 2. Instances -/

/-- The fields of an instance. -/
def fields (s : Store) (o : ObjectId) : Bindings Value := s.objects[o]?.getD []

/-- A new instance without fields. -/
def newObject (s : Store) : ObjectId × Store :=
  (s.objects.size, { s with objects := s.objects.push [] })

/-- Sets a field of an instance. -/
def setField (s : Store) (o : ObjectId) (name : String) (v : Value) : Store :=
  { s with objects := s.objects.modify o (·.put name v) }

/-- An identity of its own, for a function or a class. -/
def newIdentity (s : Store) : Identity × Store :=
  (s.nextIdentity, { s with nextIdentity := s.nextIdentity + 1 })

end Store

end Lox
