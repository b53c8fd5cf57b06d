import Lox.Clock
import Lox.Input
import Lox.Report
import Lox.Store

/-!
# The machine a program runs on

All that a running program can reach: the store, what scoping found out about its references, its
output and input, and the time.

* `Run α` is a computation on the machine. It stops early with an error of the program, with a
  `Fault` of the machine, or for want of fuel; the machine is there afterwards in every case.
* A fault is a disagreement between scoping and the store. The primitives below name each one.
* A reference with a distance is looked up in the frame that far out, and one without in the global
  frame.
-/

namespace Lox

/-! ## 1. Distances -/

/-- How far out each reference is bound; none is for a global name. -/
structure Distances where
  entries : Array (Option Nat)

namespace Distances

/-- No reference is bound. -/
def empty : Distances := ⟨#[]⟩

/-- How far out a reference is bound. -/
def find? (d : Distances) (id : RefId) : Option Nat := (d.entries[id.index]?).join

/-- Notes how far out a reference is bound. -/
def note (d : Distances) (id : RefId) (distance : Nat) : Distances :=
  if id.index < d.entries.size then
    ⟨d.entries.setIfInBounds id.index (some distance)⟩
  else
    ⟨(d.entries ++ Array.replicate (id.index - d.entries.size) none).push (some distance)⟩

/-- Notes what some findings say about references. -/
def noteAll (d : Distances) (found : List Finding) : Distances :=
  found.foldl (fun d f =>
    match f with
    | .reference ref (some distance) => d.note ref.id distance
    | _ => d) d

theorem find?_note (d : Distances) (id other : RefId) (distance : Nat) :
    (d.note id distance).find? other = if id = other then some distance else d.find? other := by
  obtain ⟨i⟩ := id
  obtain ⟨j⟩ := other
  unfold note find?
  simp only [RefId.mk.injEq]
  split
  · next h =>
    by_cases hij : i = j
    · subst hij; simp [h]
    · simp [hij]
  · next h =>
    have hsize : (d.entries ++ Array.replicate (i - d.entries.size) none).size = i := by
      simp; omega
    rw [Array.getElem?_push, hsize]
    by_cases hij : i = j
    · subst hij; simp
    · simp only [Ne.symm hij, if_false, hij]
      rw [Array.getElem?_append]
      split
      · rfl
      · next hj =>
        have : d.entries[j]? = none := by simp; omega
        rw [this, Array.getElem?_replicate]
        split <;> rfl

end Distances

/-! ## 2. The machine -/

/-- All that a running program can reach. -/
structure Machine where
  store : Store
  distances : Distances
  sink : Sink
  input : Input
  /-- The instant that the program has slept up to. -/
  now : Instant
  clock : Clock

/-- A failure of the machine itself. -/
inductive Fault where
  /-- A distance leads past the global frame. -/
  | overshoot (distance hops : Nat)
  /-- A `super` has no distance. -/
  | superUnresolved (line : Nat)
  /-- There is no frame one link nearer than that of `super`. -/
  | superTooNear
  /-- Something else than a class is bound to `super`. -/
  | superNotClass (shown : String)
  /-- Something else than an instance is bound to `this`. -/
  | thisNotInstance (shown : String)
  /-- A token joins operands and is no operator. -/
  | unknownOperator (op : Token)
  /-- A native function lacks its argument. -/
  | missingArgument (f : Native)
deriving DecidableEq, Repr

/-- A fault in words. -/
def Fault.message : Fault → String
  | .overshoot distance hops =>
    "resolved distance " ++ toString distance ++ " overshoots the environment chain after "
      ++ toString hops ++ " hop(s)"
  | .superUnresolved line =>
    "'super' on line " ++ toString line ++ " was never resolved to a scope"
  | .superTooNear => "no frame lies one link nearer than that of 'super'"
  | .superNotClass shown => "'super' bound to a non-class value: " ++ shown
  | .thisNotInstance shown => "'this' bound to a non-instance value: " ++ shown
  | .unknownOperator op => "no operator: " ++ op.lexeme
  | .missingArgument f => "no argument for " ++ f.name

/-- Why a computation stopped early. -/
inductive Stop where
  | error (e : RuntimeError)
  | fault (f : Fault)
  /-- There was not fuel enough. -/
  | starved
deriving DecidableEq, Repr

/-- A computation on the machine. -/
abbrev Run (α : Type) := ExceptT Stop (StateM Machine) α

/-! ## 3. Primitives -/

/-- Stops for want of fuel. -/
def outOfFuel {α : Type} : Run α := throw .starved

/-- Stops with an error of the program. -/
def raise {α : Type} (e : RuntimeError) : Run α := throw (.error e)

/-- Changes the store. -/
def modifyStore (f : Store → Store) : Run Unit := modify fun m => { m with store := f m.store }

/-- Takes something new from the store. -/
def allocate {α : Type} (f : Store → α × Store) : Run α :=
  modifyGet fun m =>
    let (a, store) := f m.store
    (a, { m with store })

/-- An environment with a new frame in front. -/
def newFrame (env : Env) (b : Bindings Value) : Run Env := allocate (·.child env b)

/-- The outcome of an access to the variable that a token names. -/
def accessed {α : Type} (t : Token) : Except AccessError α → Run α
  | .ok a => return a
  | .error .unbound => raise (.undefinedVariable t.lexeme t.pos)
  | .error (.overshoot distance hops) => throw (.fault (.overshoot distance hops))

/-- What the frame at a distance binds the name of a token to. -/
def readAt (env : Env) (distance : Nat) (t : Token) : Run Value := do
  accessed t ((← get).store.getAt env distance t.lexeme)

/-- What a reference means. -/
def lookUp (ref : Reference) (env : Env) : Run Value := do
  let m ← get
  match m.distances.find? ref.id with
  | some distance => readAt env distance ref.token
  | none =>
    match m.store.get? Store.globals ref.name with
    | some v => return v
    | none => raise (.undefinedVariable ref.name ref.token.pos)

/-- The frame a reference is bound in. -/
def ownerOf (ref : Reference) (env : Env) : Run FrameId := do
  let m ← get
  match m.distances.find? ref.id with
  | some distance => accessed ref.token (m.store.ownerAt env distance ref.name)
  | none =>
    match m.store.owner? Store.globals ref.name with
    | some f => return f
    | none => raise (.undefinedVariable ref.name ref.token.pos)

/-- Binds a reference anew. -/
def rebind (ref : Reference) (env : Env) (v : Value) : Run Unit := do
  let f ← ownerOf ref env
  modifyStore (·.defineIn f ref.name v)

/-- A function as a value of its own. -/
def newFunction (f : Closure) : Run Value := do return .function (← allocate Store.newIdentity) f

/-- A method with `this` bound to an instance. -/
def bindMethod (f : Closure) (this : Value) : Run Closure := do
  return { f with env := ← newFrame f.env [(thisName, this)] }

/-- Writes a text; what the sink does not take is lost, and the outcome says so. -/
def write (text : String) : Run (Except ConsoleError Unit) :=
  modifyGet fun m =>
    let (outcome, sink) := m.sink.write (Text.Utf8.encode text)
    (outcome, { m with sink })

/-- What a reading of the clock shows. -/
def readClock : Run (Option Instant) :=
  modifyGet fun m =>
    let (shown, clock) := m.clock.read m.now
    (shown, { m with clock })

/-- The next line of the input, with its end, or none after the last. Output is flushed first, and
    where that fails the line stays. -/
def Machine.nextLine (m : Machine) : Except ConsoleError (Option String) × Machine :=
  match m.sink.flush with
  | (.error e, sink) => (.error e, { m with sink })
  | (.ok (), sink) =>
    let (line, input) := m.input.programLine
    let m := { m with sink, input }
    match line with
    | .error e => (.error e, m)
    | .ok [] => (.ok none, m)
    | .ok line =>
      match Text.Utf8.decode? line with
      | some text => (.ok (some text), m)
      | none => (.error .invalidText, m)

/-- Reads a line of the input. -/
def readLine : Run (Except ConsoleError (Option String)) := modifyGet Machine.nextLine

end Lox
