import Lox.Machine.Evaluate
import Lox.Program

/-!
# Sessions

A session runs one source after the other on one machine, and keeps what they report.

* `Session.accept` reads and resolves a source; a source with a fault in it runs nothing;
* `Session.runFile` runs a whole program, up to its first error;
* `Session.runLine` runs what a prompt was given: each statement on its own, whether or not the one
  before it failed, and shows the value of an expression;
* `Session.attemptAll` runs statements as a prompt does, but hands their outcomes over.

What scoping notes about a source is kept even where the source is refused: a reference is never
used again, so no later program can tell.
-/

namespace Lox

/-- Why a session cannot go on. -/
inductive Halt where
  | fault (f : Fault)
  | starved
deriving DecidableEq, Repr

/-- A machine, the next free reference, and the reports of the step at hand. -/
structure Session where
  machine : Machine
  nextId : Nat
  diagnostics : Diagnostics

/-- What a statement at the top comes to. -/
inductive Yield where
  | value (v : Value)
  | signal (s : Signal)

/-- What a statement at the top comes to, or why it stopped. -/
abbrev Attempt := Except Stop Yield

/-- A session after a step, and why it cannot go on, if so. -/
structure Step where
  session : Session
  halt : Option Halt

/-- A statement at the top: an expression shows its value. -/
def perform (fuel : Nat) : Stmt → Run Yield
  | .expr e => .value <$> evaluate fuel e Store.globals
  | s => .signal <$> execute fuel s Store.globals

/-- A whole program, up to its first error. -/
def runAll (fuel : Nat) : List Stmt → Run Unit
  | [] => return ()
  | s :: rest => do
    let _ ← execute fuel s Store.globals
    runAll fuel rest

/-- Writes the text of a value on a line of its own. -/
def echo (v : Value) : Run (Except ConsoleError Unit) := write (v.display ++ "\n")

namespace Session

/-- A session in which nothing has run yet. -/
def start (sink : Sink) (input : Input) (now : Instant) (clock : Clock := .steady) : Session :=
  ⟨.initial sink input now clock, 0, .empty⟩

/-- The global names, sorted. -/
def names (s : Session) : List String := s.machine.store.names Store.globals

/-- The session with more reports. -/
def report (s : Session) (rs : List Report) : Session :=
  { s with diagnostics := s.diagnostics.reportAll rs }

/-- The reports of the last step, taken out. -/
def drain (s : Session) : List Report × Session :=
  (s.diagnostics.reports, { s with diagnostics := s.diagnostics.drain.2 })

/-- Reads and resolves a source. Statements come out only if nothing was reported. -/
def accept (s : Session) (source : String) : Session × Option (List Stmt) :=
  let s := { s with diagnostics := .empty }
  let reading := Reading.ofBytes (Text.Utf8.encode source) s.nextId
  let s := { s with nextId := reading.nextId }
  if reading.reports ≠ [] then
    (s.report reading.reports, none)
  else
    let found := resolve reading.statements
    let s :=
      { s with machine := { s.machine with distances := s.machine.distances.noteAll found } }
    let complaints := (complaintsOf found).map Report.ofScope
    if complaints ≠ [] then (s.report complaints, none) else (s, some reading.statements)

/-- The session after a computation, with an error of the program reported. -/
def settle {α : Type} (s : Session) (r : Except Stop α × Machine) : Step :=
  let s := { s with machine := r.2 }
  match r.1 with
  | .ok _ => ⟨s, none⟩
  | .error (.error e) => ⟨s.report [.runtime e], none⟩
  | .error (.fault f) => ⟨s, some (.fault f)⟩
  | .error .starved => ⟨s, some .starved⟩

/-- Runs a whole program, up to its first error. -/
def runFile (fuel : Nat) (s : Session) (source : String) : Step :=
  match s.accept source with
  | (s, none) => ⟨s, none⟩
  | (s, some statements) => s.settle ((runAll fuel statements).run s.machine)

/-- Runs one statement, and shows the value of an expression. -/
def runStatement (fuel : Nat) (s : Session) (statement : Stmt) : Step :=
  match (perform fuel statement).run s.machine with
  | (.ok (.value v), m) =>
    match (echo v).run m with
    | (.ok (.error e), m) => ⟨Session.report { s with machine := m } [.io e.message], none⟩
    | r => s.settle r
  | r => s.settle r

/-- Runs statements, each on its own. -/
def runStatements (fuel : Nat) : Session → List Stmt → Step
  | s, [] => ⟨s, none⟩
  | s, statement :: rest =>
    let step := s.runStatement fuel statement
    match step.halt with
    | some _ => step
    | none => runStatements fuel step.session rest

/-- Runs what a prompt was given. -/
def runLine (fuel : Nat) (s : Session) (source : String) : Step :=
  match s.accept source with
  | (s, none) => ⟨s, none⟩
  | (s, some statements) => s.runStatements fuel statements

/-- Runs statements, each on its own, and hands over what they come to. -/
def attemptAll (fuel : Nat) (m : Machine) : List Stmt → List Attempt × Machine
  | [] => ([], m)
  | s :: rest =>
    let (a, m) := (perform fuel s).run m
    let (as, m) := attemptAll fuel m rest
    (a :: as, m)

end Session

end Lox
