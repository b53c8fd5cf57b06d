import Lox.Session
import Lox.Syntax.Json
import Lox.Syntax.Printer
import Lox.Text.Quoted
import Lox.Token.Printer

/-!
# Answers

What the commands that read a file answer: what goes to the two outputs, and the exit code. The file
comes in as bytes or as the reason why there are none, so an answer is a value like any other.

* A file that cannot be read as text exits with 1;
* a source with static errors exits with 65, and one that fails when it runs with 70;
* a program whose output cannot be flushed at its end exits with 1, whatever it came to, and what it
  came to is not reported;
* a program that a fault stops has no exit code of its own, and neither has one that fuel did not suffice
  for (`Ending`).
-/

namespace Lox.CommandLine

/-! ## 1. Exits and outputs -/

/-- What a command answers. -/
structure Answer where
  exit : Nat
  stdout : String
  stderr : String
deriving DecidableEq, Repr

/-- More calls and turns of loops than any machine gets through. -/
def ampleFuel : Nat := 1000000000000000000

/-- The exit code when something outside the language went wrong. -/
def failureExit : Nat := 1

/-- The exit code for a source with static errors. -/
def staticErrorExit : Nat := 65

/-- The exit code for a program that failed. -/
def runtimeErrorExit : Nat := 70

/-- The exit code of a command that breaks off. -/
def crashExit : Nat := 101

/-- Lines of text, each with its end. -/
def unlines (lines : List String) : String := String.join (lines.map (· ++ "\n"))

/-- Reports as lines. -/
def reportLines (rs : List Report) : String := unlines (rs.map Report.text)

/-- The causes of a failure, the nearest one first. They are numbered where there are several. -/
def causeLines : List String → List String
  | [cause] => ["    " ++ cause]
  | causes => causes.zipIdx.map fun c => "    " ++ toString c.2 ++ ": " ++ c.1

/-- What is said when something outside the language went wrong. -/
def failureLines (context : String) (causes : List String) : String :=
  let because := if causes = [] then [] else "" :: "Caused by:" :: causeLines causes
  unlines (("Error: " ++ context) :: because)

/-- How a command ends. -/
inductive Ending where
  | exits (a : Answer)
  /-- It breaks off with a message, behind what went to the two outputs. -/
  | panics (message stdout stderr : String)
  /-- Fuel did not suffice. The language knows no such end. -/
  | starves (stdout stderr : String)
deriving DecidableEq, Repr

/-- An ending as it is seen from outside. -/
def Ending.answer : Ending → Answer
  | .exits a => a
  | .panics message stdout stderr => ⟨crashExit, stdout, stderr ++ unlines [message]⟩
  | .starves stdout stderr => ⟨crashExit, stdout, stderr ++ unlines ["out of fuel"]⟩

/-- The ending of a session that cannot go on. -/
def Ending.ofHalt (stdout stderr : String) : Halt → Ending
  | .fault f => .panics f.message stdout stderr
  | .starved => .starves stdout stderr

/-! ## 2. Files -/

/-- Why a file gives no bytes. -/
inductive FileError where
  | missing
  /-- A name on the way to the file is that of no directory. -/
  | notDirectory
  | nameTooLong
  /-- There is a directory where the file should be. -/
  | directory
  /-- Something else, in the words of the system. -/
  | unopened (cause : String)
deriving DecidableEq, Repr

/-- Why a file gives no bytes, in the words of the system. -/
def FileError.cause : FileError → String
  | .missing => "No such file or directory (os error 2)"
  | .notDirectory => "Not a directory (os error 20)"
  | .nameTooLong => "File name too long (os error 36)"
  | .directory => "Is a directory (os error 21)"
  | .unopened cause => cause

/-- What was tried in vain. A directory can be opened, but not read. -/
def FileError.attempt : FileError → String
  | .directory => "Failed to read file "
  | .missing | .notDirectory | .nameTooLong | .unopened _ => "Failed to open file "

/-- The ending of a command that reads a file, whose bytes must be text. -/
def withSource (path : String) (file : Except FileError (List UInt8))
    (ending : List UInt8 → Ending) : Ending :=
  match file with
  | .error e =>
    .exits ⟨failureExit, "", failureLines (e.attempt ++ Text.shown path) [e.cause]⟩
  | .ok bytes =>
    match Text.Utf8.firstFault? bytes with
    | some fault =>
      let context := "File " ++ Text.shown path ++ " is not valid UTF-8"
      .exits ⟨failureExit, "", failureLines context [fault.message]⟩
    | none => ending bytes

/-! ## 3. Sources -/

/-- Lists the tokens of a source. -/
def tokenize (json : Bool) (source : List UInt8) : Answer :=
  let items := Token.scan source
  let faults := (Token.errorsOf items).map Report.ofLexical
  { exit := if faults = [] then 0 else staticErrorExit
    stdout := unlines ((Token.tokensOf items).map fun t => if json then t.json else t.line)
    stderr := reportLines faults }

/-- Lists the statements of a source without faults. -/
def parse (json : Bool) (source : List UInt8) : Answer :=
  let reading := Reading.ofBytes source 0
  if reading.reports ≠ [] then
    ⟨staticErrorExit, "", reportLines reading.reports⟩
  else
    ⟨0, unlines (reading.statements.map fun s => if json then s.json else s.listing), ""⟩

/-- The exit code after a program. -/
def exitOf (d : Diagnostics) : Nat :=
  if d.hasStatic then staticErrorExit else if d.hasRuntime then runtimeErrorExit else 0

/-! ## 4. Programs -/

/-- What is outside of a command that runs programs: where its output goes, where its input comes from,
    and the time. -/
structure Outside where
  sink : Sink
  input : Input
  now : Instant
  clock : Clock

/-- A session in which nothing has run yet. -/
def Outside.start (o : Outside) : Session := .start o.sink o.input o.now o.clock

/-- What went to the standard output of a session. -/
def stdoutOf (s : Session) : String := s.machine.sink.textSince 0

/-- The answer where output cannot be flushed. What has not been shown is not shown any more. -/
def unflushed (s : Session) (e : ConsoleError) (shown : String) : Answer :=
  ⟨failureExit, stdoutOf s, shown ++ failureLines e.message []⟩

/-- The answer after a program. Its output is flushed first. -/
def finished (s : Session) : Answer :=
  match s.machine.sink.flush.1 with
  | .error e => unflushed s e ""
  | .ok () => ⟨exitOf s.diagnostics, stdoutOf s, reportLines s.diagnostics.reports⟩

/-- Runs a program. -/
def run (fuel : Nat) (o : Outside) (source : List UInt8) : Ending :=
  let step := o.start.runFile fuel (Text.Utf8.lossy source)
  match step.halt with
  | some h => .ofHalt (stdoutOf step.session) "" h
  | none => .exits (finished step.session)

end Lox.CommandLine
