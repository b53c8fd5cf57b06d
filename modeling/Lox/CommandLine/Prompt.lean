import Lox.CommandLine.Answer
import Lox.Text.Blank
import Lox.Text.Erasing

/-!
# The prompt

Runs the lines of the standard input in one session, one after the other.

* A line loses its end, and then what its backspaces take back;
* a blank line is passed over, and `:exit` ends the prompt, with or without blanks around it;
* programs read from the same input, behind the line that they are run from;
* output is flushed behind every line, and the prompt ends where that fails.
-/

namespace Lox.CommandLine

/-- What the prompt says first. -/
def welcome : String := "Welcome to klox. Type code to evaluate it, or ':exit' to exit.\n"

/-- The line that ends a prompt. -/
def exitLine : String := ":exit"

/-- A line without its end. -/
def withoutEnd (line : List Char) : List Char :=
  match line.reverse with
  | '\n' :: '\r' :: rest | '\n' :: rest => rest.reverse
  | _ => line

/-- A prompt between two lines: the session, and what has been reported so far. -/
structure Prompt where
  session : Session
  reported : String

namespace Prompt

/-- A prompt that has read nothing yet. It breaks off where it cannot say what it says first. -/
def start (o : Outside) : Except Ending Prompt :=
  match o.sink.write (Text.Utf8.encode welcome) with
  | (.ok (), sink) => .ok ⟨{ o with sink }.start, ""⟩
  | (.error e, sink) =>
    .error (.panics ("failed printing to stdout: " ++ e.message) (sink.textSince 0) "")

/-- How a prompt ends. -/
def finish (p : Prompt) : Ending := .exits ⟨0, stdoutOf p.session, p.reported⟩

/-- How a prompt ends that could not read a line. -/
def unread (p : Prompt) (e : ConsoleError) : Ending :=
  .exits ⟨failureExit, stdoutOf p.session,
    p.reported ++ failureLines "REPL input failed" [e.message, e.message]⟩

/-- The next line, with its end, and the prompt behind it. -/
def line (p : Prompt) : Except ConsoleError (List UInt8) × Prompt :=
  let r := p.session.machine.input.promptLine
  (r.1, { p with session := { p.session with machine := { p.session.machine with input := r.2 } } })

/-- Runs a line: the prompt goes on, or it ends. -/
def runLine (fuel : Nat) (p : Prompt) (text : String) : Except Ending Prompt :=
  let step := p.session.runLine fuel text
  match step.halt with
  | some h => .error (.ofHalt (stdoutOf step.session) p.reported h)
  | none =>
    let (flushed, sink) := step.session.machine.sink.flush
    let session := { step.session with machine := { step.session.machine with sink } }
    match flushed with
    | .error e => .error (.exits (unflushed session e p.reported))
    | .ok () => .ok ⟨session, p.reported ++ reportLines session.diagnostics.reports⟩

/-- Takes in a line that was typed. -/
def enter (fuel : Nat) (p : Prompt) (typed : List Char) : Except Ending Prompt :=
  let words := String.ofList (Text.trim typed)
  if words = exitLine then .error p.finish
  else if words = "" then .ok p
  else p.runLine fuel (String.ofList typed)

/-- Takes in the bytes of a line. -/
def take (fuel : Nat) (p : Prompt) (bytes : List UInt8) : Except Ending Prompt :=
  match Text.Utf8.decode? bytes with
  | none => .error (p.unread .invalidText)
  | some text =>
    match Text.erased? (withoutEnd text.toList) with
    | none => .error (.exits ⟨crashExit, stdoutOf p.session, p.reported⟩)
    | some typed => p.enter fuel typed

/-- Takes in at most so many lines, one after the other. -/
def run (fuel : Nat) : (lines : Nat) → Prompt → Ending
  | 0, p => p.finish
  | lines + 1, p =>
    match p.line with
    | (.error e, p) => p.unread e
    | (.ok [], p) => p.finish
    | (.ok bytes, p) =>
      match p.take fuel bytes with
      | .error ending => ending
      | .ok p => run fuel lines p

end Prompt

/-- **Runs the lines of the standard input.** None of them is empty, so there are not more than
    bytes. -/
def repl (fuel : Nat) (o : Outside) : Ending :=
  match Prompt.start o with
  | .error ending => ending
  | .ok p => p.run fuel (o.input.forPrompt.length + 1)

end Lox.CommandLine
