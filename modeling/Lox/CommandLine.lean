import Lox.CommandLine.Arguments
import Lox.CommandLine.Prompt

/-!
# The command line

What each command answers.

* `tokenize` lists tokens, `parse` lists statements, either as text or as JSON, one a line;
* `run` runs a program;
* `repl` runs the lines of the standard input, one after the other.
-/

namespace Lox.CommandLine

/-- The exit code for arguments that name no command. -/
def usageExit : Nat := 2

/-- The answer to arguments that name no command. -/
def usage : Answer :=
  ⟨usageExit, "", unlines
    ["error: usage: [--log] [tokenize FILE [--json] | parse FILE [--json] | run FILE | repl]"]⟩

/-- **How a command ends**, with what its file holds or why it has none. -/
def ending (fuel : Nat) (c : Command) (file : Except FileError (List UInt8)) (o : Outside) : Ending :=
  match c with
  | .tokenize path json => withSource path file fun source => .exits (tokenize json source)
  | .parse path json => withSource path file fun source => .exits (parse json source)
  | .run path => withSource path file (run fuel o)
  | .repl => repl fuel o

/-- What a command answers whose output takes everything, at an instant at which time stands still. -/
def answer (fuel : Nat) (c : Command) (file : Except FileError (List UInt8)) (input : List UInt8)
    (now : Instant) : Answer :=
  (ending fuel c file ⟨.unlimited, .ofBytes input, now, .steady⟩).answer

end Lox.CommandLine
