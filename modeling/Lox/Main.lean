import Lox.CommandLine
import Std.Time.DateTime.Timestamp

/-!
# The program

Reads what a command needs, prints what it answers and exits with its code.
-/

namespace Lox.CommandLine

/-- All bytes of a file, or why it cannot be read. -/
def readBytes (path : String) : IO (Except FileError (List UInt8)) := do
  try
    return .ok (← IO.FS.readBinFile path).toList
  catch
    | .noFileOrDirectory .. => return .error .missing
    | .inappropriateType _ 21 _ => return .error .directory
    | .inappropriateType .. => return .error .notDirectory
    | .invalidArgument .. => return .error .nameTooLong
    | e => return .error (.unopened (toString e))

/-- All bytes of a stream, read in chunks. -/
partial def drainStream (stream : IO.FS.Stream) (seen : ByteArray) : IO ByteArray := do
  let chunk ← stream.read 65536
  if chunk.isEmpty then return seen else drainStream stream (seen ++ chunk)

/-- Whether a command reads the standard input. -/
def Command.readsInput : Command → Bool
  | .run _ | .repl => true
  | .tokenize _ _ | .parse _ _ => false

/-- Answers a command. -/
def serve (args : List String) : IO Answer := do
  match command? args with
  | none => return usage
  | some c =>
    let file ← match c.path? with
      | some path => readBytes path
      | none => pure (.ok [])
    let input ← if c.readsInput then drainStream (← IO.getStdin) .empty else pure .empty
    let now ← Std.Time.Timestamp.now
    return answer ampleFuel c file input.toList now.toNanosecondsSinceUnixEpoch.val.toNat

end Lox.CommandLine

/-- Runs the command that the arguments name. -/
def main (args : List String) : IO UInt32 := do
  let a ← Lox.CommandLine.serve args
  IO.print a.stdout
  IO.eprint a.stderr
  return a.exit.toUInt32
