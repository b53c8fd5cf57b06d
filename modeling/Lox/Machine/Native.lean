import Lox.Decimal.Reading
import Lox.Machine
import Lox.Text.Blank

/-!
# The native functions

What each function that is there from the start does with its arguments. They talk to the sink, the
input and the clock of the machine and leave its store alone.

* `tonumber` reads the text of any value but a number, without the blanks around it;
* `sleep` takes whole nanoseconds of a number of seconds that is finite, not negative and below
  `2 ^ 64`, and moves the clock that far.
-/

namespace Lox

namespace Native

/-- The number that a value holds or spells. -/
def numberOf : Value → Value
  | .number x => .number x
  | v =>
    match Decimal.read? (Text.trim v.display.toList) with
    | some x => .number x
    | none => .nil

/-- The nanoseconds in a number of seconds, if one can wait that long. -/
def nanoseconds? (seconds : Float) : Option Nat :=
  match Decimal.parts seconds with
  | .nan | .infinite _ => none
  | .finite negative m q =>
    if negative ∧ m ≠ 0 then none
    else
      let up := Nat.pow 2 q.toNat
      let down := Nat.pow 2 (-q).toNat
      if Nat.pow 2 64 * down ≤ m * up then none else some (m * up * 1000000000 / down)

/-- The seconds since the start of the epoch, to the millisecond. -/
def secondsAt (shown : Instant) : Float := Float.ofNat (shown / 1000000) / 1000

/-- What a failed native function says. -/
def failed {α : Type} (paren : Token) (message : String) : Run α :=
  raise (.native message paren.pos)

/-- The outcome of talking to the console. -/
def orFailed {α : Type} (paren : Token) : Except ConsoleError α → Run α
  | .ok a => return a
  | .error e => failed paren e.message

/-- The first argument of a native function. -/
def argument (f : Native) : List Value → Run Value
  | v :: _ => return v
  | [] => throw (.fault (.missingArgument f))

/-- Calls a native function; `paren` is where the call stands. -/
def call (f : Native) (args : List Value) (paren : Token) : Run Value := do
  match f with
  | .clock =>
    match ← readClock with
    | some shown => return .number (secondsAt shown)
    | none => failed paren Clock.tooEarly
  | .print =>
    let v ← argument f args
    orFailed paren (← write (v.display ++ "\n"))
    return .nil
  | .read =>
    match ← orFailed paren (← readLine) with
    | some line => return .text (chomp line)
    | none => return .nil
  | .tonumber => return numberOf (← argument f args)
  | .tostring => return .text (← argument f args).display
  | .type => return .text (← argument f args).typeName
  | .sleep =>
    match ← argument f args with
    | .number x =>
      match nanoseconds? x with
      | some n =>
        modify fun m => { m with now := m.now + n }
        return .nil
      | none =>
        failed paren
          ("Cannot sleep for " ++ String.ofList (Decimal.plain (Decimal.parts x)) ++ " seconds.")
    | v => failed paren ("sleep() expects a number of seconds, got " ++ v.typeName ++ ".")

end Native

/-- The frame in which every native function is bound to its name. -/
def nativeBindings : Bindings Value := Native.all.map fun f => (f.name, .native f)

/-- A machine on which nothing has run yet. -/
def Machine.initial (sink : Sink) (input : Input) (now : Instant) (clock : Clock) : Machine where
  store := { Store.empty with frames := #[nativeBindings] }
  distances := .empty
  sink := sink
  input := input
  now := now
  clock := clock

end Lox
