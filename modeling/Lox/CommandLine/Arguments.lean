/-!
# Arguments

Which command the arguments name.

* `--log` may stand in front of the name of a command, and once behind it; the log is kept
  elsewhere, so it changes nothing here;
* `--json` may stand once behind the name of a command that lists;
* behind `--` nothing is an option any more, so a file may have any name but an empty one;
* without the name of a command, the prompt is meant.
-/

namespace Lox.CommandLine

/-- A command with what it applies to. -/
inductive Command where
  | tokenize (path : String) (json : Bool)
  | parse (path : String) (json : Bool)
  | run (path : String)
  | repl
deriving DecidableEq, Repr

/-- The file a command needs. -/
def Command.path? : Command → Option String
  | .tokenize path _ | .parse path _ | .run path => some path
  | .repl => none

/-- What ends the options. -/
def endOfOptions : String := "--"

/-- The option that keeps a log. -/
def logOption : String := "--log"

/-- The option that lists as JSON. -/
def jsonOption : String := "--json"

/-- Whether an argument is an option where options can stand. A dash alone is none. -/
def isOption (arg : String) : Bool := arg.toList.head? = some '-' && arg ≠ "-"

/-- The options among some arguments, and the operands. -/
def partArguments : List String → List String × List String
  | [] => ([], [])
  | arg :: rest =>
    if arg = endOfOptions then ([], rest)
    else
      let r := partArguments rest
      if isOption arg then (arg :: r.1, r.2) else (r.1, arg :: r.2)

/-- Whether options are known ones, each given once. -/
def acceptable (options : List String) : Bool :=
  options.all ([logOption, jsonOption].contains ·) && decide options.Nodup

/-- The command of a name, with its operands and whether it lists as JSON. -/
def named? (name : String) (operands : List String) (json : Bool) : Option Command :=
  match name, operands, json with
  | "tokenize", [path], _ => some (.tokenize path json)
  | "parse", [path], _ => some (.parse path json)
  | "run", [path], false => some (.run path)
  | "repl", [], false => some .repl
  | _, _, _ => none

/-- The command of a name with the arguments behind it. -/
def withArguments? (name : String) (args : List String) : Option Command :=
  let r := partArguments args
  if acceptable r.1 && !r.2.contains "" then named? name r.2 (r.1.contains jsonOption) else none

/-- The command of arguments that do not start with an option. -/
def bare? : List String → Option Command
  | [] => some .repl
  | name :: args =>
    if name = endOfOptions ∧ args = [] then some .repl else withArguments? name args

/-- **The command that some arguments name**, if they name one. -/
def command? : List String → Option Command
  | [] => some .repl
  | arg :: args => if arg = logOption then bare? args else bare? (arg :: args)

end Lox.CommandLine
