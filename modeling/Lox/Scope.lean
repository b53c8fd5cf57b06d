import Lox.Bindings
import Lox.Syntax

/-!
# Scopes

A scope holds the names that one block, loop, function or class brings in, each with a flag that
says whether its definition is complete. Scopes nest, the innermost first; the global names belong
to no scope.

* `Scopes.depthOf?` is how far out the innermost scope lies that has a name;
* `Scopes.declare` brings a name in, and refuses a name the innermost scope has already;
* `Scopes.define` completes a name.
-/

namespace Lox

/-- The names of one scope; a name stands with `false` while its definition is incomplete. -/
abbrev Scope := Bindings Bool

/-- The scopes around a place in a program, the innermost first. -/
abbrev Scopes := List Scope

namespace Scopes

/-- Brings a name into the innermost scope. Outside all scopes nothing is to be done. -/
def declare (scopes : Scopes) (name : String) : Scopes :=
  match scopes with
  | [] => []
  | s :: outer => (if s.binds name then s else s.put name false) :: outer

/-- Whether the innermost scope has a name already. -/
def hasInnermost (scopes : Scopes) (name : String) : Bool :=
  scopes.head?.any (·.binds name)

/-- Completes a name of the innermost scope. -/
def define (scopes : Scopes) (name : String) : Scopes :=
  match scopes with
  | [] => []
  | s :: outer => s.put name true :: outer

/-- Whether a name of the innermost scope is still incomplete. -/
def isIncomplete (scopes : Scopes) (name : String) : Bool :=
  scopes.head?.any (·.find? name == some false)

/-- How many scopes lie between a place and the innermost one that has a name. -/
def depthOf? : Scopes → String → Option Nat
  | [], _ => none
  | s :: outer, name => if s.binds name then some 0 else (depthOf? outer name).map (· + 1)

end Scopes

end Lox
