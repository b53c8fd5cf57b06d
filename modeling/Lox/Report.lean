import Lox.Scope.Resolve
import Lox.Syntax.Complaint
import Lox.Token.Lexer

/-!
# Errors and how they are reported

A `Report` is an error with its words and its place. There are five kinds: bytes that are no token,
tokens that are no program, a program that breaks a static rule, an error of a running program
(`RuntimeError`), and a failure to write what a prompt shows.

* `Report.text` is the line an error is shown as;
* `Diagnostics` collects reports, with one flag for the static kinds and one for the others; taking
  the reports out leaves the flags, and only starting over from `Diagnostics.empty` clears them.
-/

namespace Lox

/-- An error of a running program. -/
inductive RuntimeError where
  | type (message : String) (pos : Position)
  | divisionByZero (pos : Position)
  | undefinedVariable (name : String) (pos : Position)
  | undefinedProperty (name : String) (pos : Position)
  | arity (expected got : Nat) (pos : Position)
  | native (message : String) (pos : Position)
deriving DecidableEq, Repr

namespace RuntimeError

/-- Where an error arose. -/
def pos : RuntimeError → Position
  | type _ p | divisionByZero p | undefinedVariable _ p | undefinedProperty _ p
  | arity _ _ p | native _ p => p

/-- What went wrong. -/
def message : RuntimeError → String
  | type m _ | native m _ => m
  | divisionByZero _ => "Division by zero."
  | undefinedVariable name _ => "Undefined variable '" ++ name ++ "'."
  | undefinedProperty name _ => "Undefined property '" ++ name ++ "'."
  | arity expected got _ =>
    "Expected " ++ toString expected ++ " arguments, got " ++ toString got ++ "."

end RuntimeError

/-- A position as an error shows it. -/
def Position.mark (p : Position) : String :=
  "[" ++ toString p.line ++ ":" ++ toString p.column ++ "]"

/-- An error with its words and its place. -/
inductive Report where
  | lexical (message : String) (pos : Position)
  | parse (message location : String) (pos : Position)
  | static (message lexeme : String) (pos : Position)
  | runtime (e : RuntimeError)
  | io (text : String)
deriving DecidableEq, Repr

namespace Report

/-- An error as it is shown. -/
def text : Report → String
  | lexical message p => p.mark ++ " Error: " ++ message
  | parse message location p => p.mark ++ " Error" ++ location ++ ": " ++ message
  | static message lexeme p => p.mark ++ " Error at '" ++ lexeme ++ "': " ++ message
  | runtime e => e.message ++ " " ++ e.pos.mark
  | io text => text

/-- Whether an error was found before anything ran. -/
def isStatic : Report → Bool
  | lexical _ _ | parse _ _ _ | static _ _ _ => true
  | runtime _ | io _ => false

/-- Where in a program a token stands, in words. -/
def location (t : Token) : String :=
  if t.kind = .eof then " at end" else " at '" ++ t.lexeme ++ "'"

/-- Words about a token that does not fit a program. -/
def aboutSyntax (message : String) (t : Token) : Report := .parse message (location t) t.pos

/-- Words about a token that breaks a static rule. -/
def aboutScope (message : String) (t : Token) : Report := .static message t.lexeme t.pos

/-- The report of bytes that are no token. -/
def ofLexical (e : Token.LexicalError) : Report := .lexical e.fault.message e.pos

/-- The report of tokens that are no program. -/
def ofSyntax (e : SyntaxError) : Report := aboutSyntax e.complaint.message e.token

/-- The report of a static rule that is broken. -/
def ofScope (c : StaticComplaint × Token) : Report := aboutScope c.1.message c.2

end Report

/-- The reports so far and what they say in all. -/
structure Diagnostics where
  /-- The reports not yet taken out, in order. -/
  reports : List Report
  /-- Whether a static error has been reported. -/
  hasStatic : Bool
  /-- Whether any other error has been reported. -/
  hasRuntime : Bool
deriving DecidableEq, Repr

namespace Diagnostics

/-- No reports. -/
def empty : Diagnostics := ⟨[], false, false⟩

/-- One more report. -/
def report (d : Diagnostics) (r : Report) : Diagnostics where
  reports := d.reports ++ [r]
  hasStatic := d.hasStatic || r.isStatic
  hasRuntime := d.hasRuntime || !r.isStatic

/-- More reports, in order. -/
def reportAll (d : Diagnostics) (rs : List Report) : Diagnostics := rs.foldl report d

/-- The reports so far, taken out. -/
def drain (d : Diagnostics) : List Report × Diagnostics := (d.reports, { d with reports := [] })

end Diagnostics

end Lox
