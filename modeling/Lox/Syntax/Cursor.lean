import Lox.Syntax
import Lox.Syntax.Complaint

/-!
# Reading tokens one by one

The parser reads a list of tokens through a `Cursor`: the tokens still ahead, the end behind them,
the next free reference and the complaints so far.

* `Cursor.ofTokens` fixes where a list ends: at its first end token, or else at an end put behind
  it. What follows a first end is never seen.
* A `Parse` moves the cursor and yields a tree, or fails: with an error to recover from, or because
  its fuel ran out. A failure keeps the cursor where it struck.
* Each step below takes at most one token. Complaints that a parse can go on after are `report`ed,
  all others are a failure.
-/

namespace Lox.Syntax

/-- Where a parse stands. -/
structure Cursor where
  /-- The tokens ahead, none of them the end. -/
  ahead : List Token
  /-- The end behind them. -/
  eof : Token
  /-- The next free reference. -/
  nextId : Nat
  /-- The complaints so far, in order. -/
  errors : List SyntaxError

/-- The end that belongs behind tokens without one: on the line of the last. -/
def missingEnd (tokens : List Token) : Token :=
  ⟨.eof, "", (tokens.getLast?.map fun t => t.pos.line).getD 1, 0⟩

/-- The cursor in front of some tokens, with `nextId` the first free reference. -/
def Cursor.ofTokens (tokens : List Token) (nextId : Nat) : Cursor where
  ahead := tokens.takeWhile (·.kind ≠ .eof)
  eof := (tokens.find? (·.kind = .eof)).getD (missingEnd tokens)
  nextId := nextId
  errors := []

/-- Why a parse stopped. -/
inductive Failure where
  /-- The tokens are no program here. -/
  | error (e : SyntaxError)
  /-- There was not fuel enough. -/
  | starved

/-- A step of the parser. -/
abbrev Parse (α : Type) := ExceptT Failure (StateM Cursor) α

/-- Stops for want of fuel. -/
def starve {α : Type} : Parse α := throw .starved

/-- The token in front, which is the end once nothing is ahead. -/
def peek : Parse Token := do
  let s ← get
  return s.ahead.head?.getD s.eof

/-- Whether nothing is ahead. -/
def atEnd : Parse Bool := do return (← get).ahead.isEmpty

/-- Whether a token of a kind is in front. -/
def check (k : Token.Kind) : Parse Bool := do
  return (← get).ahead.head?.any (·.kind = k)

/-- Whether a token of a kind follows the one in front. -/
def checkSecond (k : Token.Kind) : Parse Bool := do
  return (← get).ahead[1]?.any (·.kind = k)

/-- Takes the token in front, if it satisfies `p`. -/
def acceptIf (p : Token.Kind → Bool) : Parse (Option Token) := do
  let s ← get
  match s.ahead with
  | [] => return none
  | t :: rest =>
    if p t.kind then
      set { s with ahead := rest }
      return some t
    else
      return none

/-- Takes the token in front, if it is of a kind. -/
def accept (k : Token.Kind) : Parse (Option Token) := acceptIf (· = k)

/-- Takes the token in front, whatever it is. -/
def skip : Parse Unit := discard (acceptIf fun _ => true)

/-- Fails about the token in front. -/
def fail {α : Type} (c : Complaint) : Parse α := do throw (.error ⟨c, ← peek⟩)

/-- Takes the token in front, which must be of a kind. -/
def expect (k : Token.Kind) (c : Complaint) : Parse Token := do
  match ← accept k with
  | some t => return t
  | none => fail c

/-- Complains about a token and goes on. -/
def report (c : Complaint) (t : Token) : Parse Unit :=
  modify fun s => { s with errors := s.errors ++ [⟨c, t⟩] }

/-- Complains about the token in front if there are too many parameters or arguments. -/
def limit (c : Complaint) (count : Nat) : Parse Unit := do
  if maxArguments < count then report c (← peek) else return ()

/-- A part that follows a token of a kind, if that token is in front. -/
def behind {α : Type} (k : Token.Kind) (p : Parse α) : Parse (Option α) := do
  match ← accept k with
  | some _ => some <$> p
  | none => return none

/-- A part that may be missing in front of a token of a kind. -/
def before {α : Type} (k : Token.Kind) (p : Parse α) : Parse (Option α) := do
  if ← check k then return none else some <$> p

/-- A reference of its own for a token. -/
def refer (t : Token) : Parse Reference := do
  let s ← get
  set { s with nextId := s.nextId + 1 }
  return ⟨⟨s.nextId⟩, t⟩

/-! ## Recovery -/

/-- Whether a statement starts with a kind of token, and not merely can. -/
def startsStatement : Token.Kind → Bool
  | .kwClass | .kwFun | .kwVar | .kwFor | .kwIf | .kwWhile | .kwReturn => true
  | _ => false

/-- The tokens from where a parse goes on after a failure: behind the next semicolon or in front
    of the next token that starts a statement, but at least one token on. -/
def resume : List Token → List Token
  | [] => []
  | t :: rest =>
    if t.kind = .semicolon then rest
    else
      match rest with
      | [] => []
      | u :: _ => if startsStatement u.kind then rest else resume rest

/-- Reports the failure of a statement and goes on behind it, without the statement. -/
def recovering {α : Type} (p : Parse α) : Parse (Option α) := fun s =>
  match p.run s with
  | (.ok a, s) => (.ok (some a), s)
  | (.error (.error e), s) =>
    (.ok none, { s with ahead := resume s.ahead, errors := s.errors ++ [e] })
  | (.error .starved, s) => (.error .starved, s)

end Lox.Syntax
