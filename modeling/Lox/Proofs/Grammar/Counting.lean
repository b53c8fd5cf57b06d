import Lox.Proofs.Grammar.Reads

/-!
# A parser that counts loops

The rules of `Lox.Syntax.Parser` are told how many loops are around them. Here are the same rules with
a counter in their place: one number, which a rule raises in front of the body of a loop and sets to
zero in front of the body of a function, and puts back behind it. A failure inside passes through both.

* `Gauge`: where a parse stands, what the counter holds, and a log of both so far.
* `Count`: a parse with a counter. Around it are the bodies that are being parsed, which the counter has
  no part in.
* `step`, `inLoop`, `inFunction`, `recovering`, `reach`: what a rule is made of. Each of them logs what
  the counter holds behind it, and the two that change it log it before they go on, too.
* `Counting.expression` to `Counting.program`: the rules. `countedParse`: the parse of some tokens.
-/

namespace Lox.Syntax

/-! ## 1. The counter -/

/-- A body that is being parsed. -/
inductive Body where
  | loop | function
deriving DecidableEq

/-- **How many bodies of loops are open**, out of the bodies that are being parsed, the innermost first:
    those inside the innermost body of a function, or all if there is none. -/
def loopsOpen (bodies : List Body) : Nat := (bodies.takeWhile (· = .loop)).length

@[simp] theorem loopsOpen_nil : loopsOpen [] = 0 := rfl

@[simp] theorem loopsOpen_loop (bodies : List Body) :
    loopsOpen (.loop :: bodies) = loopsOpen bodies + 1 := rfl

@[simp] theorem loopsOpen_function (bodies : List Body) : loopsOpen (.function :: bodies) = 0 := rfl

/-- What the counter holds at a moment of a parse, and what is being parsed then. -/
structure Moment where
  depth : Nat
  bodies : List Body
deriving DecidableEq

/-- A `break` or a `continue` that is reached, and what is being parsed then. -/
structure ReachedExit where
  exit : LoopExit
  keyword : Token
  bodies : List Body
deriving DecidableEq

/-- The complaint about a way out that is in no loop. -/
def ReachedExit.complaint (x : ReachedExit) : SyntaxError := ⟨.exitOutsideLoop x.exit, x.keyword⟩

/-- Where a parse with a counter stands. -/
structure Gauge where
  cursor : Cursor
  /-- What the counter holds. -/
  depth : Nat
  /-- The moments so far. -/
  moments : List Moment
  /-- The ways out of loops that were reached so far. -/
  exits : List ReachedExit

/-- In front of some tokens, the counter holds zero. -/
def Gauge.start (cursor : Cursor) : Gauge := ⟨cursor, 0, [⟨0, []⟩], []⟩

/-- One moment more. -/
def Gauge.seen (g : Gauge) (bodies : List Body) : Gauge :=
  { g with moments := g.moments ++ [⟨g.depth, bodies⟩] }

/-- A parse with a counter, among bodies that are being parsed. -/
abbrev Count (α : Type) := ReaderT (List Body) (ExceptT Failure (StateM Gauge)) α

namespace Counting

variable {α β : Type}

/-! ## 2. What a rule is made of -/

/-- A step that does not touch the counter. -/
def step (p : Parse α) : Count α := fun bodies g =>
  ((p.run g.cursor).1, { g with cursor := (p.run g.cursor).2 }.seen bodies)

/-- The body of a loop: the counter is raised in front of it and lowered behind it, also where it
    failed. -/
def inLoop (p : Count α) : Count α := fun bodies g =>
  let inner := Body.loop :: bodies
  let (r, g) := (p.run inner).run ({ g with depth := g.depth + 1 }.seen inner)
  (r, { g with depth := g.depth - 1 }.seen bodies)

/-- The body of a function: the counter is zero in front of it, and behind it what it was, also where it
    failed. -/
def inFunction (p : Count α) : Count α := fun bodies g =>
  let enclosing := g.depth
  let inner := Body.function :: bodies
  let (r, g) := (p.run inner).run ({ g with depth := 0 }.seen inner)
  (r, { g with depth := enclosing }.seen bodies)

/-- What recovery makes of an outcome: the failure of a statement is reported, and the parse goes on
    behind it. The counter is left as the failure left it. -/
def recovered (bodies : List Body) :
    Except Failure α × Gauge → Except Failure (Option α) × Gauge
  | (.ok a, g) => (.ok (some a), g)
  | (.error (.error e), g) =>
    let cursor := { g.cursor with ahead := resume g.cursor.ahead, errors := g.cursor.errors ++ [e] }
    (.ok none, { g with cursor }.seen bodies)
  | (.error .starved, g) => (.error .starved, g)

/-- A statement that may fail. -/
def recovering (p : Count α) : Count (Option α) := fun bodies g =>
  recovered bodies ((p.run bodies).run g)

/-- A way out of a loop is reached. Whether it is complained of is up to the counter. -/
def reach (e : LoopExit) (keyword : Token) : Count Unit := fun bodies g =>
  let reached := { g with exits := g.exits ++ [⟨e, keyword, bodies⟩] }
  ((step (complainOutside g.depth e keyword)).run bodies).run reached

/-- A way out of a loop, from behind its keyword on. -/
def loopExit (e : LoopExit) (keyword : Token) : Count Stmt := do
  reach e keyword
  let _ ← step (expect .semicolon (.exitEnd e))
  return exitStatement e keyword

/-- A part that follows a token of a kind, if that token is in front. -/
def behind (k : Token.Kind) (p : Count α) : Count (Option α) := do
  match ← step (accept k) with
  | some _ => some <$> p
  | none => return none

/-- A part that may be missing in front of a token of a kind. -/
def before (k : Token.Kind) (p : Count α) : Count (Option α) := do
  if ← step (check k) then return none else some <$> p

/-! ## 3. The rules

Each is the rule of its name, with nothing told to it of loops. The counter is changed in three of them:
`forLoop` and `whileLoop` raise it, and `code` sets it to zero. -/

mutual

def expression : Nat → Count Expr
  | 0 => step starve
  | n + 1 => do moreAssignments n (← assignment n)
termination_by structural n => n

def moreAssignments : Nat → Expr → Count Expr
  | 0, _ => step starve
  | n + 1, left => do
    match ← step (accept .comma) with
    | none => return left
    | some op => moreAssignments n (.binary left op (← assignment n))
termination_by structural n _ => n

def assignment : Nat → Count Expr
  | 0 => step starve
  | n + 1 => do
    let target ← conditional n
    match ← step (acceptIf assigns) with
    | none => return target
    | some equals =>
      let value ← assignment n
      step (assignTo target equals (assignedValue target equals value))
termination_by structural n => n

def conditional : Nat → Count Expr
  | 0 => step starve
  | n + 1 => do
    let condition ← operand n .or
    match ← step (accept .question) with
    | none => return condition
    | some _ =>
      let yes ← expression n
      let _ ← step (expect .colon .conditionalColon)
      let no ← conditional n
      return .conditional condition yes no
termination_by structural n => n

def operand : Nat → Level → Count Expr
  | 0, _ => step starve
  | n + 1, l => do moreOperands n l (← operandWithin n l.tighter?)
termination_by structural n _ => n

def moreOperands : Nat → Level → Expr → Count Expr
  | 0, _, _ => step starve
  | n + 1, l, left => do
    match ← step (acceptIf l.has) with
    | none => return left
    | some op => moreOperands n l (l.join left op (← operandWithin n l.tighter?))
termination_by structural n _ _ => n

def operandWithin : Nat → Option Level → Count Expr
  | 0, _ => step starve
  | n + 1, some l => operand n l
  | n + 1, none => unary n
termination_by structural n _ => n

def unary : Nat → Count Expr
  | 0 => step starve
  | n + 1 => do
    match ← step (acceptIf fun k => k = .bang || k = .minus) with
    | some op => return .unary op (← unary n)
    | none => moreCalls n (← primary n)
termination_by structural n => n

def moreCalls : Nat → Expr → Count Expr
  | 0, _ => step starve
  | n + 1, left => do
    match ← step (accept .leftParen) with
    | some _ =>
      let args := (← before .rightParen (arguments n)).getD []
      step (limit .tooManyArguments args.length)
      let paren ← step (expect .rightParen .argumentsClose)
      moreCalls n (.call left paren args)
    | none =>
      match ← step (accept .dot) with
      | some _ => moreCalls n (.get left (← step (expect .identifier .propertyName)))
      | none => return left
termination_by structural n _ => n

def arguments : Nat → Count (List Expr)
  | 0 => step starve
  | n + 1 => do
    let first ← assignment n
    match ← step (accept .comma) with
    | none => return [first]
    | some _ => return first :: (← arguments n)
termination_by structural n => n

def primary : Nat → Count Expr
  | 0 => step starve
  | n + 1 => do
    let t ← step peek
    match t.kind with
    | .kwFalse => step skip; return .literal (.bool false)
    | .kwTrue => step skip; return .literal (.bool true)
    | .kwNil => step skip; return .literal .nil
    | .number x => step skip; return .literal (.number x)
    | .string s => step skip; return .literal (.text s)
    | .kwSuper =>
      step skip
      let _ ← step (expect .dot .superDot)
      let method ← step (expect .identifier .superMethod)
      return .super (← step (refer t)) method
    | .kwThis => step skip; return .this (← step (refer t))
    | .identifier => step skip; return .read (← step (refer t))
    | .kwFun => step skip; return .lambda (← code n .lambda)
    | .leftParen =>
      step skip
      let inner ← expression n
      let _ ← step (expect .rightParen .groupClose)
      return .group inner
    | k =>
      match Level.ofStray? k with
      | some l =>
        step skip
        step (report .missingLeft t)
        let _ ← operand n l
        return .literal .nil
      | none => step (fail .expression)
termination_by structural n => n

def code : Nat → Callable → Count Code
  | 0, _ => step starve
  | n + 1, f => do
    let _ ← step (expect .leftParen (.paramsOpen f))
    let params ← step (parameters n)
    let _ ← step (expect .leftBrace (.bodyOpen f))
    return .mk params (← inFunction (blockRest n))
termination_by structural n _ => n

def funDecl : Nat → Callable → Count FunDecl
  | 0, _ => step starve
  | n + 1, f => do
    let name ← step (expect .identifier (.functionName f))
    return .mk name (← code n f)
termination_by structural n _ => n

def declaration : Nat → Count (Option Stmt)
  | 0 => step starve
  | n + 1 => recovering (declarationOrFail n)
termination_by structural n => n

def declarationOrFail : Nat → Count Stmt
  | 0 => step starve
  | n + 1 => do
    match ← step (accept .kwClass) with
    | some _ => classDecl n
    | none =>
      if (← step (check .kwFun)) && (← step (checkSecond .identifier)) then
        let _ ← step (accept .kwFun)
        return .funDecl (← funDecl n .function)
      else
        match ← step (accept .kwVar) with
        | some _ => varDecl n
        | none => statement n
termination_by structural n => n

def classDecl : Nat → Count Stmt
  | 0 => step starve
  | n + 1 => do
    let name ← step (expect .identifier .className)
    let superclass ← behind .less (step superclassName)
    let _ ← step (expect .leftBrace .classOpen)
    let methods ← methodsRest n
    let _ ← step (expect .rightBrace .classClose)
    return .classDecl name superclass methods
termination_by structural n => n

def methodsRest : Nat → Count (List FunDecl)
  | 0 => step starve
  | n + 1 => do
    if (← step (check .rightBrace)) || (← step atEnd) then
      return []
    else
      return (← funDecl n .method) :: (← methodsRest n)
termination_by structural n => n

def varDecl : Nat → Count Stmt
  | 0 => step starve
  | n + 1 => do
    let name ← step (expect .identifier .variableName)
    let init ← behind .equal (expression n)
    let _ ← step (expect .semicolon .variableEnd)
    return .varDecl name (init.getD (.literal .nil))
termination_by structural n => n

def statement : Nat → Count Stmt
  | 0 => step starve
  | n + 1 => do
    let t ← step peek
    match t.kind with
    | .kwFor => step skip; forLoop n
    | .kwIf => step skip; branch n
    | .kwReturn => step skip; ret n t
    | .kwWhile => step skip; whileLoop n
    | .leftBrace => step skip; return .block (← blockRest n)
    | .kwBreak => step skip; loopExit .leave t
    | .kwContinue => step skip; loopExit .next t
    | _ => exprStatement n
termination_by structural n => n

def exprStatement : Nat → Count Stmt
  | 0 => step starve
  | n + 1 => do
    let e ← expression n
    let _ ← step (expect .semicolon .expressionEnd)
    return .expr e
termination_by structural n => n

def forLoop : Nat → Count Stmt
  | 0 => step starve
  | n + 1 => do
    let _ ← step (expect .leftParen .forOpen)
    let init ← forInit n
    let condition ← before .semicolon (expression n)
    let _ ← step (expect .semicolon .forCondition)
    let increment ← before .rightParen (expression n)
    let _ ← step (expect .rightParen .forClose)
    let body ← inLoop (statement n)
    return .forLoop init (condition.getD (.literal (.bool true))) increment body
termination_by structural n => n

def forInit : Nat → Count (Option Stmt)
  | 0 => step starve
  | n + 1 => do
    match ← step (accept .semicolon) with
    | some _ => return none
    | none =>
      match ← step (accept .kwVar) with
      | some _ => some <$> varDecl n
      | none => some <$> exprStatement n
termination_by structural n => n

def whileLoop : Nat → Count Stmt
  | 0 => step starve
  | n + 1 => do
    let _ ← step (expect .leftParen .whileOpen)
    let condition ← expression n
    let _ ← step (expect .rightParen .conditionClose)
    return .whileLoop condition (← inLoop (statement n))
termination_by structural n => n

def branch : Nat → Count Stmt
  | 0 => step starve
  | n + 1 => do
    let _ ← step (expect .leftParen .ifOpen)
    let condition ← expression n
    let _ ← step (expect .rightParen .conditionClose)
    let yes ← statement n
    return .branch condition yes (← behind .kwElse (statement n))
termination_by structural n => n

def ret : Nat → (keyword : Token) → Count Stmt
  | 0, _ => step starve
  | n + 1, keyword => do
    let value ← before .semicolon (expression n)
    let _ ← step (expect .semicolon .returnEnd)
    return .ret keyword value
termination_by structural n _ => n

def blockRest : Nat → Count (List Stmt)
  | 0 => step starve
  | n + 1 => do
    let body ← declarations n
    let _ ← step (expect .rightBrace .blockClose)
    return body
termination_by structural n => n

def declarations : Nat → Count (List Stmt)
  | 0 => step starve
  | n + 1 => do
    if (← step (check .rightBrace)) || (← step atEnd) then
      return []
    else
      let first ← declaration n
      return first.toList ++ (← declarations n)
termination_by structural n => n

end

def program : Nat → Count (List Stmt)
  | 0 => step starve
  | n + 1 => do
    if ← step atEnd then
      return []
    else
      let first ← declaration n
      return first.toList ++ (← program n)

end Counting

/-- **The parse of some tokens with the counter**, and where it stands in the end. -/
def countedParse (tokens : List Token) (nextId : Nat) : Except Failure (List Stmt) × Gauge :=
  ((Counting.program (fuelFor tokens.length)).run []).run (.start (Cursor.ofTokens tokens nextId))

end Lox.Syntax
