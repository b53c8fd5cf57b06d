import Lox.Syntax.Cursor

/-!
# The grammar

The grammar of the language, one function a rule. From the loosest form to the tightest, an
expression is

    expression   a list of assignments, separated by commas
    assignment   a target, one of `= += -= *= /=`, and an assignment; or a conditional
    conditional  an operand of the loosest level, perhaps with `?` expression `:` conditional
    operand      an operand of the next level, and more after each operator of its own (`Level`)
    unary        `!` or `-` before a unary, or a call
    call         a primary, then argument lists and property names

* Every rule takes fuel, one unit each call, and `fuelFor` is enough for a list of tokens.
* `loops` is the number of loop bodies around a statement within its function; a way out of a loop
  where it is zero is a complaint, and the body of a function starts at zero.
* A binary operator with nothing on its left is a complaint; its right operand is read and dropped.
-/

namespace Lox.Syntax

/-! ## 1. Binary operators -/

/-- The levels of binary operators but for the comma, from the loosest to the tightest. -/
inductive Level where
  | or | and | equality | comparison | term | factor
deriving DecidableEq, Repr

/-- The next tighter level. -/
def Level.tighter? : Level → Option Level
  | .or => some .and
  | .and => some .equality
  | .equality => some .comparison
  | .comparison => some .term
  | .term => some .factor
  | .factor => none

/-- The operators of a level. -/
def Level.has : Level → Token.Kind → Bool
  | .or, .kwOr => true
  | .and, .kwAnd => true
  | .equality, .bangEqual | .equality, .equalEqual => true
  | .comparison, .greater | .comparison, .greaterEqual
  | .comparison, .less | .comparison, .lessEqual => true
  | .term, .minus | .term, .plus => true
  | .factor, .slash | .factor, .star => true
  | _, _ => false

/-- Two operands of a level, joined. -/
def Level.join (l : Level) (left : Expr) (op : Token) (right : Expr) : Expr :=
  match l with
  | .or | .and => .logical left op right
  | _ => .binary left op right

/-- The level whose operand is read after a binary operator with nothing on its left. -/
def Level.ofStray? : Token.Kind → Option Level
  | .bangEqual | .equalEqual => some .equality
  | .greater | .greaterEqual | .less | .lessEqual => some .comparison
  | .plus => some .term
  | .star | .slash => some .factor
  | _ => none

/-! ## 2. Assignments -/

/-- The operators that assign. -/
def assigns : Token.Kind → Bool
  | .equal | .plusEqual | .minusEqual | .starEqual | .slashEqual => true
  | _ => false

/-- The binary operator inside an operator that assigns. -/
def innerOperator? (equals : Token) : Option Token :=
  match equals.kind with
  | .plusEqual => some ⟨.plus, "+", equals.pos⟩
  | .minusEqual => some ⟨.minus, "-", equals.pos⟩
  | .starEqual => some ⟨.star, "*", equals.pos⟩
  | .slashEqual => some ⟨.slash, "/", equals.pos⟩
  | _ => none

/-- The value that `target op= value` assigns. -/
def assignedValue (target : Expr) (equals : Token) (value : Expr) : Expr :=
  match innerOperator? equals with
  | some op => .binary target op value
  | none => value

/-- The assignment of a value to what was read as an expression. -/
def assignTo (target : Expr) (equals : Token) (value : Expr) : Parse Expr :=
  match target with
  | .read ref => do return .assign (← refer ref.token) value
  | .get object name => return .set object name value
  | other => do
    report .invalidTarget equals
    return other

/-! ## 3. Parameters -/

/-- Names separated by commas. -/
def parameterNames : Nat → Parse (List Token)
  | 0 => starve
  | n + 1 => do
    let name ← expect .identifier .parameterName
    match ← accept .comma with
    | none => return [name]
    | some _ => return name :: (← parameterNames n)

/-- The parameters of a function, up to and with the parenthesis that closes them. -/
def parameters (n : Nat) : Parse (List Token) := do
  let names := (← before .rightParen (parameterNames n)).getD []
  limit .tooManyParameters names.length
  let _ ← expect .rightParen .paramsClose
  return names

/-- The name of a superclass, as a reference to it. -/
def superclassName : Parse Reference := do refer (← expect .identifier .superclassName)

/-! ## 4. Ways out of a loop -/

/-- A way out of a loop as a statement. -/
def exitStatement (e : LoopExit) (keyword : Token) : Stmt :=
  match e with
  | .leave => .leave keyword
  | .next => .next keyword

/-- Complains about a way out of a loop where there is no loop. -/
def complainOutside (loops : Nat) (e : LoopExit) (keyword : Token) : Parse Unit :=
  if loops = 0 then report (.exitOutsideLoop e) keyword else return ()

/-- A way out of a loop, from behind its keyword on. -/
def loopExit (loops : Nat) (e : LoopExit) (keyword : Token) : Parse Stmt := do
  complainOutside loops e keyword
  let _ ← expect .semicolon (.exitEnd e)
  return exitStatement e keyword

/-! ## 5. The rules -/

mutual

/-- One or more assignments separated by commas. -/
def expression : Nat → Parse Expr
  | 0 => starve
  | n + 1 => do moreAssignments n (← assignment n)
termination_by structural n => n

/-- The assignments after the expression `left`. -/
def moreAssignments : Nat → Expr → Parse Expr
  | 0, _ => starve
  | n + 1, left => do
    match ← accept .comma with
    | none => return left
    | some op => moreAssignments n (.binary left op (← assignment n))
termination_by structural n _ => n

/-- An assignment, or a conditional. -/
def assignment : Nat → Parse Expr
  | 0 => starve
  | n + 1 => do
    let target ← conditional n
    match ← acceptIf assigns with
    | none => return target
    | some equals =>
      let value ← assignment n
      assignTo target equals (assignedValue target equals value)
termination_by structural n => n

/-- A choice by a condition, or an operand. -/
def conditional : Nat → Parse Expr
  | 0 => starve
  | n + 1 => do
    let condition ← operand n .or
    match ← accept .question with
    | none => return condition
    | some _ =>
      let yes ← expression n
      let _ ← expect .colon .conditionalColon
      let no ← conditional n
      return .conditional condition yes no
termination_by structural n => n

/-- Operands joined by the operators of a level, grouped to the left. -/
def operand : Nat → Level → Parse Expr
  | 0, _ => starve
  | n + 1, l => do moreOperands n l (← operandWithin n l.tighter?)
termination_by structural n _ => n

/-- The operands of a level after the expression `left`. -/
def moreOperands : Nat → Level → Expr → Parse Expr
  | 0, _, _ => starve
  | n + 1, l, left => do
    match ← acceptIf l.has with
    | none => return left
    | some op => moreOperands n l (l.join left op (← operandWithin n l.tighter?))
termination_by structural n _ _ => n

/-- What stands between operators: an operand of a level, or a unary at the tightest. -/
def operandWithin : Nat → Option Level → Parse Expr
  | 0, _ => starve
  | n + 1, some l => operand n l
  | n + 1, none => unary n
termination_by structural n _ => n

/-- A sign before an operand, or a call. -/
def unary : Nat → Parse Expr
  | 0 => starve
  | n + 1 => do
    match ← acceptIf fun k => k = .bang || k = .minus with
    | some op => return .unary op (← unary n)
    | none => moreCalls n (← primary n)
termination_by structural n => n

/-- The argument lists and property names after the expression `left`. -/
def moreCalls : Nat → Expr → Parse Expr
  | 0, _ => starve
  | n + 1, left => do
    match ← accept .leftParen with
    | some _ =>
      let args := (← before .rightParen (arguments n)).getD []
      limit .tooManyArguments args.length
      let paren ← expect .rightParen .argumentsClose
      moreCalls n (.call left paren args)
    | none =>
      match ← accept .dot with
      | some _ => moreCalls n (.get left (← expect .identifier .propertyName))
      | none => return left
termination_by structural n _ => n

/-- Arguments separated by commas. -/
def arguments : Nat → Parse (List Expr)
  | 0 => starve
  | n + 1 => do
    let first ← assignment n
    match ← accept .comma with
    | none => return [first]
    | some _ => return first :: (← arguments n)
termination_by structural n => n

/-- A literal, a name, a function, or an expression in parentheses. -/
def primary : Nat → Parse Expr
  | 0 => starve
  | n + 1 => do
    let t ← peek
    match t.kind with
    | .kwFalse => skip; return .literal (.bool false)
    | .kwTrue => skip; return .literal (.bool true)
    | .kwNil => skip; return .literal .nil
    | .number x => skip; return .literal (.number x)
    | .string s => skip; return .literal (.text s)
    | .kwSuper =>
      skip
      let _ ← expect .dot .superDot
      let method ← expect .identifier .superMethod
      return .super (← refer t) method
    | .kwThis => skip; return .this (← refer t)
    | .identifier => skip; return .read (← refer t)
    | .kwFun => skip; return .lambda (← code n .lambda)
    | .leftParen =>
      skip
      let inner ← expression n
      let _ ← expect .rightParen .groupClose
      return .group inner
    | k =>
      match Level.ofStray? k with
      | some l =>
        skip
        report .missingLeft t
        let _ ← operand n l
        return .literal .nil
      | none => fail .expression
termination_by structural n => n

/-- The parameters and the body of a function. -/
def code : Nat → Callable → Parse Code
  | 0, _ => starve
  | n + 1, f => do
    let _ ← expect .leftParen (.paramsOpen f)
    let params ← parameters n
    let _ ← expect .leftBrace (.bodyOpen f)
    return .mk params (← blockRest n 0)
termination_by structural n _ => n

/-- A function or a method, from its name on. -/
def funDecl : Nat → Callable → Parse FunDecl
  | 0, _ => starve
  | n + 1, f => do
    let name ← expect .identifier (.functionName f)
    return .mk name (← code n f)
termination_by structural n _ => n

/-- A declaration or a statement, or nothing after a failure. -/
def declaration : Nat → (loops : Nat) → Parse (Option Stmt)
  | 0, _ => starve
  | n + 1, loops => recovering (declarationOrFail n loops)
termination_by structural n _ => n

/-- A declaration or a statement. -/
def declarationOrFail : Nat → (loops : Nat) → Parse Stmt
  | 0, _ => starve
  | n + 1, loops => do
    match ← accept .kwClass with
    | some _ => classDecl n
    | none =>
      if (← check .kwFun) && (← checkSecond .identifier) then
        let _ ← accept .kwFun
        return .funDecl (← funDecl n .function)
      else
        match ← accept .kwVar with
        | some _ => varDecl n
        | none => statement n loops
termination_by structural n _ => n

/-- A class, from its name on. -/
def classDecl : Nat → Parse Stmt
  | 0 => starve
  | n + 1 => do
    let name ← expect .identifier .className
    let superclass ← behind .less superclassName
    let _ ← expect .leftBrace .classOpen
    let methods ← methodsRest n
    let _ ← expect .rightBrace .classClose
    return .classDecl name superclass methods
termination_by structural n => n

/-- Methods up to a closing brace or the end. -/
def methodsRest : Nat → Parse (List FunDecl)
  | 0 => starve
  | n + 1 => do
    if (← check .rightBrace) || (← atEnd) then
      return []
    else
      return (← funDecl n .method) :: (← methodsRest n)
termination_by structural n => n

/-- A variable, from its name on. -/
def varDecl : Nat → Parse Stmt
  | 0 => starve
  | n + 1 => do
    let name ← expect .identifier .variableName
    let init ← behind .equal (expression n)
    let _ ← expect .semicolon .variableEnd
    return .varDecl name (init.getD (.literal .nil))
termination_by structural n => n

/-- A statement that declares nothing. -/
def statement : Nat → (loops : Nat) → Parse Stmt
  | 0, _ => starve
  | n + 1, loops => do
    let t ← peek
    match t.kind with
    | .kwFor => skip; forLoop n loops
    | .kwIf => skip; branch n loops
    | .kwReturn => skip; ret n t
    | .kwWhile => skip; whileLoop n loops
    | .leftBrace => skip; return .block (← blockRest n loops)
    | .kwBreak => skip; loopExit loops .leave t
    | .kwContinue => skip; loopExit loops .next t
    | _ => exprStatement n
termination_by structural n _ => n

/-- An expression and the semicolon behind it. -/
def exprStatement : Nat → Parse Stmt
  | 0 => starve
  | n + 1 => do
    let e ← expression n
    let _ ← expect .semicolon .expressionEnd
    return .expr e
termination_by structural n => n

/-- A `for` loop, from its parenthesis on. -/
def forLoop : Nat → (loops : Nat) → Parse Stmt
  | 0, _ => starve
  | n + 1, loops => do
    let _ ← expect .leftParen .forOpen
    let init ← forInit n
    let condition ← before .semicolon (expression n)
    let _ ← expect .semicolon .forCondition
    let increment ← before .rightParen (expression n)
    let _ ← expect .rightParen .forClose
    let body ← statement n (loops + 1)
    return .forLoop init (condition.getD (.literal (.bool true))) increment body
termination_by structural n _ => n

/-- What a `for` loop starts with, and the semicolon behind it. -/
def forInit : Nat → Parse (Option Stmt)
  | 0 => starve
  | n + 1 => do
    match ← accept .semicolon with
    | some _ => return none
    | none =>
      match ← accept .kwVar with
      | some _ => some <$> varDecl n
      | none => some <$> exprStatement n
termination_by structural n => n

/-- A `while` loop, from its parenthesis on. -/
def whileLoop : Nat → (loops : Nat) → Parse Stmt
  | 0, _ => starve
  | n + 1, loops => do
    let _ ← expect .leftParen .whileOpen
    let condition ← expression n
    let _ ← expect .rightParen .conditionClose
    return .whileLoop condition (← statement n (loops + 1))
termination_by structural n _ => n

/-- A choice between statements, from its parenthesis on. An `else` belongs to the nearest. -/
def branch : Nat → (loops : Nat) → Parse Stmt
  | 0, _ => starve
  | n + 1, loops => do
    let _ ← expect .leftParen .ifOpen
    let condition ← expression n
    let _ ← expect .rightParen .conditionClose
    let yes ← statement n loops
    return .branch condition yes (← behind .kwElse (statement n loops))
termination_by structural n _ => n

/-- A return, from behind its keyword on. -/
def ret : Nat → (keyword : Token) → Parse Stmt
  | 0, _ => starve
  | n + 1, keyword => do
    let value ← before .semicolon (expression n)
    let _ ← expect .semicolon .returnEnd
    return .ret keyword value
termination_by structural n _ => n

/-- The statements of a block and the brace that closes it. -/
def blockRest : Nat → (loops : Nat) → Parse (List Stmt)
  | 0, _ => starve
  | n + 1, loops => do
    let body ← declarations n loops
    let _ ← expect .rightBrace .blockClose
    return body
termination_by structural n _ => n

/-- Statements up to a closing brace or the end. -/
def declarations : Nat → (loops : Nat) → Parse (List Stmt)
  | 0, _ => starve
  | n + 1, loops => do
    if (← check .rightBrace) || (← atEnd) then
      return []
    else
      let first ← declaration n loops
      return first.toList ++ (← declarations n loops)
termination_by structural n _ => n

end

/-! ## 6. Programs -/

/-- The statements up to the end. -/
def program : Nat → Parse (List Stmt)
  | 0 => starve
  | n + 1 => do
    if ← atEnd then
      return []
    else
      let first ← declaration n 0
      return first.toList ++ (← program n)

/-- Fuel enough to parse `count` tokens: between two tokens no chain of rules is longer than
    this allows for. -/
def fuelFor (count : Nat) : Nat := 32 * (count + 1)

/-- What a parse comes to. -/
structure Parsed where
  /-- The statements that could be read. -/
  statements : List Stmt
  /-- The complaints, in order. -/
  errors : List SyntaxError
  /-- The first reference still free. -/
  nextId : Nat

/-- **The program that some tokens are**, with `nextId` the first free reference. -/
def parse (tokens : List Token) (nextId : Nat) : Parsed :=
  match (program (fuelFor tokens.length)).run (Cursor.ofTokens tokens nextId) with
  | (.ok statements, s) => ⟨statements, s.errors, s.nextId⟩
  | (.error _, s) => ⟨[], s.errors, s.nextId⟩

end Lox.Syntax
