import Lox.Token

/-!
# Why tokens are no program

Every complaint of the parser, one constructor each, with its wording in `Complaint.message`. A
`SyntaxError` is a complaint and the token it is about.
-/

namespace Lox

/-- What the parameters and the body of a function belong to. -/
inductive Callable where
  | function
  | method
  | lambda
deriving DecidableEq, Repr

/-- A kind of function in words. -/
def Callable.word : Callable → String
  | .function => "function"
  | .method => "method"
  | .lambda => "lambda"

/-- A way out of a loop. -/
inductive LoopExit where
  | leave
  | next
deriving DecidableEq, Repr

/-- The keyword of a way out of a loop. -/
def LoopExit.word : LoopExit → String
  | .leave => "break"
  | .next => "continue"

/-- More parameters or arguments than these are too many. -/
def maxArguments : Nat := 8

/-- Why some tokens are no program. -/
inductive Complaint where
  | className | superclassName | classOpen | classClose
  | functionName (f : Callable) | paramsOpen (f : Callable) | bodyOpen (f : Callable)
  | parameterName | tooManyParameters | paramsClose
  | variableName | variableEnd
  | forOpen | forCondition | forClose
  | ifOpen | whileOpen | conditionClose
  | returnEnd | exitEnd (e : LoopExit) | exitOutsideLoop (e : LoopExit)
  | expressionEnd | blockClose
  | invalidTarget | conditionalColon
  | propertyName | tooManyArguments | argumentsClose
  | superDot | superMethod | groupClose
  | missingLeft | expression
deriving DecidableEq, Repr

/-- A complaint in words. -/
def Complaint.message : Complaint → String
  | .className => "Expected class name."
  | .superclassName => "Expected superclass name."
  | .classOpen => "Expected '\x7b' before class body."
  | .classClose => "Expected '\x7d' after class body."
  | .functionName f => "Expected " ++ f.word ++ " name."
  | .paramsOpen f => "Expected '(' after " ++ f.word ++ " name."
  | .bodyOpen f => "Expected '\x7b' before " ++ f.word ++ " body."
  | .parameterName => "Expected parameter name."
  | .tooManyParameters => "Cannot have more than " ++ toString maxArguments ++ " parameters."
  | .paramsClose => "Expected ')' after parameter list."
  | .variableName => "Expected variable name."
  | .variableEnd => "Expected ';' after variable declaration."
  | .forOpen => "Expected '(' after 'for'."
  | .forCondition => "Expected ';' after for condition."
  | .forClose => "Expected ')' after for clause."
  | .ifOpen => "Expected '(' after 'if'."
  | .whileOpen => "Expected '(' after 'while'."
  | .conditionClose => "Expected ')' after condition."
  | .returnEnd => "Expected ';' after return statement."
  | .exitEnd e => "Expected ';' after '" ++ e.word ++ "'."
  | .exitOutsideLoop e => "'" ++ e.word ++ "' can only be used inside loops."
  | .expressionEnd => "Expected ';' after expression."
  | .blockClose => "Expected '\x7d' to end block."
  | .invalidTarget => "Invalid assignment target."
  | .conditionalColon => "Expected ':' in conditional expression."
  | .propertyName => "Expected property name after '.'."
  | .tooManyArguments => "Cannot have more than " ++ toString maxArguments ++ " arguments."
  | .argumentsClose => "Expected ')' after arguments."
  | .superDot => "Expected '.' after 'super'."
  | .superMethod => "Expected superclass method name."
  | .groupClose => "Expected ')' after expression."
  | .missingLeft => "Missing left-hand operand."
  | .expression => "Expected expression."

/-- A complaint and the token it is about. -/
structure SyntaxError where
  complaint : Complaint
  token : Token
deriving DecidableEq, Repr

end Lox
