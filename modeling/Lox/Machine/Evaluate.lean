import Lox.Machine.Native
import Lox.Machine.Operators

/-!
# Running programs

The meaning of expressions and statements as computations on the machine. The environment of a
place is passed along, never kept, so nothing has to be undone on the way out of a block or a call.

* `evaluate` gives an expression's value, `execute` how a statement finished (`Signal`). A way out
  of a loop or a function is such a signal; errors of the program never are.
* Every function takes fuel, one unit each call. Fuel bounds how deep calls nest and how often a
  loop turns; where it suffices, more of it changes nothing.
* A block, a `for` loop, a call, the methods of a class with a superclass, and a bound method have
  a frame of their own each, one for every scope that the static walk sees there.
-/

namespace Lox

/-- How a statement finished. -/
inductive Signal where
  /-- It goes on with the next statement. -/
  | normal
  /-- Out of the function, with a value. -/
  | ret (v : Value)
  /-- Out of the innermost loop. -/
  | leave
  /-- On to the next turn of the innermost loop. -/
  | next

/-! ## 1. Parts that run nothing themselves -/

/-- The name `this` as a token where no source has one. -/
def hiddenThis : Token := ⟨.identifier, thisName, 0, 0⟩

/-- What a call of a function comes to, from how its body finished. -/
def returned (f : Closure) (s : Signal) : Run Value :=
  if f.isInitializer then
    readAt f.env 0 hiddenThis
  else
    match s with
    | .ret v => return v
    | .normal | .leave | .next => return .nil

/-- The frame of a call. -/
def parameterBindings (f : Closure) (args : List Value) : Bindings Value :=
  .ofPairs ((f.code.params.map Token.lexeme).zip args)

/-- A method of an instance, as a value of its own. -/
def boundMethod (f : Closure) (this : Value) : Run Value := do newFunction (← bindMethod f this)

/-- A property: a field of the instance, or else a method bound to it. -/
def property (o : ObjectId) (c : Class) (name : Token) : Run Value := do
  match ((← get).store.fields o).find? name.lexeme with
  | some v => return v
  | none =>
    match c.method? name.lexeme with
    | some f => boundMethod f (.object o c)
    | none => raise (.undefinedProperty name.lexeme name.pos)

/-- A method of the superclass, bound to the instance at hand. The instance lives one link nearer
    than the superclass. -/
def superMethod (ref : Reference) (method : Token) (env : Env) : Run Value := do
  match (← get).distances.find? ref.id with
  | none => throw (.fault (.superUnresolved ref.token.pos.line))
  | some distance =>
    match ← readAt env distance ref.token with
    | .ofClass c =>
      match distance with
      | 0 => throw (.fault .superTooNear)
      | nearer + 1 =>
        match ← readAt env nearer hiddenThis with
        | .object o d =>
          match c.method? method.lexeme with
          | some f => boundMethod f (.object o d)
          | none => raise (.undefinedProperty method.lexeme method.pos)
        | v => throw (.fault (.thisNotInstance v.display))
    | v => throw (.fault (.superNotClass v.display))

/-- The class that a superclass reference means, if there is one. -/
def superclassOf (superclass : Option Reference) (env : Env) : Run (Option Class) := do
  match superclass with
  | none => return none
  | some ref =>
    match ← lookUp ref env with
    | .ofClass c => return some c
    | _ => raise (.type "Superclass must be a class." ref.token.pos)

/-- The environment of the methods of a class: with a frame for `super` where there is one. -/
def methodEnv (parent : Option Class) (env : Env) : Run Env :=
  match parent with
  | none => return env
  | some c => newFrame env [(superName, .ofClass c)]

/-- A declared method with its environment. -/
def methodOf (env : Env) : FunDecl → String × Closure
  | .mk name code =>
    (name.lexeme, ⟨some name.lexeme, code, env, name.lexeme = initializerName⟩)

/-- Binds a name anew in the nearest frame that binds it. -/
def assignNearest (name : Token) (env : Env) (v : Value) : Run Unit := do
  match (← get).store.owner? env name.lexeme with
  | some f => modifyStore (·.defineIn f name.lexeme v)
  | none => raise (.undefinedVariable name.lexeme name.pos)

/-- Declares a class. Its name is bound first, so that its methods can mean it. -/
def declareClass (name : Token) (superclass : Option Reference) (methods : List FunDecl)
    (env : Env) : Run Unit := do
  modifyStore (·.define env name.lexeme .nil)
  let parent ← superclassOf superclass env
  let inner ← methodEnv parent env
  let id ← allocate Store.newIdentity
  let own := Bindings.ofPairs (methods.map (methodOf inner))
  assignNearest name env (.ofClass (.mk id name.lexeme parent own))

/-! ## 2. Expressions, calls and statements -/

mutual

/-- The value of an expression. -/
def evaluate : Nat → Expr → Env → Run Value
  | 0, _, _ => outOfFuel
  | n + 1, e, env => do
    match e with
    | .literal l => return .ofLiteral l
    | .group inner => evaluate n inner env
    | .unary op operand => unaryValue op (← evaluate n operand env)
    | .binary left op right =>
      let a ← evaluate n left env
      let b ← evaluate n right env
      binaryValue op a b
    | .logical left op right =>
      let a ← evaluate n left env
      if decides op a then return a else evaluate n right env
    | .conditional condition yes no =>
      if (← evaluate n condition env).isTruthy then evaluate n yes env else evaluate n no env
    | .read ref => lookUp ref env
    | .assign ref value =>
      let v ← evaluate n value env
      rebind ref env v
      return v
    | .call callee paren args =>
      let f ← evaluate n callee env
      let vs ← evaluateAll n args env
      match f.arity? with
      | none => raise (.type "Can only call functions and classes." paren.pos)
      | some k =>
        if vs.length = k then apply n f vs paren
        else raise (.arity k vs.length paren.pos)
    | .get object name =>
      match ← evaluate n object env with
      | .object o c => property o c name
      | _ => raise (.type "Only instances have properties." name.pos)
    | .set object name value =>
      match ← evaluate n object env with
      | .object o _ =>
        let v ← evaluate n value env
        modifyStore (·.setField o name.lexeme v)
        return v
      | _ => raise (.type "Only instances have fields." name.pos)
    | .this ref => lookUp ref env
    | .super ref method => superMethod ref method env
    | .lambda code => newFunction ⟨none, code, env, false⟩
termination_by structural n => n

/-- The values of expressions, from left to right. -/
def evaluateAll : Nat → List Expr → Env → Run (List Value)
  | 0, _, _ => outOfFuel
  | _ + 1, [], _ => return []
  | n + 1, e :: rest, env => do
    let v ← evaluate n e env
    return v :: (← evaluateAll n rest env)
termination_by structural n => n

/-- Calls a value with as many arguments as it takes. -/
def apply : Nat → Value → List Value → (paren : Token) → Run Value
  | 0, _, _, _ => outOfFuel
  | n + 1, f, args, paren => do
    match f with
    | .native f => f.call args paren
    | .function _ f => invoke n f args
    | .ofClass c =>
      let this := Value.object (← allocate Store.newObject) c
      match c.method? initializerName with
      | some f =>
        let _ ← invoke n (← bindMethod f this) args
        return this
      | none => return this
    | _ => raise (.type "Can only call functions and classes." paren.pos)
termination_by structural n => n

/-- Runs the body of a function. -/
def invoke : Nat → Closure → List Value → Run Value
  | 0, _, _ => outOfFuel
  | n + 1, f, args => do
    let env ← newFrame f.env (parameterBindings f args)
    returned f (← executeAll n f.code.body env)
termination_by structural n => n

/-- Runs a statement. -/
def execute : Nat → Stmt → Env → Run Signal
  | 0, _, _ => outOfFuel
  | n + 1, s, env => do
    match s with
    | .expr e =>
      let _ ← evaluate n e env
      return .normal
    | .varDecl name init =>
      let v ← evaluate n init env
      modifyStore (·.define env name.lexeme v)
      return .normal
    | .funDecl (.mk name code) =>
      let f ← newFunction ⟨some name.lexeme, code, env, false⟩
      modifyStore (·.define env name.lexeme f)
      return .normal
    | .classDecl name superclass methods =>
      declareClass name superclass methods env
      return .normal
    | .branch condition yes no =>
      if (← evaluate n condition env).isTruthy then
        execute n yes env
      else
        match no with
        | some no => execute n no env
        | none => return .normal
    | .whileLoop condition body => turns n condition none body env
    | .forLoop init condition increment body =>
      let inner ← newFrame env []
      match init with
      | some init =>
        let _ ← execute n init inner
        turns n condition increment body inner
      | none => turns n condition increment body inner
    | .block body => executeAll n body (← newFrame env [])
    | .ret _ value =>
      match value with
      | some e => return .ret (← evaluate n e env)
      | none => return .ret .nil
    | .leave _ => return .leave
    | .next _ => return .next
termination_by structural n => n

/-- Runs statements in order, up to the first that does not finish normally. -/
def executeAll : Nat → List Stmt → Env → Run Signal
  | 0, _, _ => outOfFuel
  | _ + 1, [], _ => return .normal
  | n + 1, s :: rest, env => do
    match ← execute n s env with
    | .normal => executeAll n rest env
    | signal => return signal
termination_by structural n => n

/-- Turns of a loop: while the condition holds, its body, and then the increment, if any. -/
def turns : Nat → (condition : Expr) → (increment : Option Expr) → (body : Stmt) → Env → Run Signal
  | 0, _, _, _, _ => outOfFuel
  | n + 1, condition, increment, body, env => do
    if (← evaluate n condition env).isTruthy then
      match ← execute n body env with
      | .leave => return .normal
      | .ret v => return .ret v
      | .normal | .next =>
        match increment with
        | some e =>
          let _ ← evaluate n e env
          turns n condition increment body env
        | none => turns n condition increment body env
    else
      return .normal
termination_by structural n => n

end

end Lox
