import Lox.Scope

/-!
# Which name means what

Scoping is decided on the tree, before anything runs. Walking a program in the order in which its
parts are bound yields `Finding`s: a complaint about a token, or how far out the scope lies that a
reference means, with no depth for a global name.

* A walk carries a `Resolver` along: the scopes around the place, the function and the class that it is
  in, and what it found out so far. What it enters it leaves again.
* An assignment is looked up after the value it assigns.
* A method runs in two scopes of its own class, one with `super` where there is a superclass and one
  with `this`.
* A complaint stops nothing, but that a `this` or `super` out of place is not looked up.
-/

namespace Lox

/-! ## 1. Findings -/

/-- Why a program that parses is refused. -/
inductive StaticComplaint where
  | redeclared (name : String)
  | ownInitializer
  | topLevelReturn
  | initializerReturn
  | selfInheritance
  | thisOutsideClass
  | superOutsideClass
  | superWithoutSuperclass
deriving DecidableEq, Repr

/-- A complaint in words. -/
def StaticComplaint.message : StaticComplaint → String
  | .redeclared name => "Variable '" ++ name ++ "' already declared in this scope."
  | .ownInitializer => "Cannot read local variable in its own initializer."
  | .topLevelReturn => "Cannot return from top-level code."
  | .initializerReturn => "Cannot return a value from an initializer."
  | .selfInheritance => "A class cannot inherit from itself."
  | .thisOutsideClass => "Cannot use 'this' outside of a class."
  | .superOutsideClass => "Cannot use 'super' outside of a class."
  | .superWithoutSuperclass => "Cannot use 'super' in a class with no superclass."

/-- The innermost function around a place. -/
inductive FunctionContext where
  | none | function | method | initializer
deriving DecidableEq, Repr

/-- The innermost class around a place. -/
inductive ClassContext where
  | none | base | derived
deriving DecidableEq, Repr

/-- The name of a method that initializes an instance. -/
def initializerName : String := "init"

/-- The name under which a method finds its instance. -/
def thisName : String := "this"

/-- The name under which a method finds the superclass of its class. -/
def superName : String := "super"

/-- What scoping finds out about a program. -/
inductive Finding where
  | complaint (c : StaticComplaint) (token : Token)
  /-- A reference means the scope `depth` further out, or a global name. -/
  | reference (ref : Reference) (depth : Option Nat)

/-- The context of the body of a method. -/
def FunctionContext.ofMethod (name : Token) : FunctionContext :=
  if name.lexeme = initializerName then .initializer else .method

/-! ## 2. The resolver -/

/-- What a walk carries along. -/
structure Resolver where
  scopes : Scopes
  function : FunctionContext
  ofClass : ClassContext
  found : Array Finding

/-- Outside all functions, classes and scopes, with nothing found out. -/
def Resolver.initial : Resolver := ⟨[], .none, .none, #[]⟩

/-- A walk, or a part of one. -/
abbrev Walk := StateM Resolver

namespace Walk

/-- Finds something out. -/
def find (f : Finding) : Walk Unit := modify fun r => { r with found := r.found.push f }

/-- Complains about a token. -/
def complain (c : StaticComplaint) (token : Token) : Walk Unit := find (.complaint c token)

/-- Enters a function, or leaves it for the one around it. -/
def setFunction (kind : FunctionContext) : Walk Unit := modify fun r => { r with function := kind }

/-- Enters a class, or leaves it for the one around it. -/
def setClass (kind : ClassContext) : Walk Unit := modify fun r => { r with ofClass := kind }

/-- Enters a scope. -/
def beginScope : Walk Unit := modify fun r => { r with scopes := [] :: r.scopes }

/-- Leaves the innermost scope. -/
def endScope : Walk Unit := modify fun r => { r with scopes := r.scopes.tail }

/-- Brings a name into the innermost scope, unless the scope has it already. -/
def declare (name : Token) : Walk Unit := do
  if (← get).scopes.hasInnermost name.lexeme then
    complain (.redeclared name.lexeme) name
  else
    modify fun r => { r with scopes := r.scopes.declare name.lexeme }

/-- Completes a name of the innermost scope. -/
def markDefined (name : String) : Walk Unit :=
  modify fun r => { r with scopes := r.scopes.define name }

/-- Brings a name in and completes it at once. -/
def introduce (name : Token) : Walk Unit := do
  declare name
  markDefined name.lexeme

/-- Brings parameters in, in order. -/
def introduceAll : List Token → Walk Unit
  | [] => return
  | name :: rest => do
    introduce name
    introduceAll rest

/-- Looks a reference up. -/
def look (ref : Reference) : Walk Unit := do
  find (.reference ref ((← get).scopes.depthOf? ref.name))

/-- A name that is read. -/
def read (ref : Reference) : Walk Unit := do
  if (← get).scopes.isIncomplete ref.name then complain .ownInitializer ref.token
  look ref

/-- A `this`. -/
def this (ref : Reference) : Walk Unit := do
  match (← get).ofClass with
  | .none => complain .thisOutsideClass ref.token
  | .base | .derived => look ref

/-- A `super`. -/
def super (ref : Reference) : Walk Unit := do
  match (← get).ofClass with
  | .none => complain .superOutsideClass ref.token
  | .base => complain .superWithoutSuperclass ref.token
  | .derived => look ref

/-- A return, in front of its value. -/
def returns (keyword : Token) (hasValue : Bool) : Walk Unit := do
  if (← get).function = .none then complain .topLevelReturn keyword
  if hasValue ∧ (← get).function = .initializer then complain .initializerReturn keyword

/-- The superclass of the class `name`, if it has one, and the scope with `super`. -/
def superclass (name : Token) : Option Reference → Walk Unit
  | none => return
  | some ref => do
    if ref.name = name.lexeme then complain .selfInheritance ref.token
    setClass .derived
    read ref
    beginScope
    markDefined superName

end Walk

open Walk

mutual

/-- Walks through an expression. -/
def Expr.walk : Expr → Walk Unit
  | .literal _ => return
  | .group inner => inner.walk
  | .unary _ operand => operand.walk
  | .binary left _ right => do
    left.walk
    right.walk
  | .logical left _ right => do
    left.walk
    right.walk
  | .conditional condition yes no => do
    condition.walk
    yes.walk
    no.walk
  | .read ref => read ref
  | .assign ref value => do
    value.walk
    look ref
  | .call callee _ args => do
    callee.walk
    walkExprs args
  | .get object _ => object.walk
  | .set object _ value => do
    value.walk
    object.walk
  | .this ref => this ref
  | .super ref _ => super ref
  | .lambda code => code.walk .function

/-- Walks through expressions, in order. -/
def walkExprs : List Expr → Walk Unit
  | [] => return
  | e :: rest => do
    e.walk
    walkExprs rest

/-- Walks through a function: its parameters and its body share one scope. -/
def Code.walk (kind : FunctionContext) : Code → Walk Unit
  | .mk params body => do
    let enclosing := (← get).function
    setFunction kind
    beginScope
    introduceAll params
    walkAll body
    endScope
    setFunction enclosing

/-- Walks through methods. -/
def walkMethods : List FunDecl → Walk Unit
  | [] => return
  | .mk name code :: rest => do
    code.walk (.ofMethod name)
    walkMethods rest

/-- Walks through a statement. -/
def Stmt.walk : Stmt → Walk Unit
  | .expr e => e.walk
  | .varDecl name init => do
    declare name
    init.walk
    markDefined name.lexeme
  | .funDecl (.mk name code) => do
    introduce name
    code.walk .function
  | .classDecl name ref methods => do
    let enclosing := (← get).ofClass
    setClass .base
    introduce name
    superclass name ref
    beginScope
    markDefined thisName
    walkMethods methods
    endScope
    if ref.isSome then endScope
    setClass enclosing
  | .branch condition yes no => do
    condition.walk
    yes.walk
    walkOption no
  | .whileLoop condition body => do
    condition.walk
    body.walk
  | .forLoop init condition increment body => do
    beginScope
    walkOption init
    condition.walk
    walkOptionExpr increment
    body.walk
    endScope
  | .block body => do
    beginScope
    walkAll body
    endScope
  | .ret keyword value => do
    returns keyword value.isSome
    walkOptionExpr value
  | .leave _ => return
  | .next _ => return

/-- Walks through statements, in order. -/
def walkAll : List Stmt → Walk Unit
  | [] => return
  | s :: rest => do
    s.walk
    walkAll rest

/-- Walks through a statement that may be missing. -/
def walkOption : Option Stmt → Walk Unit
  | none => return
  | some s => s.walk

/-- Walks through an expression that may be missing. -/
def walkOptionExpr : Option Expr → Walk Unit
  | none => return
  | some e => e.walk

end

/-- **What scoping finds out about a program.** -/
def resolve (program : List Stmt) : List Finding :=
  ((walkAll program).run Resolver.initial).2.found.toList

/-- The complaints among some findings. -/
def complaintsOf (found : List Finding) : List (StaticComplaint × Token) :=
  found.filterMap fun
    | .complaint c t => some (c, t)
    | .reference _ _ => none

end Lox
