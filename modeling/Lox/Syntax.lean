import Lox.Token

/-!
# Programs as trees

What a parse builds: expressions, functions and statements, each with the tokens that an error or a
listing may have to name.

* A `Reference` is a use of a name that scoping decides about. Its `RefId` is its own in a whole
  session, so what scoping finds out about it can be kept beside the tree.
* A class may inherit from a name only, so its superclass is a `Reference`.
* `a op= b` has no form of its own: it is the assignment of `a op b`.
-/

namespace Lox

/-- What tells one reference from all others. -/
structure RefId where
  index : Nat
deriving DecidableEq, Repr

/-- A use of a name, `this` or `super`. -/
structure Reference where
  id : RefId
  token : Token
deriving DecidableEq, Repr

/-- The name a reference uses. -/
def Reference.name (r : Reference) : String := r.token.lexeme

/-- A value as a program spells it. -/
inductive Literal where
  | number (x : Float)
  | text (s : String)
  | bool (b : Bool)
  | nil
deriving DecidableEq, Repr

mutual

/-- An expression. -/
inductive Expr where
  | literal (l : Literal)
  | group (inner : Expr)
  | unary (op : Token) (operand : Expr)
  | binary (left : Expr) (op : Token) (right : Expr)
  | logical (left : Expr) (op : Token) (right : Expr)
  | conditional (condition yes no : Expr)
  | read (ref : Reference)
  | assign (ref : Reference) (value : Expr)
  | call (callee : Expr) (paren : Token) (args : List Expr)
  | get (object : Expr) (name : Token)
  | set (object : Expr) (name : Token) (value : Expr)
  | this (ref : Reference)
  | super (ref : Reference) (method : Token)
  | lambda (code : Code)

/-- The parameters and the body of a function. -/
inductive Code where
  | mk (params : List Token) (body : List Stmt)

/-- A function or a method with its name. -/
inductive FunDecl where
  | mk (name : Token) (code : Code)

/-- A statement. -/
inductive Stmt where
  | expr (e : Expr)
  | varDecl (name : Token) (init : Expr)
  | funDecl (decl : FunDecl)
  | classDecl (name : Token) (superclass : Option Reference) (methods : List FunDecl)
  | branch (condition : Expr) (yes : Stmt) (no : Option Stmt)
  | whileLoop (condition : Expr) (body : Stmt)
  | forLoop (init : Option Stmt) (condition : Expr) (increment : Option Expr) (body : Stmt)
  | block (body : List Stmt)
  | ret (keyword : Token) (value : Option Expr)
  | leave (keyword : Token)
  | next (keyword : Token)

end

namespace Code

/-- The parameters of a function. -/
def params : Code → List Token
  | mk params _ => params

/-- The statements a function runs. -/
def body : Code → List Stmt
  | mk _ body => body

/-- How many arguments a function takes. -/
def arity (c : Code) : Nat := c.params.length

end Code

namespace FunDecl

/-- The name of a function. -/
def name : FunDecl → Token
  | mk name _ => name

/-- The parameters and the body of a function. -/
def code : FunDecl → Code
  | mk _ code => code

end FunDecl

end Lox
