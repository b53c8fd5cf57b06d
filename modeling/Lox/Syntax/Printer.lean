import Lox.Decimal.Layout
import Lox.Syntax

/-!
# Programs in prefix form

A tree written with its head in front, as in `(+ 1.0 (group 2.0))`. Every composite node is a
parenthesised form of words separated by single spaces; a part that is left out of a `for` is the
empty form.

* `Expr.listing`, `Stmt.listing`: the prefix form of a tree;
* a number that is an integer is written exactly and with `.0`, any other with its shortest digits.
-/

namespace Lox

/-- Words in parentheses. -/
def form (words : List String) : String := "(" ++ " ".intercalate words ++ ")"

/-- A number in prefix form. -/
def listedNumber (x : Float) : String :=
  String.ofList (Decimal.text ['.', '0'] (Decimal.parts x))

/-- A literal in prefix form; a string stands without quotes. -/
def Literal.listing : Literal → String
  | .number x => listedNumber x
  | .text s => s
  | .bool true => "true"
  | .bool false => "false"
  | .nil => "nil"

mutual

/-- An expression in prefix form. -/
def Expr.listing : Expr → String
  | .literal l => l.listing
  | .group inner => form ["group", inner.listing]
  | .unary op operand => form [op.lexeme, operand.listing]
  | .binary left op right => form [op.lexeme, left.listing, right.listing]
  | .logical left op right => form [op.lexeme, left.listing, right.listing]
  | .conditional condition yes no => form ["cond", condition.listing, yes.listing, no.listing]
  | .read ref => ref.name
  | .assign ref value => form ["=", ref.name, value.listing]
  | .call callee _ args => form ("call" :: callee.listing :: listings args)
  | .get object name => form [".", object.listing, name.lexeme]
  | .set object name value =>
    form ["=", form [".", object.listing, name.lexeme], value.listing]
  | .this _ => "this"
  | .super _ method => form ["super", method.lexeme]
  | .lambda code => form ("fun" :: code.listing)

/-- Expressions in prefix form. -/
def listings : List Expr → List String
  | [] => []
  | e :: rest => e.listing :: listings rest

/-- The parameters of a function as one form, then its statements. -/
def Code.listing : Code → List String
  | .mk params body => form (params.map Token.lexeme) :: bodyListing body

/-- A function in prefix form. -/
def FunDecl.listing : FunDecl → String
  | .mk name code => form ("fun" :: name.lexeme :: code.listing)

/-- Methods in prefix form. -/
def methodListings : List FunDecl → List String
  | [] => []
  | m :: rest => m.listing :: methodListings rest

/-- A statement in prefix form. -/
def Stmt.listing : Stmt → String
  | .expr e => form [";", e.listing]
  | .varDecl name init => form ["var", name.lexeme, init.listing]
  | .funDecl decl => decl.listing
  | .classDecl name superclass methods =>
    form ("class" :: name.lexeme ::
      ((superclass.map fun r => ["<", r.name]).getD [] ++ methodListings methods))
  | .branch condition yes none => form ["if", condition.listing, yes.listing]
  | .branch condition yes (some no) => form ["if", condition.listing, yes.listing, no.listing]
  | .whileLoop condition body => form ["while", condition.listing, body.listing]
  | .forLoop init condition increment body =>
    form ["for", optionListing init, condition.listing, optionExprListing increment, body.listing]
  | .block body => form ("block" :: bodyListing body)
  | .ret _ none => form ["return"]
  | .ret _ (some value) => form ["return", value.listing]
  | .leave _ => form ["break"]
  | .next _ => form ["continue"]

/-- Statements in prefix form. -/
def bodyListing : List Stmt → List String
  | [] => []
  | s :: rest => s.listing :: bodyListing rest

/-- A statement that may be missing, in prefix form. -/
def optionListing : Option Stmt → String
  | none => form []
  | some s => s.listing

/-- An expression that may be missing, in prefix form. -/
def optionExprListing : Option Expr → String
  | none => form []
  | some e => e.listing

end

end Lox
