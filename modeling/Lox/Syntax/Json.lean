import Lox.Syntax
import Lox.Token.Printer

/-!
# Programs as JSON documents

Every node is an object with one member, named for the form, that holds the node's parts in order;
a part that is missing is `null`, and a node without parts is its name alone. References show their
number, so a listing shows which of them are one and the same.
-/

namespace Lox

namespace Json

/-- An object with the members `ms`, in order. -/
def object (ms : List (String × String)) : String :=
  "\x7b" ++ ",".intercalate (ms.map fun m => Text.quoted m.1 ++ ":" ++ m.2) ++ "\x7d"

/-- An array. -/
def array (xs : List String) : String := "[" ++ ",".intercalate xs ++ "]"

/-- A node that holds one value. -/
def node (name value : String) : String := object [(name, value)]

end Json

open Json

/-- The members of a reference, whose token is called `label`. -/
def Reference.members (r : Reference) (label : String) : List (String × String) :=
  [("id", toString r.id.index), (label, r.token.json)]

/-- A literal as a document. -/
def Literal.json : Literal → String
  | .number x => node "Number" (String.ofList (Decimal.document (Decimal.parts x)))
  | .text s => node "Str" (Text.quoted s)
  | .bool b => node "Bool" (if b then "true" else "false")
  | .nil => Text.quoted "Nil"

mutual

/-- An expression as a document. -/
def Expr.json : Expr → String
  | .literal l => node "Literal" l.json
  | .group inner => node "Grouping" inner.json
  | .unary op operand => node "Unary" (object [("operator", op.json), ("right", operand.json)])
  | .binary left op right =>
    node "Binary" (object [("left", left.json), ("operator", op.json), ("right", right.json)])
  | .logical left op right =>
    node "Logical" (object [("left", left.json), ("operator", op.json), ("right", right.json)])
  | .conditional condition yes no =>
    node "Conditional"
      (object [("condition", condition.json), ("then_branch", yes.json), ("else_branch", no.json)])
  | .read ref => node "Variable" (object (ref.members "name"))
  | .assign ref value => node "Assign" (object (ref.members "name" ++ [("value", value.json)]))
  | .call callee paren args =>
    node "Call"
      (object [("callee", callee.json), ("paren", paren.json),
        ("arguments", array (exprJsons args))])
  | .get target name => node "Get" (object [("object", target.json), ("name", name.json)])
  | .set target name value =>
    node "Set" (object [("object", target.json), ("name", name.json), ("value", value.json)])
  | .this ref => node "This" (object (ref.members "keyword"))
  | .super ref method =>
    node "Super" (object (ref.members "keyword" ++ [("method", method.json)]))
  | .lambda code => node "Function" code.json

/-- Expressions as documents. -/
def exprJsons : List Expr → List String
  | [] => []
  | e :: rest => e.json :: exprJsons rest

/-- The parameters and the body of a function as a document. -/
def Code.json : Code → String
  | .mk params body =>
    object [("params", array (params.map Token.json)), ("body", array (stmtJsons body))]

/-- A function as a document. -/
def FunDecl.json : FunDecl → String
  | .mk name code => object [("name", name.json), ("function", code.json)]

/-- Methods as documents. -/
def methodJsons : List FunDecl → List String
  | [] => []
  | m :: rest => m.json :: methodJsons rest

/-- A statement as a document. -/
def Stmt.json : Stmt → String
  | .expr e => node "Expression" e.json
  | .varDecl name init => node "Var" (object [("name", name.json), ("initializer", init.json)])
  | .funDecl decl => node "Function" decl.json
  | .classDecl name superclass methods =>
    let parent := match superclass with
      | some ref => node "Variable" (object (ref.members "name"))
      | none => "null"
    node "Class"
      (object [("name", name.json), ("superclass", parent),
        ("methods", array (methodJsons methods))])
  | .branch condition yes no =>
    node "If"
      (object [("condition", condition.json), ("then_branch", yes.json),
        ("else_branch", optionJson no)])
  | .whileLoop condition body =>
    node "While" (object [("condition", condition.json), ("body", body.json)])
  | .forLoop init condition increment body =>
    node "For"
      (object [("initializer", optionJson init), ("condition", condition.json),
        ("increment", optionExprJson increment), ("body", body.json)])
  | .block body => node "Block" (array (stmtJsons body))
  | .ret keyword value =>
    node "Return" (object [("keyword", keyword.json), ("value", optionExprJson value)])
  | .leave keyword => node "Break" keyword.json
  | .next keyword => node "Continue" keyword.json

/-- Statements as documents. -/
def stmtJsons : List Stmt → List String
  | [] => []
  | s :: rest => s.json :: stmtJsons rest

/-- A statement that may be missing, as a document. -/
def optionJson : Option Stmt → String
  | none => "null"
  | some s => s.json

/-- An expression that may be missing, as a document. -/
def optionExprJson : Option Expr → String
  | none => "null"
  | some e => e.json

end

end Lox
