import Lox.Decimal.Layout
import Lox.Text.Quoted
import Lox.Token

/-!
# Tokens in a listing

A listing of tokens shows each as its kind, its lexeme and its payload (`Token.line`), or as an
object of a JSON document (`Token.json`).

A number in a listing is written as an integer and `.0` while it is one and below `2 ^ 63`, and
plainly otherwise, so a larger one shows its shortest digits padded with zeros.
-/

namespace Lox

/-- A number in a listing of tokens. -/
def Token.numberText (x : Float) : String :=
  let p := Decimal.parts x
  match p, p.integral? with
  | .finite negative _ _, some n =>
    if n < Nat.pow 2 63 then
      String.ofList (Decimal.signed (negative && n != 0) (Decimal.digits n ++ ['.', '0']))
    else
      String.ofList (Decimal.plain p)
  | p, _ => String.ofList (Decimal.plain p)

/-- The payload of a kind in a listing. -/
def Token.Kind.payload : Token.Kind → String
  | .string text => text
  | .number x => Token.numberText x
  | _ => "null"

/-- A token as a line of a listing. -/
def Token.line (t : Token) : String :=
  t.kind.name ++ " " ++ t.lexeme ++ " " ++ t.kind.payload

/-- A kind in a JSON document: its name, with its payload if it has one. -/
def Token.Kind.json (k : Token.Kind) : String :=
  match k with
  | .string text =>
    "\x7b" ++ Text.quoted k.name ++ ":" ++ Text.quoted text ++ "\x7d"
  | .number x =>
    "\x7b" ++ Text.quoted k.name ++ ":"
      ++ String.ofList (Decimal.document (Decimal.parts x)) ++ "\x7d"
  | k => Text.quoted k.name

/-- A token as an object of a JSON document. -/
def Token.json (t : Token) : String :=
  "\x7b\"token_type\":" ++ t.kind.json ++ ",\"lexeme\":" ++ Text.quoted t.lexeme
    ++ ",\"line\":" ++ toString t.pos.line ++ ",\"column\":" ++ toString t.pos.column ++ "\x7d"

end Lox
