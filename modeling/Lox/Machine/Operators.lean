import Lox.Machine

/-!
# What operators compute

The operators of the language on values already computed, each with the errors it raises. None of
them touches the machine.

* Arithmetic and comparison take two numbers; a division by zero, of either sign, is an error.
* `+` also joins a string, on its left, to the text of any value.
* The comma drops its left operand.
-/

namespace Lox

/-- The outcome of an operator. -/
abbrev Computed := Except Stop Value

/-- An operand of the wrong type, reported at a token. -/
def wrongType {α : Type} (message : String) (t : Token) : Except Stop α :=
  .error (.error (.type message t.pos))

/-- An operator on two numbers. -/
def onNumbers (op : Token) (f : Float → Float → Computed) : Value → Value → Computed
  | .number a, .number b => f a b
  | _, _ => wrongType "Operands must be numbers." op

/-- A sum of numbers, or a string with the text of a value behind it. -/
def plus (op : Token) : Value → Value → Computed
  | .number a, .number b => .ok (.number (a + b))
  | .text a, b => .ok (.text (a ++ b.display))
  | _, _ => wrongType "Operands must be two numbers or strings." op

/-- A quotient of numbers. -/
def quotient (op : Token) (a b : Float) : Computed :=
  if b == 0 then .error (.error (.divisionByZero op.pos)) else .ok (.number (a / b))

/-- What a binary operator computes. -/
def binaryValue (op : Token) (a b : Value) : Computed :=
  match op.kind with
  | .comma => .ok b
  | .plus => plus op a b
  | .minus => onNumbers op (fun x y => .ok (.number (x - y))) a b
  | .star => onNumbers op (fun x y => .ok (.number (x * y))) a b
  | .slash => onNumbers op (quotient op) a b
  | .greater => onNumbers op (fun x y => .ok (.bool (y < x))) a b
  | .greaterEqual => onNumbers op (fun x y => .ok (.bool (y ≤ x))) a b
  | .less => onNumbers op (fun x y => .ok (.bool (x < y))) a b
  | .lessEqual => onNumbers op (fun x y => .ok (.bool (x ≤ y))) a b
  | .equalEqual => .ok (.bool (a.same b))
  | .bangEqual => .ok (.bool (!a.same b))
  | _ => .error (.fault (.unknownOperator op))

/-- What a sign before an operand computes. -/
def unaryValue (op : Token) (v : Value) : Computed :=
  match op.kind, v with
  | .minus, .number x => .ok (.number (-x))
  | .minus, _ => wrongType "Operands must be numbers." op
  | .bang, v => .ok (.bool (!v.isTruthy))
  | _, _ => .error (.fault (.unknownOperator op))

/-- Whether the left operand of `and` or `or` already decides. -/
def decides (op : Token) (v : Value) : Bool :=
  if op.kind = .kwOr then v.isTruthy else !v.isTruthy

end Lox
