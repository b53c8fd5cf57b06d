import Lox.Bindings
import Lox.Decimal.Layout
import Lox.Scope.Resolve
import Lox.Syntax

/-!
# Values

What a program computes with. Functions and classes never change once they are made, so a value
holds them whole; what tells two of them apart is the identity each is given when it is made. The
fields of an instance do change, so a value holds only the object's address and its class.

* `Closure`: a function and the environment it was made in; an environment is the chain of the
  addresses of its frames, innermost first;
* `Class`: its own methods and its superclass, a finite chain, along which `Class.method?` looks;
* `Value.same`: the equality of the language, without conversions, by identity where there is one;
* `Value.display`: the text of a value.
-/

namespace Lox

/-- The address of a frame. -/
abbrev FrameId := Nat

/-- The frames a place can see, the innermost first. -/
abbrev Env := List FrameId

/-- The address of an instance's fields. -/
abbrev ObjectId := Nat

/-- What tells one function or class from all others. -/
abbrev Identity := Nat

/-- The functions that are there from the start. -/
inductive Native where
  | clock | print | read | tonumber | tostring | type | sleep
deriving DecidableEq, Repr

namespace Native

/-- The functions that are there from the start, in order. -/
def all : List Native := [.clock, .print, .read, .tonumber, .tostring, .type, .sleep]

/-- The name a program calls a native function by. -/
def name : Native → String
  | clock => "clock"
  | print => "print"
  | read => "read"
  | tonumber => "tonumber"
  | tostring => "tostring"
  | type => "type"
  | sleep => "sleep"

/-- How many arguments a native function takes. -/
def arity : Native → Nat
  | clock | read => 0
  | print | tonumber | tostring | type | sleep => 1

end Native

/-- A function and the environment it was made in. -/
structure Closure where
  name : Option String
  code : Code
  env : Env
  isInitializer : Bool

/-- A class: its name, its superclass and its own methods. -/
inductive Class where
  | mk (id : Identity) (name : String) (superclass : Option Class) (methods : Bindings Closure)

namespace Class

/-- What tells a class from all others. -/
def id : Class → Identity
  | mk id _ _ _ => id

/-- The name of a class. -/
def name : Class → String
  | mk _ name _ _ => name

/-- The superclass of a class. -/
def superclass : Class → Option Class
  | mk _ _ superclass _ => superclass

/-- The methods a class declares itself. -/
def methods : Class → Bindings Closure
  | mk _ _ _ methods => methods

/-- The method of a name that the nearest class of the chain declares. -/
def method? : Class → String → Option Closure
  | mk _ _ none methods, n => methods.find? n
  | mk _ _ (some c) methods, n => (methods.find? n).orElse fun _ => c.method? n

/-- How many arguments a class takes: as many as its initializer, or none. -/
def arity (c : Class) : Nat := ((c.method? initializerName).map fun m => m.code.arity).getD 0

end Class

/-- A value. -/
inductive Value where
  | nil
  | bool (b : Bool)
  | number (x : Float)
  | text (s : String)
  | native (f : Native)
  | function (id : Identity) (f : Closure)
  | ofClass (c : Class)
  | object (id : ObjectId) (c : Class)

namespace Value

/-- The value a literal spells. -/
def ofLiteral : Literal → Value
  | .number x => .number x
  | .text s => .text s
  | .bool b => .bool b
  | .nil => .nil

/-- Only `nil` and `false` count as false. -/
def isTruthy : Value → Bool
  | .nil | .bool false => false
  | _ => true

/-- The name of a value's type. -/
def typeName : Value → String
  | .nil => "nil"
  | .bool _ => "bool"
  | .number _ => "number"
  | .text _ => "string"
  | .native _ | .function _ _ => "function"
  | .ofClass _ => "class"
  | .object _ _ => "instance"

/-- Whether two values are equal in the language. A number that is none differs from itself. -/
def same : Value → Value → Bool
  | .nil, .nil => true
  | .bool a, .bool b => a == b
  | .number a, .number b => a == b
  | .text a, .text b => a == b
  | .native a, .native b => a == b
  | .function a _, .function b _ => a == b
  | .ofClass a, .ofClass b => a.id == b.id
  | .object a _, .object b _ => a == b
  | _, _ => false

/-- The text of a value. An integer is written exactly, and without a point. -/
def display : Value → String
  | .nil => "nil"
  | .bool true => "true"
  | .bool false => "false"
  | .number x => String.ofList (Decimal.text [] (Decimal.parts x))
  | .text s => s
  | .native f => "<native fn " ++ f.name ++ ">"
  | .function _ f =>
    match f.name with
    | some name => "<fun " ++ name ++ ">"
    | none => "<fun>"
  | .ofClass c => "<class " ++ c.name ++ ">"
  | .object _ c => "<" ++ c.name ++ " instance>"

/-- How many arguments a value takes, if it can be called. -/
def arity? : Value → Option Nat
  | .native f => some f.arity
  | .function _ f => some f.code.arity
  | .ofClass c => some c.arity
  | _ => none

end Value

end Lox
