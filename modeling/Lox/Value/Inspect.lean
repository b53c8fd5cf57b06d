import Lox.Store
import Lox.Text.Quoted

/-!
# Values inspected

What is inside a value that can be called and inside an instance, as a record: its form and its
fields with their names. Methods and fields of the language are listed by name, sorted.
-/

namespace Lox

/-- A record of a form with named fields. -/
def record (form : String) (fields : List (String × String)) : String :=
  form ++ " \x7b " ++ ", ".intercalate (fields.map fun f => f.1 ++ ": " ++ f.2) ++ " \x7d"

/-- A name that may be missing, in a record. -/
def optionalName : Option String → String
  | some name => "Some(" ++ Text.shown name ++ ")"
  | none => "None"

/-- Names in a record, sorted. -/
def nameList (names : List String) : String :=
  "[" ++ ", ".intercalate ((Text.sorted names).map Text.shown) ++ "]"

/-- A native function as a record. -/
def Native.record (f : Native) : String :=
  Lox.record "NativeFunction" [("name", Text.shown f.name), ("arity", toString f.arity)]

/-- A function as a record. -/
def Closure.record (f : Closure) : String :=
  Lox.record "LoxFunction"
    [("name", optionalName f.name), ("arity", toString f.code.arity),
     ("is_initializer", toString f.isInitializer)]

/-- A class as a record, with the methods it declares itself. -/
def Class.record (c : Class) : String :=
  Lox.record "LoxClass"
    [("name", Text.shown c.name), ("superclass", optionalName (c.superclass.map Class.name)),
     ("methods", nameList c.methods.names)]

/-- An instance as a record, with the names of its fields. -/
def instanceRecord (s : Store) (o : ObjectId) (c : Class) : String :=
  Lox.record "LoxInstance"
    [("class", Text.shown c.name), ("fields", nameList (s.fields o).names)]

/-- What is inside a value, if it is a record. -/
def Value.inspect? (s : Store) : Value → Option String
  | .native f => some f.record
  | .function _ f => some f.record
  | .ofClass c => some c.record
  | .object o c => some (instanceRecord s o c)
  | .nil | .bool _ | .number _ | .text _ => none

end Lox
