import Gazette.Schema.Error

/-!
# Bound arguments

The arguments of a field once they are coerced and defaults are applied (`BoundArguments`), and the
ways in which a resolver reads them.  An argument that was left out and has no default is absent;
one that is null is present.
-/

namespace Gazette

/-- The names of the scalar types that every registry has. -/
structure Builtin where
  string : String
  int : String
  float : String
  boolean : String
  id : String

/-- The names of the built-in scalar types. -/
def builtin : Builtin := ⟨"String", "Int", "Float", "Boolean", "ID"⟩

/-- The values of the arguments of a field, with its name. -/
structure BoundArguments where
  field : String
  values : Entries Value

namespace BoundArguments

/-- No values. -/
def empty (field : String) : BoundArguments := ⟨field, []⟩

/-- The values with another one. -/
def insert (b : BoundArguments) (name : String) (value : Value) : BoundArguments :=
  { b with values := Entries.put name value b.values }

/-- The value of an argument. -/
def get? (b : BoundArguments) (name : String) : Option Value := b.values.lookup name

/-- Whether an argument is present, even as null. -/
def contains (b : BoundArguments) (name : String) : Bool := (b.get? name).isSome

/-- The string that an argument is; none if it is absent or anything else. -/
def optionalString (b : BoundArguments) (name : String) : Option String :=
  match b.get? name with
  | some (.string s) => some s
  | _ => none

/-- The text of an argument; an error if it has none. -/
def string (b : BoundArguments) (name : String) : Except FieldError String :=
  match b.optionalString name with
  | some s => .ok s
  | none => .error (.missingArgument b.field name)

/-- The integer of an argument; an error if it has none. -/
def int (b : BoundArguments) (name : String) : Except FieldError Int :=
  match b.get? name with
  | some (.number n) =>
    match n.toInt64? with
    | some i => .ok i
    | none => .error (.invalidArgument b.field name builtin.int n.text)
  | _ => .error (.missingArgument b.field name)

/-- The name of a member of an enum, be it a literal or a text. -/
def enumName (b : BoundArguments) (name : String) : Option String :=
  (b.get? name).bind Value.name?

end BoundArguments

end Gazette
