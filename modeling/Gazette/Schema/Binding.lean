import Gazette.Schema.Registry

/-!
# Binding of arguments

`Registry.coerce` brings a value into the form that the type of an argument asks for, and
`Registry.bind` binds the arguments that a request gives to the declarations of a field.
-/

namespace Gazette.Registry

variable {σ ν : Type}

/-- The least integer of 32 bits. -/
def minInt32 : Int := -Int.pow 2 31

/-- The greatest integer of 32 bits. -/
def maxInt32 : Int := Int.pow 2 31 - 1

/-- The canonical form of a value of a built-in scalar type; no other scalar accepts values.
Integers are read as ids by their digits. -/
def coerceScalar? (typeName : String) (value : Value) : Option Value :=
  match value with
  | .string _ => if typeName = builtin.string ∨ typeName = builtin.id then some value else none
  | .boolean _ => if typeName = builtin.boolean then some value else none
  | .number n =>
    if typeName = builtin.float then some value
    else if typeName = builtin.id then
      match n with
      | .int _ => some (.string n.text)
      | .float _ => none
    else if typeName = builtin.int then
      match n.toInt64? with
      | some i => if minInt32 ≤ i ∧ i ≤ maxInt32 then some value else none
      | none => none
    else none
  | _ => none

/-- A value as a canonical one of the type with a name. -/
def coerceNamed (r : Registry σ ν) (typeName : String) (value : Value) :
    Except CoercionError Value :=
  match r.find? typeName with
  | some (.enum type) =>
    match value.name? with
    | some name =>
      if type.contains name then .ok (.enum name) else .error (.invalidEnumValue typeName name)
    | none => .error (.invalidEnumValue typeName value.text)
  | some (.scalar _) =>
    match coerceScalar? typeName value with
    | some coerced => .ok coerced
    | none => .error (.mismatch typeName value.text)
  | _ => .error (.mismatch typeName value.text)

/-- Coerces a value to a type.  Members of enums become enum literals, and a single value for a list
becomes a list. -/
def coerce (r : Registry σ ν) : TypeRef → Value → Except CoercionError Value
  | .nonNull inner, value =>
    if value.isNull then .error (.mismatch (TypeRef.nonNull inner).text value.text)
    else coerce r inner value
  | .list item, value =>
    match value with
    | .null => .ok .null
    | .list items => do return .list (← items.mapM (coerce r item))
    | single => do return .list [← coerce r item single]
  | .named typeName, value =>
    if value.isNull then .ok .null else coerceNamed r typeName value

/-- The error of a field for an argument that does not coerce. -/
def argumentError (field : String) (spec : ArgumentSpec) : CoercionError → FieldError
  | .invalidEnumValue typeName value => .invalidEnumValue typeName value
  | .mismatch expected found => .invalidArgument field spec.name expected found

/-- The value of one argument: the given one, else the default, else none unless it is required. -/
def argumentValue (r : Registry σ ν) (field : String) (raw : Entries Value)
    (spec : ArgumentSpec) : Except FieldError (Option Value) :=
  match (raw.lookup spec.name).or spec.default with
  | some value =>
    match r.coerce spec.type value with
    | .ok coerced => .ok (some coerced)
    | .error e => .error (argumentError field spec e)
  | none =>
    if spec.isRequired then .error (.missingArgument field spec.name) else .ok none

/-- Adds the arguments of declarations to a record, in order.  A given value serves one declaration
only, should two have one name. -/
def bindFrom (r : Registry σ ν) (raw : Entries Value) (bound : BoundArguments) :
    List ArgumentSpec → Except FieldError BoundArguments
  | [] => .ok bound
  | spec :: rest =>
    match r.argumentValue bound.field raw spec with
    | .ok (some value) => bindFrom r (raw.erase spec.name) (bound.insert spec.name value) rest
    | .ok none => bindFrom r (raw.erase spec.name) bound rest
    | .error e => .error e

/-- Binds given arguments to the declarations of a field.  The first argument that is not declared
is an error, and then the first declaration that is missing or does not coerce. -/
def bind (r : Registry σ ν) (field : String) (specs : List ArgumentSpec) (raw : Entries Value) :
    Except FieldError BoundArguments :=
  match raw.names.find? fun name => !(specs.map ArgumentSpec.name).contains name with
  | some name => .error (.unknownArgument field name)
  | none => bindFrom r raw (.empty field) specs

end Gazette.Registry
