import Gazette.Schema.BoundArguments
import Gazette.Schema.FieldValue
import Gazette.TypeRef

/-!
# Registries

The named types of a schema: scalars, enums, interfaces, and objects whose fields have resolvers.
A resolver runs on a value of type `ν` and may read and change a state of type `σ`.  The file holds
the declarations, the registry that collects them (`Registry`) and the look-ups by name.
-/

namespace Gazette

/-- An argument as it is declared. -/
structure ArgumentSpec where
  name : String
  type : TypeRef
  description : Option String := none
  default : Option Value := none

namespace ArgumentSpec

/-- Whether null is no value of an argument, so that it must be given unless it has a default. -/
def isRequired (spec : ArgumentSpec) : Bool := spec.type.isNonNull

end ArgumentSpec

/-- A computation of a field: on a value, with arguments, in a state that it may change even when it
fails. -/
abbrev Resolver (σ ν : Type) :=
  ν → BoundArguments → σ → Except FieldError (FieldValue ν) × σ

/-- How a field stands in a response. -/
inductive FieldRole where
  /-- A position, with a place in the text for the failure of the field. -/
  | ordinary
  /-- A way from a value to the schema.  It is no position, so that what is below it belongs to the
  position around it. -/
  | gateway
  /-- A field of a part of the schema: a position that begins before its arguments are evaluated. -/
  | introspective
  deriving DecidableEq, Repr

/-- A field of an object type.  Without a resolver it reads the attribute of its name. -/
structure Field (σ ν : Type) where
  name : String
  type : TypeRef
  description : Option String := none
  arguments : List ArgumentSpec := []
  resolver : Option (Resolver σ ν) := none
  role : FieldRole := .ordinary

/-- A field of an interface: only the objects that implement it resolve it. -/
structure InterfaceField where
  name : String
  type : TypeRef
  description : Option String := none

/-- A scalar type. -/
structure ScalarType where
  name : String
  description : Option String := none

/-- An enum type with the names of its values, and the descriptions of those that have one. -/
structure EnumType where
  name : String
  description : Option String := none
  values : List String := []
  valueDescriptions : Entries String := []

/-- Whether an enum has a value. -/
def EnumType.contains (e : EnumType) (name : String) : Bool := e.values.contains name

/-- An object type: its fields, and the names of the interfaces it implements. -/
structure ObjectType (σ ν : Type) where
  name : String
  description : Option String := none
  implements : List String := []
  fields : List (Field σ ν) := []

namespace ObjectType

variable {σ ν : Type}

/-- The field of an object with a name. -/
def field? (o : ObjectType σ ν) (name : String) : Option (Field σ ν) :=
  o.fields.find? fun f => f.name = name

/-- Whether an object says that it implements an interface. -/
def isA (o : ObjectType σ ν) (interface : String) : Bool := o.implements.contains interface

end ObjectType

/-- An interface type. -/
structure InterfaceType where
  name : String
  description : Option String := none
  fields : List InterfaceField := []

/-- The field of an interface with a name. -/
def InterfaceType.field? (i : InterfaceType) (name : String) : Option InterfaceField :=
  i.fields.find? fun f => f.name = name

/-- A type that a registry may hold. -/
inductive NamedType (σ ν : Type) where
  | scalar (type : ScalarType)
  | enum (type : EnumType)
  | object (type : ObjectType σ ν)
  | interface (type : InterfaceType)

namespace NamedType

variable {σ ν : Type}

/-- The name of a type. -/
def name : NamedType σ ν → String
  | scalar type => type.name
  | enum type => type.name
  | object type => type.name
  | interface type => type.name

/-- The description of a type. -/
def description : NamedType σ ν → Option String
  | scalar type => type.description
  | enum type => type.description
  | object type => type.description
  | interface type => type.description

/-- Whether values of a type may be passed as arguments. -/
def isInput : NamedType σ ν → Bool
  | scalar _ | enum _ => true
  | object _ | interface _ => false

end NamedType

/-- The types of a schema in the order of their registration, and the names of its roots. -/
structure Registry (σ ν : Type) where
  types : List (NamedType σ ν)
  query : String
  mutation : Option String

namespace Registry

variable {σ ν : Type}

/-- The scalars that every registry has. -/
def builtinScalars : List ScalarType :=
  [⟨builtin.string, some "A UTF-8 character sequence."⟩,
    ⟨builtin.int, some "A signed 32-bit integer."⟩,
    ⟨builtin.float, some "A signed double-precision floating-point value."⟩,
    ⟨builtin.boolean, some "`true` or `false`."⟩,
    ⟨builtin.id, some "A unique identifier, serialized as a string."⟩]

/-- Whether a name is that of a built-in scalar. -/
def isBuiltin (name : String) : Bool := (builtinScalars.map ScalarType.name).contains name

/-- The registry of the built-in scalar types, for the query root `query`. -/
def empty (query : String) : Registry σ ν := ⟨builtinScalars.map .scalar, query, none⟩

/-- A registry with the given name as its mutation root. -/
def withMutation (r : Registry σ ν) (mutation : String) : Registry σ ν :=
  { r with mutation := some mutation }

/-- The type with a name. -/
def find? (r : Registry σ ν) (name : String) : Option (NamedType σ ν) :=
  r.types.find? fun t => t.name = name

/-- The object type with a name. -/
def object? (r : Registry σ ν) (name : String) : Option (ObjectType σ ν) :=
  match r.find? name with
  | some (.object type) => some type
  | _ => none

/-- What is declared for a field, by the names of its object and its own. -/
def field? (r : Registry σ ν) (object name : String) : Option (Field σ ν) :=
  (r.object? object).bind fun o => o.field? name

/-- The interface type with a name. -/
def interface? (r : Registry σ ν) (name : String) : Option InterfaceType :=
  match r.find? name with
  | some (.interface type) => some type
  | _ => none

/-- The enum type with a name. -/
def enum? (r : Registry σ ν) (name : String) : Option EnumType :=
  match r.find? name with
  | some (.enum type) => some type
  | _ => none

/-- The object type at the root of queries. -/
def queryRoot? (r : Registry σ ν) : Option (ObjectType σ ν) := r.object? r.query

/-- The object type at the root of mutations. -/
def mutationRoot? (r : Registry σ ν) : Option (ObjectType σ ν) := r.mutation.bind r.object?

end Registry

end Gazette
