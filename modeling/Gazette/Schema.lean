import Gazette.Schema.Definition
import Gazette.Schema.Introspection
import Gazette.Schema.Registration

/-!
# Schemas

A schema is a checked registry with the value that its roots are resolved on and a limit for the
depth of requests.  `Schema.ofRegistry` refuses registries that cannot be executed: with objects
that have no fields, or names that are reserved for introspection.
-/

namespace Gazette

/-- A registry that can be executed on a root value. -/
structure Schema (σ ν : Type) where
  registry : Registry σ ν
  root : ν
  depthLimit : Nat

namespace Schema

variable {σ ν : Type}

/-- The limit for the depth of requests, unless another one is given. -/
def defaultDepthLimit : Nat := 32

/-- Whether no reserved name is used for a field or for one of its arguments. -/
def hasFreeNames (f : FieldOutline) : Bool :=
  !Outline.isReserved f.name && f.arguments.all fun spec => !Outline.isReserved spec.name

/-- Whether a type can be executed: an object has fields, and no name of a field or an argument is
reserved. -/
def isExecutable (o : Outline) : Bool :=
  (o.kind ≠ .object || !o.fields.isEmpty) && o.fields.all hasFreeNames

/-- The schema of a registry, if it can be executed. -/
def ofRegistry (r : Registry σ ν) (root : ν) (depthLimit : Nat := defaultDepthLimit) :
    Except SchemaError (Schema σ ν) :=
  if (Outline.ofRegistry r).all isExecutable then .ok ⟨r, root, depthLimit⟩
  else .error .notExecutable

/-- The definition of a schema. -/
def definition (schema : Schema σ ν) : String := schema.registry.definition

/-- The types that requests are checked against and run on. -/
def executable (schema : Schema σ ν) : Registry σ (Subject ν) :=
  schema.registry.withIntrospection schema.root

end Schema

end Gazette
