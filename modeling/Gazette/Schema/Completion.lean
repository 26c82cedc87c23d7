import Gazette.Schema.Registry

/-!
# Completion

The result of a field is completed against the declared type of the field (`Registry.complete`):
null only where the type allows it, lists item by item, enum values as literals, and objects of the
type named.  The object type of a value of interface type is the one that the value itself names
(`Registry.concreteType`).
-/

namespace Gazette

/-- A completed result.  `tagged` is a value of interface type with the object type it has. -/
inductive Completed (ν : Type) where
  | null
  | leaf (value : Value)
  | node (value : ν)
  | tagged (object : String) (value : ν)
  | list (items : List (Completed ν))
  deriving Inhabited

namespace Registry

variable {σ ν : Type} [Node ν]

/-- The object type of a value of an interface: the one that the value names, if it implements the
interface. -/
def concreteType (r : Registry σ ν) (interface : String) (value : ν) :
    Except FieldError (ObjectType σ ν) :=
  match (Node.typeName value).bind r.object? with
  | some object => if object.isA interface then .ok object else .error (.resolutionError interface)
  | none => .error (.resolutionError interface)

/-- The tag of a value for messages. -/
def tagOf (value : ν) : String := (Node.typeName value).getD "root"

/-- The completed result against the type with a name. -/
def completeNamed (r : Registry σ ν) (typeName : String) (result : FieldValue ν) :
    Except FieldError (Completed ν) :=
  match r.find? typeName, result with
  | some (.scalar _), .leaf value => .ok (.leaf value)
  | some (.enum type), .leaf value =>
    match value.name? with
    | some name =>
      if type.contains name then .ok (.leaf (.enum name))
      else .error (.invalidEnumValue typeName name)
    | none => .error (.invalidEnumValue typeName value.text)
  | some (.object type), .node value =>
    if Node.typeName value = some type.name then .ok (.node value)
    else .error (.typeMismatch type.name (tagOf value))
  | some (.interface type), .node value =>
    match r.concreteType type.name value with
    | .ok object => .ok (.tagged object.name value)
    | .error e => .error e
  | _, result => .error (.typeMismatch typeName result.kind)

/-- Completes a result against a type; none for null. -/
def complete (r : Registry σ ν) : TypeRef → FieldValue ν → Except FieldError (Option (Completed ν))
  | .nonNull inner, result =>
    if result.isNull then .error (.nullValue (TypeRef.nonNull inner).text)
    else r.complete inner result
  | .list item, result =>
    if result.isNull then .ok none
    else
      match result with
      | .list items => do
        let items ← items.mapM fun i => do return (← r.complete item i).getD .null
        return some (.list items)
      | other => .error (.typeMismatch (TypeRef.list item).text other.kind)
  | .named typeName, result =>
    if result.isNull then .ok none else do return some (← r.completeNamed typeName result)

end Registry

end Gazette
