import Gazette.Value

/-!
# Results of fields

What a field gives before it is completed against its declared type (`FieldValue`), and what the
values are that objects are resolved on (`Node`).
-/

namespace Gazette

/-- A kind of values that the fields of objects are resolved on.  `typeName` is the object type of a
value, if it has one, and `part` reads a value's parts by name. -/
class Node (ν : Type) where
  typeName : ν → Option String
  part : ν → String → Option Value

/-- The result of a field, before it is completed against the type of the field. -/
inductive FieldValue (ν : Type) where
  | null
  | leaf (value : Value)
  | node (value : ν)
  | list (items : List (FieldValue ν))
  deriving Inhabited

namespace FieldValue

variable {ν : Type}

/-- A text as a result. -/
def string (s : String) : FieldValue ν := leaf (.string s)

/-- A double as a result; null if it is not finite. -/
def float (x : Double) : FieldValue ν := if x.isFinite then leaf (.number (.float x)) else null

/-- A value of an object, or null. -/
def optionalNode : Option ν → FieldValue ν
  | some value => node value
  | none => null

/-- A list of values of objects. -/
def nodes (values : List ν) : FieldValue ν := list (values.map node)

/-- Whether a result is null, also as a leaf. -/
def isNull : FieldValue ν → Bool
  | null => true
  | leaf value => value.isNull
  | _ => false

/-- What kind of result it is, for messages. -/
def kind : FieldValue ν → String
  | null => "null"
  | leaf _ => "leaf value"
  | node _ => "object"
  | list _ => "list"

mutual

/-- A result with its values of objects mapped. -/
def map {μ : Type} (f : ν → μ) : FieldValue ν → FieldValue μ
  | null => null
  | leaf value => leaf value
  | node value => node (f value)
  | list items => list (mapItems f items)

/-- The items of a list with their values mapped. -/
def mapItems {μ : Type} (f : ν → μ) : List (FieldValue ν) → List (FieldValue μ)
  | [] => []
  | v :: rest => v.map f :: mapItems f rest

end

theorem map_list {μ : Type} (f : ν → μ) (items : List (FieldValue ν)) :
    (list items).map f = list (items.map (map f)) := by
  have hitems : mapItems f items = items.map (map f) := by
    induction items with
    | nil => rfl
    | cons v rest ih => rw [mapItems, ih, List.map_cons]
  rw [map, hitems]

end FieldValue

end Gazette
