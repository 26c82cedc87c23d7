import Gazette.Proofs.Schema.Visible

/-!
# Declarations as introspection shows them

A declared type as a value (`NamedType.shown`): its kind, name and description, its fields with
their arguments, and the names of its interfaces, objects and values.  Of the interfaces and objects
only those are shown that can be seen; these are all if the roots lead to the type
(`shown_of_leadsTo`).
-/

namespace Gazette

variable {σ ν : Type}

/-- What introspection shows of a type that is named only. -/
def Value.named (name : String) : Value := .object [("name", .string name)]

namespace TypeRef

/-- A reference with all its wrappers, each around what it wraps. -/
def shown (kindOf : String → TypeKind) : TypeRef → Value
  | named name =>
    .object [("kind", .enum (kindOf name).name), ("name", .string name), ("ofType", .null)]
  | nonNull inner =>
    .object [("kind", .enum TypeKind.nonNull.name), ("name", .null),
      ("ofType", inner.shown kindOf)]
  | list item =>
    .object [("kind", .enum TypeKind.list.name), ("name", .null), ("ofType", item.shown kindOf)]

/-- How many lists and non-null types are around the name in a type. -/
def wrappers : TypeRef → Nat
  | named _ => 0
  | nonNull inner => inner.wrappers + 1
  | list item => item.wrappers + 1

end TypeRef

namespace ArgumentSpec

/-- The text of the default of an argument, if there is one. -/
def defaultText? (spec : ArgumentSpec) : Option String := spec.default.map Value.text

/-- What introspection shows of an argument. -/
def shown (kindOf : String → TypeKind) (spec : ArgumentSpec) : Value :=
  .object [("name", .string spec.name), ("description", .ofString? spec.description),
    ("type", spec.type.shown kindOf), ("defaultValue", .ofString? spec.defaultText?)]

/-- The schema's definition gives the same text for a default. -/
theorem definition_eq (spec : ArgumentSpec) : spec.definition =
    spec.name ++ ": " ++ spec.type.text ++ spec.defaultText?.elim "" (" = " ++ ·) := by
  rw [definition, defaultText?]
  cases spec.default <;> rfl

end ArgumentSpec

/-- What introspection shows of a field. -/
def FieldOutline.shown (kindOf : String → TypeKind) (f : FieldOutline) : Value :=
  .object [("name", .string f.name), ("description", .ofString? f.description),
    ("args", .list (f.arguments.map (ArgumentSpec.shown kindOf))), ("type", f.type.shown kindOf)]

namespace NamedType

/-- The kind of a type. -/
def kind : NamedType σ ν → TypeKind
  | scalar _ => .scalar
  | enum _ => .enum
  | object _ => .object
  | interface _ => .interface

end NamedType

namespace Registry

/-- The kind of the type with a name. -/
def kindOf (r : Registry σ ν) (name : String) : TypeKind :=
  (r.find? name).elim .scalar NamedType.kind

end Registry

namespace NamedType

/-- What introspection shows as the fields of a type, or null. -/
def shownFields (kindOf : String → TypeKind) : NamedType σ ν → Value
  | object o => .list (o.fields.map fun f => f.outline.shown kindOf)
  | interface i => .list (i.fields.map fun f => f.outline.shown kindOf)
  | _ => .null

/-- What it shows as the interfaces: those that can be seen, each of them once. -/
def shownInterfaces (sees : String → Bool) : NamedType σ ν → Value
  | object o => .list ((o.implements.filter sees).eraseDups.map .named)
  | _ => .null

/-- What it shows as the objects of an interface: those that can be seen. -/
def shownObjects (r : Registry σ ν) (sees : String → Bool) : NamedType σ ν → Value
  | interface i => .list ((((r.objectsOf i.name).map ObjectType.name).filter sees).map .named)
  | _ => .null

/-- What it shows as the values of an enum. -/
def shownValues : NamedType σ ν → Value
  | enum e => .list (e.values.map .named)
  | _ => .null

/-- A declared type, with those of its interfaces or objects that are seen. -/
def shown (r : Registry σ ν) (sees : String → Bool) (t : NamedType σ ν) : Value :=
  .object [("kind", .enum t.kind.name), ("name", .string t.name),
    ("description", .ofString? t.description), ("fields", t.shownFields r.kindOf),
    ("interfaces", t.shownInterfaces sees), ("possibleTypes", t.shownObjects r sees),
    ("enumValues", t.shownValues)]

end NamedType

namespace Registry

variable {r : Registry σ ν} {t : NamedType σ ν}

/-! ## Objects of an interface -/

/-- The objects of an interface stand in the order of the registry. -/
theorem objectsOf_sublist (r : Registry σ ν) (interface : String) :
    ((r.objectsOf interface).map NamedType.object).Sublist r.types := by
  rw [objectsOf, List.map_filterMap]
  induction r.types with
  | nil => exact .slnil
  | cons t ts ih =>
    cases t with
    | object o =>
      by_cases hisA : o.isA interface
      · simpa [hisA] using ih
      · simpa [hisA] using ih.cons _
    | _ => exact ih.cons _

theorem names_objectsOf_sublist (r : Registry σ ν) (interface : String) :
    ((r.objectsOf interface).map ObjectType.name).Sublist r.names := by
  have hsublist := (objectsOf_sublist r interface).map NamedType.name
  rw [List.map_map] at hsublist
  exact hsublist

/-- The objects of an interface are those that its values can have, by the names of these. -/
theorem concreteType_eq_ok_iff_mem [Node ν] (h : r.IsRegular) {interface : String} {v : ν}
    {o : ObjectType σ ν} : r.concreteType interface v = .ok o ↔
      o ∈ r.objectsOf interface ∧ Node.typeName v = some o.name := by
  rw [concreteType_eq_ok_iff, mem_objectsOf]
  constructor
  · rintro ⟨hname, ho, hisA⟩
    exact ⟨⟨(mem_of_object? ho).1, hisA⟩, hname⟩
  · rintro ⟨⟨ho, hisA⟩, hname⟩
    exact ⟨hname, object?_eq_some_iff.2 (h.find?_of_mem ho), hisA⟩

/-! ## Declarations in full -/

theorem shown_of_forall {sees : String → Bool}
    (hinterfaces : ∀ o, t = .object o → ∀ name ∈ o.implements, sees name)
    (hobjects : ∀ i, t = .interface i → ∀ o ∈ r.objectsOf i.name, sees o.name) :
    t.shown r sees = t.shown r fun _ => true := by
  cases t with
  | object o =>
    have hself : o.implements.filter sees = o.implements.filter fun _ => true := by
      rw [List.filter_eq_self.2 (hinterfaces o rfl), List.filter_true]
    simp only [NamedType.shown, NamedType.shownInterfaces, hself]
    rfl
  | interface i =>
    have hself : ((r.objectsOf i.name).map ObjectType.name).filter sees =
        ((r.objectsOf i.name).map ObjectType.name).filter fun _ => true := by
      rw [List.filter_eq_self.2 (List.forall_mem_map.2 (hobjects i rfl)), List.filter_true]
    simp only [NamedType.shown, NamedType.shownObjects, hself]
    rfl
  | _ => rfl

/-- A type that the roots lead to is shown with all its interfaces and objects. -/
theorem shown_of_leadsTo (h : r.IsFinished) (ht : t ∈ r.types) (hleads : r.LeadsTo t.name) :
    t.shown r r.sees = t.shown r fun _ => true := by
  refine shown_of_forall ?_ ?_
  · rintro o rfl name hname
    exact sees_interface_of_leadsTo h ht hleads hname
  · rintro i rfl o ho
    obtain ⟨ho, hisA⟩ := mem_objectsOf.1 ho
    exact sees_of_leadsTo h ho (hleads.step (.implementor ht ho hisA))

/-- An interface that can be seen is shown with all its objects, unless it is seen by its name
only. -/
theorem shown_of_sees (h : r.IsFinished) {i : InterfaceType} (hi : .interface i ∈ r.types)
    (hsees : r.sees i.name) (hbuiltin : isBuiltin i.name = false)
    (hreserved : Outline.isReserved i.name = false) :
    (NamedType.interface i).shown r r.sees = (NamedType.interface i).shown r fun _ => true := by
  have hother := ((sees_iff h hi).1 hsees).resolve_left (Bool.eq_false_iff.1 hbuiltin)
  have hnoticed := hother.resolve_left (Bool.eq_false_iff.1 hreserved)
  refine shown_of_forall ?_ ?_
  · rintro o ⟨⟩
  · rintro _ ⟨⟩ o ho
    obtain ⟨ho, hisA⟩ := mem_objectsOf.1 ho
    exact sees_implementor h hi hnoticed ho hisA

end Registry

end Gazette
