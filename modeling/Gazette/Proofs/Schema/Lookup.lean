import Gazette.Proofs.Lists
import Gazette.Schema.Outline

/-!
# Looking up types

What it means that a registry finds a type, an object or an outline under a name, and which objects
the values of a type can be (`Registry.Possible`).
-/

namespace Gazette

variable {σ ν : Type}

theorem ObjectType.name_of_field? {o : ObjectType σ ν} {name : String} {f : Field σ ν}
    (h : o.field? name = some f) : f.name = name :=
  key_of_find? h

namespace Registry

theorem name_of_find? {r : Registry σ ν} {name : String} {t : NamedType σ ν}
    (h : r.find? name = some t) : t ∈ r.types ∧ t.name = name :=
  ⟨List.mem_of_find?_eq_some h, key_of_find? h⟩

/-- Types of different names are found under their names. -/
theorem find?_of_mem {r : Registry σ ν} (h : (r.types.map NamedType.name).Nodup) {t : NamedType σ ν}
    (ht : t ∈ r.types) : r.find? t.name = some t :=
  (find?_eq_some_iff_of_nodup h).2 ⟨ht, rfl⟩

theorem object?_eq_some_iff {r : Registry σ ν} {name : String} {o : ObjectType σ ν} :
    r.object? name = some o ↔ r.find? name = some (.object o) := by
  unfold object?
  split
  · rename_i o' ho
    simp [ho]
  · rename_i hne
    exact ⟨nofun, fun h => absurd h (hne o)⟩

theorem mem_of_object? {r : Registry σ ν} {name : String} {o : ObjectType σ ν}
    (h : r.object? name = some o) : .object o ∈ r.types ∧ o.name = name :=
  name_of_find? (object?_eq_some_iff.1 h)

/-- The fields of an object that is found are found by their names. -/
theorem field?_of_object {r : Registry σ ν} {o : ObjectType σ ν} (ho : r.object? o.name = some o)
    {name : String} {f : Field σ ν} (hf : o.field? name = some f) :
    r.field? o.name f.name = some f := by
  rw [field?, ho, Option.bind_some, ObjectType.name_of_field? hf, hf]

/-- The objects that values of the type with a name can be: the object itself, or those of an
interface. -/
inductive Possible (r : Registry σ ν) (name : String) (o : ObjectType σ ν) : Prop
  | object (h : r.find? name = some (.object o))
  | interface (i : InterfaceType) (h : r.find? name = some (.interface i))
      (ho : r.object? o.name = some o) (hi : o.isA i.name)

theorem Possible.object?_eq {r : Registry σ ν} {name : String} {o : ObjectType σ ν}
    (h : r.Possible name o) : r.object? o.name = some o := by
  cases h with
  | object h =>
    have hname : o.name = name := (name_of_find? h).2
    rw [hname, object?_eq_some_iff, h]
  | interface i h ho hi => exact ho

/-- The values of an object type can be of that object only. -/
theorem Possible.eq_of_object {r : Registry σ ν} {name : String} {o o' : ObjectType σ ν}
    (h : r.Possible name o) (hfind : r.find? name = some (.object o')) : o = o' := by
  cases h with
  | object h => exact NamedType.object.inj (Option.some.inj (h.symm.trans hfind))
  | interface i h ho hi => cases h.symm.trans hfind

end Registry

namespace Outline

theorem name_ofType (t : NamedType σ ν) : (ofType t).name = t.name := by cases t <;> rfl

theorem find?_ofRegistry (r : Registry σ ν) (name : String) :
    find? (ofRegistry r) name = (r.find? name).map ofType := by
  simp only [find?, ofRegistry, Registry.find?, List.find?_map, Function.comp_def, name_ofType]

end Outline

end Gazette
