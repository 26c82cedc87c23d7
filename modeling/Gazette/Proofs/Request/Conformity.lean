import Gazette.Proofs.Request.Selection
import Gazette.Proofs.Schema.Lookup
import Mathlib.Data.List.Flatten

/-!
# Data that conforms to types

Data conforms to a type and selections if it has the declared type at every selected position
(`Conforms`): null only where the type allows it, a list where a list is declared, a value of the
scalar or the enum, and an object with a member for each key of the selected fields.
-/

namespace Gazette

variable {σ ν : Type}

/-! ## Fields under one key -/

/-- The selections inside all fields under a key, in order. -/
def FieldPlan.collect (fields : List FieldPlan) (key : String) : List Plan :=
  (fields.filter fun f => f.key = key).flatMap FieldPlan.plans

namespace FieldPlan

theorem collect_append (fields further : List FieldPlan) (key : String) :
    collect (fields ++ further) key = collect fields key ++ collect further key := by
  rw [collect, List.filter_append, List.flatMap_append]
  rfl

theorem collect_eq_nil {fields : List FieldPlan} {key : String} (h : ∀ f ∈ fields, f.key ≠ key) :
    collect fields key = [] := by
  rw [collect, List.filter_eq_nil_iff.2 (by simpa using h), List.flatMap_nil]

theorem collect_singleton (f : FieldPlan) : collect [f] f.key = f.plans := by
  simp [collect]

/-- Under a key of its own a field is alone. -/
theorem collect_of_nodup {fields : List FieldPlan} (h : (fields.map key).Nodup) {f : FieldPlan}
    (hf : f ∈ fields) : collect fields f.key = f.plans := by
  induction fields with
  | nil => cases hf
  | cons g rest ih =>
    obtain ⟨hg, hrest⟩ := List.nodup_cons.1 h
    have happend : collect (g :: rest) f.key = collect [g] f.key ++ collect rest f.key :=
      collect_append [g] rest f.key
    rw [happend]
    rcases List.mem_cons.1 hf with rfl | hf
    · have hne : ∀ g ∈ rest, g.key ≠ f.key := fun g hmem heq => hg (heq ▸ List.mem_map_of_mem hmem)
      rw [collect_singleton, collect_eq_nil hne, List.append_nil]
    · have hne : ∀ g' ∈ [g], g'.key ≠ f.key := by
        intro g' hg' heq
        rw [List.mem_singleton.1 hg'] at heq
        exact hg (heq ▸ List.mem_map_of_mem hf)
      rw [collect_eq_nil hne, List.nil_append, ih hrest hf]

theorem collect_sublist {fields all : List FieldPlan} (h : fields.Sublist all) (key : String) :
    (collect fields key).Sublist (collect all key) :=
  (h.filter _).flatMap _

end FieldPlan

theorem Plan.fieldsOn_eq_flatMap (o : ObjectType σ ν) (plans : List Plan) :
    fieldsOn o plans = plans.flatMap (fieldsOneOn o) := by
  induction plans with
  | nil => rw [fieldsOn, List.flatMap_nil]
  | cons p rest ih => rw [fieldsOn, List.flatMap_cons, ih]

theorem Plan.fieldsOn_sublist {plans all : List Plan} (h : plans.Sublist all)
    (o : ObjectType σ ν) : (fieldsOn o plans).Sublist (fieldsOn o all) := by
  rw [fieldsOn_eq_flatMap, fieldsOn_eq_flatMap]
  exact h.flatMap _

namespace Registry

/-- Whether a value is one of the scalar or the enum with a name, and not null. -/
def HasLeaf (r : Registry σ ν) (name : String) (value : Value) : Prop :=
  value.isNull = false ∧
    match r.find? name with
    | some (.scalar _) => Validation.scalarHas name value
    | some (.enum e) => ∃ member, value = .enum member ∧ e.contains member
    | _ => False

/-- Whether data is of a type and shows what the selections inside it select. -/
inductive Conforms (r : Registry σ ν) : TypeRef → List Plan → Value → Prop
  | nonNull {type : TypeRef} {plans : List Plan} {value : Value} (hnull : value.isNull = false)
    (h : Conforms r type plans value) : Conforms r (.nonNull type) plans value
  | nullName {name : String} {plans : List Plan} : Conforms r (.named name) plans .null
  | nullList {item : TypeRef} {plans : List Plan} : Conforms r (.list item) plans .null
  | list {item : TypeRef} {plans : List Plan} {values : List Value}
    (h : ∀ value ∈ values, Conforms r item plans value) :
    Conforms r (.list item) plans (.list values)
  | leaf {name : String} {plans : List Plan} {value : Value} (h : r.HasLeaf name value) :
    Conforms r (.named name) plans value
  | object {name : String} {plans : List Plan} {members : Entries Value} {o : ObjectType σ ν}
    (ho : r.Possible name o)
    (names_nodup : members.names.Nodup)
    (mem_names : ∀ key, key ∈ members.names ↔ ∃ f ∈ Plan.fieldsOn o plans, f.key = key)
    (typeName : ∀ f ∈ Plan.fieldsOn o plans, f.head.name = Plan.typeNameField →
      members.lookup f.key = some (.string o.name))
    (declared : ∀ f ∈ Plan.fieldsOn o plans, f.head.name ≠ Plan.typeNameField →
      (o.field? f.head.name).isSome)
    (value : ∀ f ∈ Plan.fieldsOn o plans, f.head.name ≠ Plan.typeNameField →
      ∀ field, o.field? f.head.name = some field → ∀ member, members.lookup f.key = some member →
        Conforms r field.type (FieldPlan.collect (Plan.fieldsOn o plans) f.key) member) :
    Conforms r (.named name) plans (.object members)

end Registry

end Gazette
