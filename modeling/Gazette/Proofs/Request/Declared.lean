import Gazette.Proofs.Request.Accepted
import Gazette.Proofs.Schema.Finished

/-!
# Selections of declared fields

Validation looks at the types of a schema, and a run at objects.  Objects have the fields of what
they implement, with the same types (`Registry.KeepsInterfaces`), so a selection that passes
validation selects fields that each object has, with arguments that these declare (`Declared`).
What validation grants to the fields that are selected holds of all that a request runs
(`Schema.selects_of_select`).
-/

namespace Gazette

variable {σ ν : Type}

/-- Whether an object declares the fields that an outline tells of, with the same types and at least
the same arguments. -/
def Outline.Covers (t : Outline) (o : ObjectType σ ν) : Prop :=
  ∀ name outline, t.fields.find? (fun f => f.name = name) = some outline →
    ∃ field, o.field? name = some field ∧ field.type = outline.type ∧
      ∀ spec ∈ outline.arguments, spec.name ∈ field.arguments.map ArgumentSpec.name

theorem Outline.Represents.covers {t : Outline} {o : ObjectType σ ν} (h : t.Represents o) :
    t.Covers o := by
  intro name outline hfind
  obtain ⟨field, hfield, htype, harguments⟩ := h name outline hfind
  exact ⟨field, hfield, htype, fun spec hspec => List.mem_map_of_mem (harguments ▸ hspec)⟩

namespace Registry

/-- Whether what an object implements is an interface whose fields it declares. -/
def KeepsInterfaces (r : Registry σ ν) : Prop :=
  ∀ o, r.object? o.name = some o → ∀ name, o.isA name →
    ∃ i, r.find? name = some (.interface i) ∧
      (Outline.ofType (.interface i : NamedType σ ν)).Covers o

variable {r : Registry σ ν} {root : ν} {name : String} {o : ObjectType σ ν}

theorem IsFinished.keepsInterfaces_withIntrospection (h : r.IsFinished) (root : ν) :
    (r.withIntrospection root).KeepsInterfaces := by
  intro O hO name hisA
  rcases exists_of_object?_withIntrospection hO with ⟨o, ho, rfl⟩ | ⟨-, hmem⟩
  · have hregular := h.isRegular
    obtain ⟨hmem, -⟩ := mem_of_object? ho
    obtain ⟨i, hi, rfl, hfields⟩ :=
      h.isWellFormed.implements o hmem name (List.contains_iff_mem.1 hisA)
    refine ⟨i, find?_withIntrospection_of_some (hregular.find?_of_mem hi) root, ?_⟩
    intro field outline hfind
    simp only [Outline.ofType, List.find?_map, Function.comp_def] at hfind
    obtain ⟨f, hf, rfl⟩ := Option.map_eq_some_iff.1 hfind
    obtain rfl : f.name = field := key_of_find? hf
    obtain ⟨own, hown, hname, htype⟩ := hfields f (List.mem_of_find?_eq_some hf)
    have hfield : o.field? f.name = some own := hname ▸ hregular.field?_of_mem hmem hown
    exact ⟨liftField root own, field?_lifted_of_some hfield r root, htype, List.forall_mem_nil _⟩
  · rw [ObjectType.isA, implements_of_mem_types hmem] at hisA
    cases hisA

theorem KeepsInterfaces.covers_of_isA (h : r.KeepsInterfaces) (ho : r.object? o.name = some o)
    (hisA : o.isA name) {t : NamedType σ ν} (hfind : r.find? name = some t) :
    (Outline.ofType t).Covers o := by
  obtain ⟨i, hi, hcovers⟩ := h o ho name hisA
  obtain rfl := Option.some.inj (hi.symm.trans hfind)
  exact hcovers

theorem KeepsInterfaces.covers_of_possible (h : r.KeepsInterfaces) (ho : r.Possible name o)
    {t : NamedType σ ν} (hfind : r.find? name = some t) : (Outline.ofType t).Covers o := by
  rcases ho.eq_object_or_isA hfind with rfl | hisA
  · exact (Outline.represents_object o).covers
  · exact h.covers_of_isA ho.object?_eq hisA hfind

theorem KeepsInterfaces.covers_of_applies (h : r.KeepsInterfaces)
    (ho : r.object? o.name = some o) (happlies : Execution.applies o (some name))
    {t : NamedType σ ν} (hfind : r.find? name = some t) : (Outline.ofType t).Covers o := by
  rcases eq_object_or_isA_of_applies ho happlies hfind with rfl | hisA
  · exact (Outline.represents_object o).covers
  · exact h.covers_of_isA ho hisA hfind

end Registry

namespace Execution

/-- Whether the fields that selections select on an object, and on all objects inside, are declared
there and have a property where they are selected. -/
inductive Selects (r : Registry σ ν) (P : ObjectType σ ν → Field σ ν → FieldHead → Prop) :
    ObjectType σ ν → List Plan → Prop
  | intro {o : ObjectType σ ν} {plans : List Plan}
    (field : ∀ f ∈ Plan.fieldsOn o plans, f.head.name ≠ Plan.typeNameField →
      ∃ field, o.field? f.head.name = some field ∧ P o field f.head)
    (inside : ∀ f ∈ Plan.fieldsOn o plans, f.head.name ≠ Plan.typeNameField →
      ∀ field, o.field? f.head.name = some field →
        ∀ o', r.Possible field.type.baseName o' → Selects r P o' f.plans) :
    Selects r P o plans

/-- Whether a field declares the arguments that are written where it is selected. -/
def DeclaresWritten (_ : ObjectType σ ν) (field : Field σ ν) (head : FieldHead) : Prop :=
  ∀ e ∈ head.arguments, e.1 ∈ field.arguments.map ArgumentSpec.name

/-- Whether the fields that selections select on an object, and on all objects inside, are declared
there with the arguments that are written. -/
def Declared (r : Registry σ ν) : ObjectType σ ν → List Plan → Prop := Selects r DeclaresWritten

section

variable {r : Registry σ ν} {P : ObjectType σ ν → Field σ ν → FieldHead → Prop}
  {o : ObjectType σ ν} {plans : List Plan}

theorem Selects.field (h : Selects r P o plans) {f : FieldPlan} (hf : f ∈ Plan.fieldsOn o plans)
    (hname : f.head.name ≠ Plan.typeNameField) :
    ∃ field, o.field? f.head.name = some field ∧ P o field f.head := by
  cases h with
  | intro field inside => exact field f hf hname

theorem Selects.inside (h : Selects r P o plans) {f : FieldPlan} (hf : f ∈ Plan.fieldsOn o plans)
    (hname : f.head.name ≠ Plan.typeNameField) {field : Field σ ν}
    (hfield : o.field? f.head.name = some field) {o' : ObjectType σ ν}
    (ho' : r.Possible field.type.baseName o') : Selects r P o' f.plans := by
  cases h with
  | intro _ inside => exact inside f hf hname field hfield o' ho'

theorem selects_nil : Selects r P o [] := .intro nofun nofun

/-- A property of what selections select is one of selections that select fewer fields. -/
theorem Selects.of_subset {plans' : List Plan} (h : Selects r P o plans)
    (hsubset : Plan.fieldsOn o plans' ⊆ Plan.fieldsOn o plans) : Selects r P o plans' :=
  .intro (fun _ hf hname => h.field (hsubset hf) hname)
    (fun _ hf hname _ hfield _ ho' => h.inside (hsubset hf) hname hfield ho')

theorem Selects.append {further : List Plan} (h : Selects r P o plans)
    (h' : Selects r P o further) : Selects r P o (plans ++ further) := by
  refine .intro (fun f hf hname => ?_) (fun f hf hname field hfield o' ho' => ?_)
  all_goals
    rw [Plan.fieldsOn_append] at hf
    rcases List.mem_append.1 hf with hf | hf
  · exact h.field hf hname
  · exact h'.field hf hname
  · exact h.inside hf hname hfield ho'
  · exact h'.inside hf hname hfield ho'

end

variable {scope : Scope σ ν}

theorem names_of_argumentIssues {specs : List ArgumentSpec} {arguments : Arguments}
    {scope : Validation.Scope} (h : Validation.argumentIssues scope specs arguments = []) :
    ∀ e ∈ arguments, ∃ spec ∈ specs, spec.name = e.1 := by
  intro e he
  simp only [Validation.argumentIssues, List.append_eq_nil_iff, List.flatMap_eq_nil_iff] at h
  have hvalue := h.1.2 e he
  split at hvalue
  · rename_i spec hspec
    exact ⟨spec, List.mem_of_find?_eq_some hspec, key_of_find? hspec⟩
  · cases hvalue

/-- That outlines which stand for objects do so inside of them, too, and that a field which passes
validation for an outline has a property on the object. -/
structure Grants (scope : Scope σ ν) (StandsFor : Outline → ObjectType σ ν → Prop)
    (P : ObjectType σ ν → Field σ ν → FieldHead → Prop) : Prop where
  inside : ∀ name o t, scope.registry.Possible name o → scope.registry.find? name = some t →
    StandsFor (Outline.ofType t) o
  fragment : ∀ name o t, scope.registry.object? o.name = some o → applies o (some name) →
    scope.registry.find? name = some t → StandsFor (Outline.ofType t) o
  field : ∀ t o outline (head : FieldHead), StandsFor t o →
    scope.registry.object? o.name = some o →
    t.fields.find? (fun f => f.name = head.name) = some outline →
    Validation.argumentIssues scope.validation outline.arguments head.arguments = [] →
    ∃ field, o.field? head.name = some field ∧ field.type = outline.type ∧ P o field head

section

variable {StandsFor : Outline → ObjectType σ ν → Prop}
  {P : ObjectType σ ν → Field σ ν → FieldHead → Prop}

/-- What is selected inside a fragment on an object passes for a type that stands for the object. -/
theorem Grants.exists_of_fragment (h : Grants scope StandsFor P) {o : ObjectType σ ν} {t : Outline}
    (ho : scope.registry.object? o.name = some o) (ht : StandsFor t o)
    {name condition : Option String} {directives : List Directive} {plans : List Plan}
    (hissues : Validation.planIssuesOne scope.validation scope.declarations t
      (.fragment name condition directives plans) = [])
    (happlies : applies o condition) :
    ∃ t' : Outline, StandsFor t' o ∧
      Validation.planIssues scope.validation scope.declarations t' plans = [] := by
  obtain ⟨t', hinner, ⟨rfl, rfl⟩ | ⟨type, target, rfl, hfind, rfl⟩⟩ :=
    exists_inside_of_fragment hissues
  · exact ⟨t', ht, hinner⟩
  · exact ⟨_, h.fragment type o target ho happlies hfind, hinner⟩

mutual

/-- What is left of selections that pass validation for a type has on each object of the type the
property that validation grants. -/
theorem Grants.selects_of_planIssues (h : Grants scope StandsFor P) (plans : List Plan)
    {o : ObjectType σ ν} {t : Outline} (ho : scope.registry.object? o.name = some o)
    (ht : StandsFor t o)
    (hissues : Validation.planIssues scope.validation scope.declarations t plans = []) :
    Selects scope.registry P o (Plan.prune scope.given plans) := by
  cases plans with
  | nil => exact selects_nil
  | cons p rest =>
    rw [Validation.planIssues, List.append_eq_nil_iff] at hissues
    rw [Plan.prune]
    exact (h.selects_of_planIssuesOne p ho ht hissues.1).append
      (h.selects_of_planIssues rest ho ht hissues.2)

theorem Grants.selects_of_planIssuesOne (h : Grants scope StandsFor P) (p : Plan)
    {o : ObjectType σ ν} {t : Outline} (ho : scope.registry.object? o.name = some o)
    (ht : StandsFor t o)
    (hissues : Validation.planIssuesOne scope.validation scope.declarations t p = []) :
    Selects scope.registry P o (p.pruneOne scope.given) := by
  cases p with
  | field head plans =>
    rw [Plan.pruneOne]
    split
    case isFalse hskipped => exact selects_nil
    case isTrue hkept =>
      refine .intro (fun f hf hname => ?_) (fun f hf hname field hfield o' ho' => ?_)
      all_goals
        obtain rfl : f = ⟨head, Plan.prune scope.given plans⟩ := by
          simpa [Plan.fieldsOn, Plan.fieldsOneOn] using hf
        obtain ⟨outline, target, hfind, htarget, hfieldIssues, hinner⟩ :=
          issues_of_field hname hissues
        simp only [Validation.fieldIssues, List.append_eq_nil_iff] at hfieldIssues
        obtain ⟨own, hown, htype, hproperty⟩ :=
          h.field t o outline head ht ho hfind hfieldIssues.1.1.2
      · exact ⟨own, hown, hproperty⟩
      · obtain rfl := Option.some.inj (hown.symm.trans hfield)
        rw [← htype] at htarget
        exact h.selects_of_planIssues plans ho'.object?_eq (h.inside _ _ _ ho' htarget) hinner
  | fragment name condition directives plans =>
    rw [Plan.pruneOne]
    split
    case isFalse hskipped => exact selects_nil
    case isTrue hkept =>
      cases happlies : applies o condition with
      | false =>
        have hnone : Selects scope.registry P o [] := selects_nil
        exact hnone.of_subset (by simp [Plan.fieldsOn, Plan.fieldsOneOn, happlies])
      | true =>
        obtain ⟨t', ht', hinner⟩ := h.exists_of_fragment ho ht hissues happlies
        exact (h.selects_of_planIssues plans ho ht' hinner).of_subset (by
          simp [Plan.fieldsOn, Plan.fieldsOneOn, happlies])
  | missing name => cases hissues

end

end

/-- A field that passes validation for an outline that covers an object declares what is written. -/
theorem grants_declaresWritten (hkeeps : scope.registry.KeepsInterfaces) :
    Grants scope Outline.Covers DeclaresWritten where
  inside _ _ _ ho hfind := hkeeps.covers_of_possible ho hfind
  fragment _ _ _ ho happlies hfind := hkeeps.covers_of_applies ho happlies hfind
  field t o outline head hcovers _ hfind hissues := by
    obtain ⟨own, hown, htype, harguments⟩ := hcovers _ _ hfind
    refine ⟨own, hown, htype, fun e he => ?_⟩
    obtain ⟨spec, hspec, hspecname⟩ := names_of_argumentIssues hissues e he
    exact hspecname ▸ harguments spec hspec

/-- Selections that pass validation for a type select fields that are declared by each object of the
type. -/
theorem declared_of_planIssues (hkeeps : scope.registry.KeepsInterfaces) (plans : List Plan)
    {o : ObjectType σ ν} {t : Outline} (ho : scope.registry.object? o.name = some o)
    (hcovers : t.Covers o)
    (hissues : Validation.planIssues scope.validation scope.declarations t plans = []) :
    Declared scope.registry o (Plan.prune scope.given plans) :=
  (grants_declaresWritten hkeeps).selects_of_planIssues plans ho hcovers hissues

end Execution

namespace Schema

open Execution

variable {schema : Schema σ ν} {request : Request}

/-- What a request runs has the property that validation grants to what is selected. -/
theorem selects_of_select {StandsFor : Outline → ObjectType σ (Subject ν) → Prop}
    {P : ObjectType σ (Subject ν) → Field σ (Subject ν) → FieldHead → Prop}
    {selected : Selected σ (Subject ν)} (h : schema.select request = .ok selected)
    (hgrants : Grants (schema.scope request selected.operation) StandsFor P)
    (hroot : StandsFor (Outline.ofType (.object selected.root)) selected.root) :
    Selects schema.executable P selected.root selected.plans := by
  obtain ⟨d, plans, hissues, hselect, hrootOf, hexpand, hplans⟩ := exists_of_select h
  rw [Validation.documentIssues, List.append_eq_nil_iff, List.flatMap_eq_nil_iff] at hissues
  have hoperation := (List.append_eq_nil_iff.1 (hissues.2 _ (Document.mem_of_select? hselect))).2
  obtain ⟨-, -, hpass⟩ := issues_of_operationIssues hoperation hexpand hrootOf
  have hselects : Selects (schema.scope request selected.operation).registry P selected.root
      (Plan.prune (schema.scope request selected.operation).given plans) :=
    hgrants.selects_of_planIssues plans (object?_name_of_rootOf? hrootOf) hroot hpass
  rwa [hplans]

end Schema

end Gazette
