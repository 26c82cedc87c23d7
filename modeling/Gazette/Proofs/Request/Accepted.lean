import Gazette.Proofs.Request.Serving
import Gazette.Request.Validation

/-!
# Requests that pass validation

The selections of an operation that passes validation can run on its root (`Runnable`), if the types
of the registry go together (`Registry.Coherent`), variables have values and arguments are admitted.
-/

namespace Gazette

variable {σ ν : Type}

namespace Plan

mutual

/-- The arguments that are written in selections, at any depth. -/
def arguments : List Plan → Arguments
  | [] => []
  | p :: rest => p.argumentsOne ++ arguments rest

/-- The arguments that are written in one selection. -/
def argumentsOne : Plan → Arguments
  | .field head plans => if head.name = typeNameField then [] else head.arguments ++ arguments plans
  | .fragment _ _ _ plans => arguments plans
  | .missing _ => []

end

theorem arguments_append (plans further : List Plan) :
    arguments (plans ++ further) = arguments plans ++ arguments further := by
  induction plans with
  | nil => rw [List.nil_append, arguments, List.nil_append]
  | cons p rest ih => rw [List.cons_append, arguments, arguments, ih, List.append_assoc]

end Plan

/-! ## Objects and their outlines -/

/-- Whether the fields that an outline tells of are those of an object. -/
def Outline.Represents (t : Outline) (o : ObjectType σ ν) : Prop :=
  ∀ name outline, t.fields.find? (fun f => f.name = name) = some outline →
    ∃ field, o.field? name = some field ∧ field.type = outline.type ∧
      field.arguments = outline.arguments

theorem Outline.represents_object (o : ObjectType σ ν) : (ofType (.object o)).Represents o := by
  intro name outline h
  simp only [ofType, List.find?_map, Function.comp_def] at h
  obtain ⟨field, hfield, rfl⟩ := Option.map_eq_some_iff.1 h
  exact ⟨field, hfield, rfl, rfl⟩

namespace Registry

/-- Whether what an object implements tells of the object, and the arguments of fields are
leaves. -/
structure Coherent (r : Registry σ ν) : Prop where
  represents : ∀ o, r.object? o.name = some o → ∀ name, o.isA name → ∀ t, r.find? name = some t →
    (Outline.ofType t).Represents o
  takesLeaves : ∀ o, r.object? o.name = some o → ∀ f ∈ o.fields, r.TakesLeaves f

variable {r : Registry σ ν} {name : String} {t : NamedType σ ν} {o : ObjectType σ ν}

/-- A type whose values can be an object is the object, or an interface of it. -/
theorem Possible.eq_object_or_isA (ho : r.Possible name o) (hfind : r.find? name = some t) :
    t = .object o ∨ o.isA name := by
  cases ho with
  | object hobject => exact .inl (Option.some.inj (hfind.symm.trans hobject))
  | interface i hinterface ho hi =>
    have hname : i.name = name := (name_of_find? hinterface).2
    exact .inr (hname ▸ hi)

theorem eq_object_or_isA_of_applies (ho : r.object? o.name = some o)
    (happlies : Execution.applies o (some name)) (hfind : r.find? name = some t) :
    t = .object o ∨ o.isA name := by
  simp only [Execution.applies, Bool.or_eq_true, decide_eq_true_iff] at happlies
  rcases happlies with rfl | hisA
  · rw [object?_eq_some_iff] at ho
    exact .inl (Option.some.inj (hfind.symm.trans ho))
  · exact .inr hisA

theorem Coherent.represents_of_possible (h : r.Coherent) (ho : r.Possible name o)
    (hfind : r.find? name = some t) : (Outline.ofType t).Represents o := by
  rcases ho.eq_object_or_isA hfind with rfl | hisA
  · exact Outline.represents_object o
  · exact h.represents o ho.object?_eq name hisA t hfind

theorem Coherent.represents_of_applies (h : r.Coherent) (ho : r.object? o.name = some o)
    (happlies : Execution.applies o (some name)) (hfind : r.find? name = some t) :
    (Outline.ofType t).Represents o := by
  rcases eq_object_or_isA_of_applies ho happlies hfind with rfl | hisA
  · exact Outline.represents_object o
  · exact h.represents o ho name hisA t hfind

end Registry

namespace Execution

/-- Whether an argument is admitted wherever there is one of its name. -/
def Scope.AdmitsNamed (scope : Scope σ ν) (e : String × Literal) : Prop :=
  ∀ o, scope.registry.object? o.name = some o → ∀ f ∈ o.fields, ∀ spec ∈ f.arguments,
    spec.name = e.1 → scope.Admits spec.type e.2

variable {scope : Scope σ ν} {o : ObjectType σ ν} {t : Outline}

/-! ## Selections that pass -/

/-- Whether a selected field, unless it is the one for the name of a type, exists on an object, its
arguments bind, and what is selected inside it can run. -/
structure FieldRuns (scope : Scope σ ν) (o : ObjectType σ ν) (f : FieldPlan) : Prop where
  bound : f.head.name ≠ Plan.typeNameField → ∃ field b, o.field? f.head.name = some field ∧
    scope.boundArguments? field f.head.arguments = some b ∧ scope.registry.Binds field b
  inside : f.head.name ≠ Plan.typeNameField → ∀ field, o.field? f.head.name = some field →
    ∀ o', scope.registry.Possible field.type.baseName o' → Runnable scope o' f.plans

theorem runnable_of_fieldRuns {plans : List Plan}
    (h : ∀ f ∈ Plan.fieldsOn o plans, FieldRuns scope o f) : Runnable scope o plans :=
  .intro (fun f hf => (h f hf).bound) (fun f hf => (h f hf).inside)

/-- The arguments of a field that passes validation bind. -/
theorem exists_bound_of_fieldIssues (hsupplied : scope.Supplied)
    (hcoherent : scope.registry.Coherent)
    (ho : scope.registry.object? o.name = some o) (hrep : t.Represents o) {head : FieldHead}
    {plans : List Plan} {outline : FieldOutline} {target : Outline}
    (hfind : t.fields.find? (fun f => f.name = head.name) = some outline)
    (hissues :
      Validation.fieldIssues scope.validation scope.declarations head outline target plans = [])
    (hreferences : ∀ name ∈ Plan.referencesAt head.arguments head.directives,
      name ∈ scope.declarations.map VariableDeclaration.name)
    (hadmits : ∀ e ∈ head.arguments, scope.AdmitsNamed e) :
    ∃ field b, o.field? head.name = some field ∧
      scope.boundArguments? field head.arguments = some b ∧ scope.registry.Binds field b := by
  obtain ⟨field, hfield, -, harguments⟩ := hrep _ _ hfind
  have hmem : field ∈ o.fields := List.mem_of_find?_eq_some hfield
  simp only [Validation.fieldIssues, List.append_eq_nil_iff, Validation.useIssues,
    List.flatMap_append] at hissues
  obtain ⟨⟨⟨-, hargumentIssues⟩, huses, -⟩, -⟩ := hissues
  rw [← harguments] at hargumentIssues huses
  obtain ⟨b, hb, hbinds⟩ := hsupplied.exists_boundArguments (hcoherent.takesLeaves o ho field hmem)
    (fun e he name hname => hreferences name <| by
      rw [Plan.referencesAt, List.mem_flatMap]
      exact ⟨e.2, List.mem_append_left _ (List.mem_map_of_mem he), hname⟩)
    hargumentIssues huses
    fun spec hspec literal hliteral => hadmits _ hliteral o ho field hmem spec hspec rfl
  exact ⟨field, b, hfield, hb, hbinds⟩

theorem issues_of_field {head : FieldHead} {plans : List Plan}
    (hname : head.name ≠ Plan.typeNameField)
    (hissues :
      Validation.planIssuesOne scope.validation scope.declarations t (.field head plans) = []) :
    ∃ outline target, t.fields.find? (fun f => f.name = head.name) = some outline ∧
      scope.registry.find? outline.type.baseName = some target ∧
      Validation.fieldIssues scope.validation scope.declarations head outline
        (Outline.ofType target)
        plans = [] ∧
      Validation.planIssues scope.validation scope.declarations (Outline.ofType target)
        plans = [] := by
  rw [Validation.planIssuesOne, if_neg hname] at hissues
  cases hfind : t.fields.find? fun f => f.name = head.name with
  | none => simp [hfind] at hissues
  | some outline =>
    simp only [hfind, Scope.find?_validation] at hissues
    cases htarget : scope.registry.find? outline.type.baseName with
    | none => simp [htarget] at hissues
    | some target =>
      simp only [htarget, Option.map_some, List.append_eq_nil_iff] at hissues
      exact ⟨outline, target, rfl, htarget, hissues.1.1, hissues.2⟩

/-- What is selected inside a fragment passes for the type around it, or for the one it is on. -/
theorem exists_inside_of_fragment {name condition : Option String} {directives : List Directive}
    {plans : List Plan}
    (hissues : Validation.planIssuesOne scope.validation scope.declarations t
      (.fragment name condition directives plans) = []) :
    ∃ t' : Outline, Validation.planIssues scope.validation scope.declarations t' plans = [] ∧
      (condition = none ∧ t' = t ∨ ∃ type target, condition = some type ∧
        scope.registry.find? type = some target ∧ t' = Outline.ofType target) := by
  cases condition with
  | none =>
    rw [Validation.planIssuesOne, List.append_eq_nil_iff] at hissues
    exact ⟨t, hissues.2, .inl ⟨rfl, rfl⟩⟩
  | some type =>
    rw [Validation.planIssuesOne, Scope.find?_validation] at hissues
    cases hfind : scope.registry.find? type with
    | none => simp [hfind] at hissues
    | some target =>
      simp only [hfind, Option.map_some, List.append_eq_nil_iff] at hissues
      exact ⟨_, hissues.2, .inr ⟨type, target, rfl, hfind, rfl⟩⟩

/-- What is selected inside a fragment on an object passes for a type that tells of the object. -/
theorem issues_of_fragment (hcoherent : scope.registry.Coherent)
    (ho : scope.registry.object? o.name = some o) (hrep : t.Represents o) {name : Option String}
    {condition : Option String} {directives : List Directive} {plans : List Plan}
    (hissues : Validation.planIssuesOne scope.validation scope.declarations t
      (.fragment name condition directives plans) = [])
    (happlies : applies o condition) :
    ∃ t' : Outline, t'.Represents o ∧
      Validation.planIssues scope.validation scope.declarations t' plans = [] := by
  obtain ⟨t', hinner, ⟨rfl, rfl⟩ | ⟨type, target, rfl, hfind, rfl⟩⟩ :=
    exists_inside_of_fragment hissues
  · exact ⟨t', hrep, hinner⟩
  · exact ⟨_, hcoherent.represents_of_applies ho happlies hfind, hinner⟩

mutual

/-- The fields that are left of selections that pass validation can run. -/
theorem fieldRuns_of_planIssues (hsupplied : scope.Supplied) (hcoherent : scope.registry.Coherent)
    (plans : List Plan) {o : ObjectType σ ν} {t : Outline}
    (ho : scope.registry.object? o.name = some o) (hrep : t.Represents o)
    (hissues : Validation.planIssues scope.validation scope.declarations t plans = [])
    (hreferences : ∀ name ∈ Plan.references plans,
      name ∈ scope.declarations.map VariableDeclaration.name)
    (hadmits : ∀ e ∈ Plan.arguments (Plan.prune scope.given plans), scope.AdmitsNamed e) :
    ∀ f ∈ Plan.fieldsOn o (Plan.prune scope.given plans), FieldRuns scope o f := by
  cases plans with
  | nil => exact nofun
  | cons p rest =>
    rw [Validation.planIssues, List.append_eq_nil_iff] at hissues
    rw [Plan.references] at hreferences
    rw [Plan.prune, Plan.arguments_append] at hadmits
    rw [Plan.prune, Plan.fieldsOn_append]
    intro f hf
    rcases List.mem_append.1 hf with hf | hf
    · exact fieldRuns_of_planIssuesOne hsupplied hcoherent p ho hrep hissues.1
        (fun name hname => hreferences name (List.mem_append_left _ hname))
        (fun e he => hadmits e (List.mem_append_left _ he)) f hf
    · exact fieldRuns_of_planIssues hsupplied hcoherent rest ho hrep hissues.2
        (fun name hname => hreferences name (List.mem_append_right _ hname))
        (fun e he => hadmits e (List.mem_append_right _ he)) f hf

theorem fieldRuns_of_planIssuesOne (hsupplied : scope.Supplied)
    (hcoherent : scope.registry.Coherent) (p : Plan) {o : ObjectType σ ν} {t : Outline}
    (ho : scope.registry.object? o.name = some o) (hrep : t.Represents o)
    (hissues : Validation.planIssuesOne scope.validation scope.declarations t p = [])
    (hreferences : ∀ name ∈ p.referencesOne, name ∈ scope.declarations.map VariableDeclaration.name)
    (hadmits : ∀ e ∈ Plan.arguments (p.pruneOne scope.given), scope.AdmitsNamed e) :
    ∀ f ∈ Plan.fieldsOn o (p.pruneOne scope.given), FieldRuns scope o f := by
  cases p with
  | field head plans =>
    rw [Plan.pruneOne] at hadmits ⊢
    split at hadmits
    case isFalse hskipped => rw [if_neg hskipped]; exact nofun
    case isTrue hkept =>
      rw [if_pos hkept]
      intro f hf
      obtain rfl : f = ⟨head, Plan.prune scope.given plans⟩ := by
        simpa [Plan.fieldsOn, Plan.fieldsOneOn] using hf
      by_cases hname : head.name = Plan.typeNameField
      · exact ⟨fun hne => absurd hname hne, fun hne => absurd hname hne⟩
      rw [Plan.referencesOne, if_neg hname] at hreferences
      simp only [Plan.arguments, Plan.argumentsOne, if_neg hname, List.append_nil] at hadmits
      obtain ⟨outline, target, hfind, htarget, hfieldIssues, hinner⟩ :=
        issues_of_field hname hissues
      refine ⟨fun _ => ?_, fun _ field hfield o' ho' => ?_⟩
      · exact exists_bound_of_fieldIssues hsupplied hcoherent ho hrep hfind hfieldIssues
          (fun name hname => hreferences name (List.mem_append_left _ hname))
          (fun e he => hadmits e (List.mem_append_left _ he))
      · obtain ⟨field', hfield', htype, -⟩ := hrep _ _ hfind
        obtain rfl := Option.some.inj (hfield'.symm.trans hfield)
        rw [← htype] at htarget
        exact runnable_of_fieldRuns <| fieldRuns_of_planIssues hsupplied hcoherent plans
          ho'.object?_eq (hcoherent.represents_of_possible ho' htarget) hinner
          (fun name hname => hreferences name (List.mem_append_right _ hname))
          (fun e he => hadmits e (List.mem_append_right _ he))
  | fragment name condition directives plans =>
    rw [Plan.pruneOne] at hadmits ⊢
    split at hadmits
    case isFalse hskipped => rw [if_neg hskipped]; exact nofun
    case isTrue hkept =>
      rw [if_pos hkept]
      simp only [Plan.arguments, Plan.argumentsOne, List.append_nil] at hadmits
      rw [Plan.referencesOne] at hreferences
      simp only [Plan.fieldsOn, Plan.fieldsOneOn, List.append_nil]
      split
      case isFalse hother => exact nofun
      case isTrue happlies =>
        obtain ⟨t', hrep', hinner⟩ := issues_of_fragment hcoherent ho hrep hissues happlies
        exact fieldRuns_of_planIssues hsupplied hcoherent plans ho hrep' hinner
          (fun name hname => hreferences name (List.mem_append_right _ hname)) hadmits
  | missing name => cases hissues

end

end Execution

/-! ## Operations that pass -/

theorem Document.mem_of_select? {d : Document} {name : Option String} {o : Operation}
    (h : d.select? name = some o) : o ∈ d.operations := by
  unfold select? at h
  split at h
  · exact List.mem_of_find?_eq_some h
  · split at h
    · rename_i hoperations
      rw [hoperations, Option.some.inj h]
      exact List.mem_singleton_self o
    · cases h

namespace Schema

open Execution

variable {schema : Schema σ ν} {request : Request} {o : Operation}

/-- The parts of what validation has found about an operation that passes. -/
theorem issues_of_operationIssues {d : Document} {limit : Nat} {plans : List Plan}
    (hissues : Validation.operationIssues (schema.validationScope request) d limit o = [])
    (hexpand : Plan.expand d limit o.selections = some plans)
    {root : ObjectType σ (Subject ν)} (hroot : rootOf? schema.executable o.kind = some root) :
    (∀ v ∈ o.declarations,
        Validation.declarationIssues (schema.validationScope request) o.kind v = []) ∧
      (∀ name ∈ Plan.references plans, name ∈ o.declarations.map VariableDeclaration.name) ∧
      Validation.planIssues (schema.validationScope request) o.declarations
        (Outline.ofType (.object root)) plans = [] := by
  have htype : (Validation.root? (schema.validationScope request) o.kind).bind
      (schema.validationScope request).find? = some (Outline.ofType (.object root)) := by
    have hfind (name : String) : (schema.validationScope request).find? name =
        (schema.executable.find? name).map Outline.ofType := Outline.find?_ofRegistry _ name
    cases hkind : o.kind with
    | query =>
      rw [hkind] at hroot
      have hobject : schema.executable.find? schema.executable.query = some (.object root) :=
        Registry.object?_eq_some_iff.1 hroot
      show (schema.validationScope request).find? schema.executable.query = _
      rw [hfind, hobject, Option.map_some]
    | mutation =>
      rw [hkind] at hroot
      obtain ⟨name, hname, hobject⟩ := Option.bind_eq_some_iff.1 hroot
      show schema.executable.mutation.bind (schema.validationScope request).find? = _
      rw [hname, Option.bind_some, hfind, Registry.object?_eq_some_iff.1 hobject, Option.map_some]
    | subscription =>
      rw [hkind] at hroot
      cases hroot
  rw [Validation.operationIssues, hexpand] at hissues
  simp only [htype, List.append_eq_nil_iff, Validation.variableIssues,
    List.flatMap_eq_nil_iff] at hissues
  obtain ⟨⟨⟨-, ⟨⟨-, hdeclarations⟩, -⟩, hundeclared⟩, -⟩, -, hplans⟩ := hissues
  refine ⟨hdeclarations, fun name hname => ?_, hplans⟩
  by_contra hnone
  have hmem : name ∈ (Plan.references plans).filter
      fun name => !(o.declarations.map VariableDeclaration.name).contains name := by
    simpa using ⟨hname, by simpa using hnone⟩
  rw [List.map_eq_nil_iff.1 hundeclared] at hmem
  cases hmem

/-- The defaults of variables have the types of the variables. -/
theorem supplied_of_declarationIssues
    (hissues : ∀ v ∈ o.declarations,
      Validation.declarationIssues (schema.validationScope request) o.kind v = [])
    (hgiven : ∀ v ∈ o.declarations, v.type.isNonNull → (request.given v.name).isSome) :
    (schema.scope request o).Supplied := by
  refine ⟨hgiven, fun v hv value hdefault => ?_⟩
  have hnone := hissues v hv
  rw [Validation.declarationIssues] at hnone
  split at hnone
  · cases hnone
  · rw [hdefault] at hnone
    simp only [List.append_eq_nil_iff] at hnone
    have hdefaultIssues := hnone.2
    split at hdefaultIssues
    · rename_i htype
      have hhas : v.type.isNonNull = false ∧
          Validation.has (schema.validationScope request) v.type value := by simpa using htype
      exact hhas
    · cases hdefaultIssues

/-- What a request runs can run on the root, if variables that cannot be null are given and
arguments are admitted. -/
theorem runnable_of_select {selected : Selected σ (Subject ν)}
    (h : schema.select request = .ok selected) (hcoherent : schema.executable.Coherent)
    (hgiven : ∀ v ∈ selected.operation.declarations, v.type.isNonNull →
      (request.given v.name).isSome)
    (hadmits : ∀ e ∈ Plan.arguments selected.plans,
      (schema.scope request selected.operation).AdmitsNamed e) :
    Runnable (schema.scope request selected.operation) selected.root selected.plans := by
  obtain ⟨d, plans, hissues, hselect, hroot, hexpand, hplans⟩ := exists_of_select h
  rw [Validation.documentIssues, List.append_eq_nil_iff, List.flatMap_eq_nil_iff] at hissues
  have hoperation := (List.append_eq_nil_iff.1 (hissues.2 _ (Document.mem_of_select? hselect))).2
  obtain ⟨hdeclarations, hreferences, hpass⟩ := issues_of_operationIssues hoperation hexpand hroot
  rw [hplans] at hadmits ⊢
  exact runnable_of_fieldRuns <| fieldRuns_of_planIssues
    (supplied_of_declarationIssues hdeclarations hgiven) hcoherent plans
    (object?_name_of_rootOf? hroot) (Outline.represents_object _) hpass hreferences hadmits

end Schema

end Gazette
