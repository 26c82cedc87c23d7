import Gazette.Proofs.Request.Accepted
import Gazette.Proofs.Request.Paths

/-!
# Variables without a value

A variable that cannot be null and is not given is noticed only at a field that uses it: the written
arguments of the field have no values, and its position does not begin.  At a root field the error
has no path, and the fields before it have run (`exists_of_executeFields_error`).  In an accepted
request there is no other error without a path (`Schema.exists_not_given`).
-/

namespace Gazette

namespace FieldPlan

/-- The variables in the arguments of a field. -/
def references (f : FieldPlan) : List String :=
  (Plan.literals f.head.arguments).flatMap Literal.references

end FieldPlan

variable {σ ν : Type}

namespace Plan

variable {o : ObjectType σ ν} {given : String → Option Value} {f : FieldPlan} {name : String}

mutual

/-- The variables of a field that is left of selections are among those of the selections. -/
theorem mem_references_of_fieldsOn {plans : List Plan} (hf : f ∈ fieldsOn o (prune given plans))
    (hfield : f.head.name ≠ typeNameField) (hname : name ∈ f.references) :
    name ∈ references plans := by
  cases plans with
  | nil => cases hf
  | cons p rest =>
    rw [prune, fieldsOn_append] at hf
    rw [references]
    rcases List.mem_append.1 hf with hf | hf
    · exact List.mem_append_left _ (mem_referencesOne_of_fieldsOn hf hfield hname)
    · exact List.mem_append_right _ (mem_references_of_fieldsOn hf hfield hname)

theorem mem_referencesOne_of_fieldsOn {p : Plan} (hf : f ∈ fieldsOn o (p.pruneOne given))
    (hfield : f.head.name ≠ typeNameField) (hname : name ∈ f.references) :
    name ∈ p.referencesOne := by
  cases p with
  | field head plans =>
    rw [pruneOne] at hf
    split at hf
    · obtain rfl : f = ⟨head, prune given plans⟩ := by simpa [fieldsOn, fieldsOneOn] using hf
      rw [referencesOne, if_neg hfield, referencesAt, List.flatMap_append]
      exact List.mem_append_left _ (List.mem_append_left _ hname)
    · cases hf
  | fragment name condition directives plans =>
    rw [pruneOne] at hf
    rw [referencesOne]
    split at hf
    · simp only [fieldsOn, fieldsOneOn, List.append_nil] at hf
      split at hf
      · exact List.mem_append_right _ (mem_references_of_fieldsOn hf hfield hname)
      · cases hf
    · cases hf
  | missing name => cases hf

end

end Plan

/-! ## Variables without a value -/

namespace Execution

/-- Written arguments have no values only if a variable in them has none. -/
theorem Scope.exists_of_written_error {scope : Scope σ ν} {arguments : Arguments} {issue : Issue}
    (h : scope.written arguments = .error issue) :
    ∃ name ∈ (Plan.literals arguments).flatMap Literal.references,
      scope.valueOf? name = none := by
  by_contra hnone
  have hvalues : ∀ e ∈ arguments, ∃ value, e.2.eval? scope.valueOf? = some value := by
    intro e he
    obtain ⟨value, hvalue, -⟩ : ∃ value, e.2.eval? scope.valueOf? = some value ∧
        ∀ w, e.2.eval? (fun _ => none) = some w → w = value := e.2.exists_eval? fun name hname => by
      have hmem : name ∈ (Plan.literals arguments).flatMap Literal.references :=
        List.mem_flatMap.2 ⟨e.2, List.mem_map_of_mem he, hname⟩
      obtain ⟨x, hx⟩ := Option.ne_none_iff_exists'.1 fun heq => hnone ⟨name, hmem, heq⟩
      exact ⟨x, hx, nofun⟩
    exact ⟨value, hvalue⟩
  obtain ⟨values, hvalues, -⟩ := scope.exists_written hvalues
  rw [h] at hvalues
  cases hvalues

/-- A declared variable without a value is one that cannot be null and is not given. -/
theorem Scope.exists_of_valueOf?_eq_none {scope : Scope σ ν} {name : String}
    (hname : name ∈ scope.declarations.map VariableDeclaration.name)
    (h : scope.valueOf? name = none) :
    ∃ v ∈ scope.declarations, v.name = name ∧ v.type.isNonNull ∧ scope.given name = none := by
  obtain ⟨w, hw, hwname⟩ := List.mem_map.1 hname
  cases hfind : scope.declarations.find? fun v => v.name = name with
  | none => exact absurd hwname (by simpa using List.find?_eq_none.1 hfind w hw)
  | some v =>
    have hv : v.name = name := key_of_find? hfind
    rw [valueOf?, hfind, Option.bind_some, hv, Option.or_eq_none_iff] at h
    refine ⟨v, List.mem_of_find?_eq_some hfind, hv, ?_, h.1⟩
    have hfallback := h.2
    unfold VariableDeclaration.fallback? at hfallback
    split at hfallback
    · cases hfallback
    · split at hfallback
      · assumption
      · cases hfallback

variable [Node ν] {scope : Scope σ ν} {object : ObjectType σ ν} {parent : ν} {path : Path}

/-- Where an error without a path ends a run of ordinary fields, the fields before have run. -/
theorem exists_of_executeFields_error
    (hordinary : ∀ field ∈ object.fields, field.role = .ordinary) {fields : List FieldPlan}
    {p p' : Progress σ} {e : ResponseError}
    (h : executeFields scope object parent path fields p = (.error e, p')) (hpath : e.path = none) :
    ∃ before f later, fields = before ++ f :: later ∧ f.head.name ≠ Plan.typeNameField ∧
      (∃ issue, scope.written f.head.arguments = .error issue) ∧
      p'.state = (executeFields scope object parent path before p).2.state := by
  induction fields generalizing p with
  | nil => cases h
  | cons f rest ih =>
    rcases hone : executeOne scope object parent path f.toPlan p with ⟨e' | first, p₁⟩
    · rw [executeFields, Run.andThen_of_error hone] at h
      obtain ⟨herror, rfl⟩ := Prod.mk.inj h
      obtain rfl := Except.error.inj herror
      obtain ⟨hname, hwritten, hstate⟩ := exists_written_error hordinary hone hpath
      exact ⟨[], f, rest, rfl, hname, hwritten, hstate⟩
    · rw [executeFields_cons_of_ok _ _ _ _ hone] at h
      obtain ⟨herror, hrest⟩ := Prod.mk.inj h
      obtain ⟨before, g, later, rfl, hname, hwritten, hstate⟩ :=
        ih (Prod.ext (map_eq_error_iff.1 herror) hrest)
      refine ⟨f :: before, g, later, rfl, hname, hwritten, ?_⟩
      rw [hstate, executeFields_cons_of_ok _ _ _ _ hone]

end Execution

/-- A root field of an accepted request whose arguments have no values uses a variable that is not
given. -/
theorem Schema.exists_not_given {schema : Schema σ ν} {request : Request}
    {selected : Selected σ (Subject ν)} (hselect : schema.select request = .ok selected)
    {f : FieldPlan} (hf : f ∈ Plan.fieldsOn selected.root selected.plans)
    (hname : f.head.name ≠ Plan.typeNameField) {issue : Issue}
    (h : (schema.scope request selected.operation).written f.head.arguments = .error issue) :
    ∃ v ∈ selected.operation.declarations, v.type.isNonNull ∧ v.name ∈ f.references ∧
      request.given v.name = none := by
  obtain ⟨d, plans, hissues, hoperation, hroot, hexpand, hplans⟩ := exists_of_select hselect
  rw [Validation.documentIssues, List.append_eq_nil_iff, List.flatMap_eq_nil_iff] at hissues
  have hissues :=
    (List.append_eq_nil_iff.1 (hissues.2 _ (Document.mem_of_select? hoperation))).2
  obtain ⟨-, hdeclared, -⟩ := issues_of_operationIssues hissues hexpand hroot
  obtain ⟨name, hmem, hnone⟩ := Execution.Scope.exists_of_written_error h
  rw [hplans] at hf
  obtain ⟨v, hv, rfl, hnonNull, hgiven⟩ := Execution.Scope.exists_of_valueOf?_eq_none
    (hdeclared name (Plan.mem_references_of_fieldsOn hf hname hmem)) hnone
  exact ⟨v, hv, hnonNull, hmem, hgiven⟩

namespace Response

/-- All errors of a rejected response are without a path. -/
theorem path_eq_none_of_isRejected {r : Response} (h : r.isRejected) :
    r.data.isNull ∧ ∀ e ∈ r.errors, e.path = none := by
  simp only [isRejected, Bool.and_eq_true, List.all_eq_true] at h
  refine ⟨h.1.1, fun e he => ?_⟩
  have hrefusal := h.2 e he
  unfold isRefusal at hrefusal
  split at hrefusal
  · assumption
  · cases hrefusal

end Response

end Gazette
