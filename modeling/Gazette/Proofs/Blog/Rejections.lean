import Gazette.Proofs.Blog.Effects
import Gazette.Proofs.Request.Failures
import Gazette.Proofs.Request.Unbound

/-!
# Requests that are rejected

A request that is refused changes nothing.  But a response can say that a request is rejected
although a mutation has run, since a variable that is not given is noticed only at the field that
uses it, when the fields before have run (`authors_of_isRejected`).  There is no other way
(`unchanged_of_isRejected`).
-/

namespace Gazette

namespace Blog

open Execution

/-- The fields that stand behind the first creation. -/
def behindCreations (fields : List FieldPlan) : List FieldPlan :=
  (fields.dropWhile fun f => !isCreation f).tail

theorem mem_behindCreations {before later : List FieldPlan} {f g : FieldPlan} (hg : g ∈ before)
    (hcreation : isCreation g) : f ∈ behindCreations (before ++ f :: later) := by
  induction before with
  | nil => cases hg
  | cons b rest ih =>
    rw [behindCreations, List.cons_append, List.dropWhile_cons]
    by_cases hb : isCreation b
    · simp [hb]
    · rcases List.mem_cons.1 hg with rfl | hg
      · exact absurd hcreation hb
      · rw [if_pos (by simpa using hb)]
        exact ih hg

/-- Fields of the mutation root that create nothing leave the store as it is. -/
theorem state_executeFields_of_not_isCreation (scope : BlogScope) {fields : List FieldPlan}
    (h : ∀ f ∈ fields, ¬ isCreation f) (p : Progress Store) :
    (executeFields scope mutationObject scope.root [] fields p).2.state = p.state := by
  induction fields with
  | nil => rfl
  | cons f rest ih =>
    obtain ⟨results, hok⟩ := executeOne_of_not_isCreation scope (h f (.head _)) p
    rw [executeFields_cons_of_ok _ _ _ _ hok]
    exact ih fun g hg => h g (.tail _ hg)

/-- A rejected request leaves the store as it is, unless a field behind a creation uses a variable
that cannot be null and is not given. -/
theorem unchanged_of_isRejected {request : Request} {s : Store}
    (h : (Service.schema.respond request s).1.isRejected)
    (hgiven : ∀ selected, Service.schema.select request = .ok selected →
      ∀ f ∈ behindCreations (Plan.fieldsOn mutationObject selected.plans),
      ∀ v ∈ selected.operation.declarations, v.type.isNonNull → v.name ∈ f.references →
        (request.given v.name).isSome) :
    (Service.schema.respond request s).2 = s := by
  cases hselect : Service.schema.select request with
  | error issues => rw [Schema.respond_of_select_error hselect]
  | ok selected =>
    rw [Schema.respond_of_select_ok hselect] at h ⊢
    rcases root_of_select hselect with ⟨-, hroot⟩ | ⟨-, hobject⟩
    · exact snd_respond_query rfl hroot selected.plans s
    · have hnotGiven {f : FieldPlan} := Schema.exists_not_given hselect (f := f)
      rw [hobject] at h hnotGiven ⊢
      obtain ⟨hstate, herrors, hdata⟩ := respond_eq
        (Service.schema.scope request selected.operation) mutationObject selected.plans s
      obtain ⟨hnull, hpaths⟩ := Response.path_eq_none_of_isRejected h
      rw [hnull] at hdata
      rw [herrors] at hpaths
      rw [hstate]
      rcases hrun : executeFields (Service.schema.scope request selected.operation) mutationObject
        (Service.schema.scope request selected.operation).root []
        (Plan.fieldsOn mutationObject selected.plans) ⟨s, []⟩ with ⟨e | results, p⟩
      · rw [hrun] at hpaths
        obtain ⟨before, f, later, hfields, hname, ⟨issue, hwritten⟩, hbefore⟩ :=
          exists_of_executeFields_error (fun field hfield => (ordinary_of_mem hfield).1) hrun
            (hpaths e (.head _))
        dsimp only
        rw [hbefore]
        refine state_executeFields_of_not_isCreation _ (fun g hg hcreation => ?_) _
        -- a creation before the error: then the variable at fault would have to be given
        obtain ⟨v, hv, hnonNull, hmem, hnone⟩ := hnotGiven
          (by rw [hfields]; exact List.mem_append_right _ (.head _)) hname hwritten
        have hsome := hgiven selected hselect f (hfields ▸ mem_behindCreations hg hcreation) v hv
          hnonNull hmem
        rw [hnone] at hsome
        cases hsome
      · rw [hrun] at hdata
        cases hdata

/-- A mutation that needs a name, which is not given, for the first of two authors. -/
def namelessMutation : Request where
  query :=
    "mutation($n: String!) \x7b a: createAuthor(id: \"a\", name: $n) \x7b id \x7d" ++
      " b: createAuthor(id: \"b\", name: \"B\") \x7b id \x7d \x7d"

theorem unchanged_of_isRejected_nameless :
    let s := Store.empty .epoch
    let outcome := Service.schema.respond namelessMutation s
    (∃ selected, Service.schema.select namelessMutation = .ok selected ∧
      (∃ v ∈ selected.operation.declarations, v.type.isNonNull ∧
        (namelessMutation.given v.name).isNone) ∧
      (behindCreations (Plan.fieldsOn mutationObject selected.plans)).length = 1) ∧
    outcome.1.isRejected ∧ outcome.2 = s := by
  have hrejected : (Service.schema.respond namelessMutation (.empty .epoch)).1.isRejected := by
    decide +kernel
  have hselects : Service.schema.selects namelessMutation fun selected =>
      (selected.operation.declarations.any fun v =>
        v.type.isNonNull && (namelessMutation.given v.name).isNone) &&
      (behindCreations (Plan.fieldsOn mutationObject selected.plans)).length = 1 &&
      (behindCreations (Plan.fieldsOn mutationObject selected.plans)).all fun f =>
        f.references.isEmpty := by
    decide +kernel
  obtain ⟨selected, hselect, hcheck⟩ := Schema.exists_of_selects hselects
  simp only [Bool.and_eq_true, decide_eq_true_eq, List.any_eq_true, List.all_eq_true,
    List.isEmpty_iff] at hcheck
  obtain ⟨⟨hungiven, hlength⟩, hnone⟩ := hcheck
  refine ⟨⟨selected, hselect, hungiven, hlength⟩, hrejected,
    unchanged_of_isRejected hrejected fun selected' hselect' f hf v _ _ hv => ?_⟩
  obtain rfl := Except.ok.inj (hselect.symm.trans hselect')
  rw [hnone f hf] at hv
  cases hv

/-- The same mutation with its authors in the other order. -/
def latelyNamelessMutation : Request where
  query :=
    "mutation($n: String!) \x7b b: createAuthor(id: \"b\", name: \"B\") \x7b id \x7d" ++
      " a: createAuthor(id: \"a\", name: $n) \x7b id \x7d \x7d"

/-- The first author is registered, and then the request is answered as rejected. -/
theorem authors_of_isRejected :
    let outcome := Service.schema.respond latelyNamelessMutation (.empty .epoch)
    outcome.1.isRejected ∧ outcome.2.authors = [⟨"b", "B", none⟩] ∧
      outcome.2 ≠ Store.empty .epoch := by
  have hauthors : (Service.schema.respond latelyNamelessMutation (.empty .epoch)).2.authors =
      [⟨"b", "B", none⟩] := by decide +kernel
  refine ⟨by decide +kernel, hauthors, fun heq => ?_⟩
  have hnone : (Service.schema.respond latelyNamelessMutation (.empty .epoch)).2.authors =
      [] := congrArg Store.authors heq
  rw [hauthors] at hnone
  cases hnone

end Blog

end Gazette
