import Gazette.Proofs.Request.Introspection
import Gazette.Proofs.Request.Visits

/-!
# Failures of fields

The failures of a run are its visits where a field failed (`Trace.failures`).  Each of them is
reported once, with its own path, whatever becomes of the positions around it (`failures_settle`).
So the errors of a response are the failures of its run (`Schema.errors_eq_failures`).
-/

namespace Gazette

/-- The failure of a field: its path, the error, and the place of the field in the text. -/
structure Failure where
  path : Path
  error : FieldError
  location : Location
  deriving DecidableEq

namespace Failure

/-- A failure as it is met below a path. -/
def within (path : Path) (f : Failure) : Failure := { f with path := path ++ f.path }

theorem map_within_nil (fs : List Failure) : fs.map (within []) = fs := by
  have hid : within [] = id := rfl
  rw [hid, List.map_id]

theorem map_within_append (path more : Path) (fs : List Failure) :
    fs.map (within (path ++ more)) = (fs.map (within more)).map (within path) := by
  rw [List.map_map]
  refine List.map_congr_left fun f _ => ?_
  simp only [Function.comp, within, List.append_assoc]

end Failure

/-- The failure that an error reports, if it is one of a field.  An error without a path belongs to
the position at `around`. -/
def ResponseError.failure? (around : Path) (e : ResponseError) : Option Failure :=
  match e.cause with
  | .field error location => some ⟨e.path.getD around, error, location⟩
  | .request _ => none

theorem ResponseError.failure?_withPath (path around : Path) (e : ResponseError) :
    failure? around { e with path := e.path.or (some path) } = failure? path e := by
  obtain ⟨cause, _ | at'⟩ := e <;> rfl

namespace Execution

namespace Visit

/-- The failure of a field at the visit. -/
def failure? (v : Visit) : Option Failure :=
  match v.trace with
  | .failure (.field error location) => some ⟨v.path, error, location⟩
  | _ => none

theorem failure?_below (step : Step) (v : Visit) :
    (v.below step).failure? = v.failure?.map (Failure.within step.path) := by
  obtain ⟨place, _ | value | ⟨error, location⟩ | issue | ⟨item, items⟩ | members⟩ := v <;> rfl

theorem filterMap_failure?_below (step : Step) (vs : List Visit) :
    (vs.map (below step)).filterMap failure? =
      (vs.filterMap failure?).map (Failure.within step.path) := by
  rw [List.filterMap_map, List.map_filterMap]
  simp only [Function.comp_def, failure?_below]

end Visit

/-- The failures of fields in a run with the trace, in order. -/
def Trace.failures (t : Trace) : List Failure := t.visits.filterMap Visit.failure?

/-! ## What is reported -/

namespace Settled

variable {α β : Type}

/-- The failures that are reported below a path: those recorded, and then the one that the run fails
with. -/
def failures (path : Path) (x : Settled α) : List Failure :=
  x.caught.filterMap (ResponseError.failure? []) ++
    (raised x.outcome).filterMap (ResponseError.failure? path)

theorem failures_of_ok {x : Settled α} {a : α} (h : x.outcome = .ok a) (path : Path) :
    x.failures path = x.caught.filterMap (ResponseError.failure? []) := by
  rw [failures, h, raised, List.filterMap_nil, List.append_nil]

theorem failures_of_error {x : Settled α} {e : ResponseError} (h : x.outcome = .error e)
    (path : Path) : x.failures path =
      x.caught.filterMap (ResponseError.failure? []) ++ (e.failure? path).toList := by
  rw [failures, h, raised, List.filterMap_cons]
  cases e.failure? path <;> rfl

theorem failures_map (path : Path) (f : α → β) (x : Settled α) :
    (x.map f).failures path = x.failures path := by
  simp only [failures, map, raised_map]

theorem failures_andThen_map {γ : Type} (path : Path) (x : Settled α) (y : Settled β)
    (f : α → β → γ) : (x.andThen fun a => y.map (f a)).failures path =
      x.failures path ++ if x.outcome.isOk then y.failures path else [] := by
  cases h : x.outcome with
  | error e =>
    rw [andThen_of_error h, failures_of_error h, failures_of_error rfl]
    exact (List.append_nil _).symm
  | ok a =>
    rw [andThen_of_ok h, failures_of_ok h, ← failures_map path (f a) y]
    simp only [failures, List.filterMap_append, List.append_assoc]
    rfl

/-- A position reports what is inside it, under its own path. -/
theorem failures_position (type : TypeRef) (path around : Path) (x : Settled Value) :
    (x.position type path).failures around = x.failures path := by
  cases h : x.outcome with
  | ok value => rw [position_of_ok h, failures_of_ok h, failures_of_ok h]
  | error e =>
    rw [position_of_error h, failures_of_error h]
    cases type.isNonNull with
    | true => rw [if_pos rfl, failures_of_error rfl, ResponseError.failure?_withPath]
    | false =>
      rw [if_neg Bool.false_ne_true, failures_of_ok rfl, List.filterMap_append,
        List.filterMap_cons, ResponseError.failure?_withPath]
      cases e.failure? path <;> rfl

end Settled

namespace Trace

mutual

/-- What a trace settles to reports its failures, each once and in order. -/
theorem failures_settle (path : Path) (t : Trace) :
    (t.settle path).failures path = t.failures.map (Failure.within path) := by
  cases t with
  | null => rfl
  | leaf value => rfl
  | failure cause =>
    cases cause with
    | field error location =>
      show [Failure.mk path error location] = [Failure.mk (path ++ []) error location]
      rw [List.append_nil]
    | request issue => rfl
  | list item items =>
    rw [settle, Settled.failures_map, failures_settleItems path item 0 items]
    rfl
  | object members =>
    rw [settle, Settled.failures_map, failures_settleMembers path members]
    rfl

theorem failures_settleItems (path : Path) (item : TypeRef) (i : Nat) (items : List Trace) :
    (settleItems path item i items).failures path =
      ((visitsOfItems item i items).filterMap Visit.failure?).map (Failure.within path) := by
  cases items with
  | nil => rfl
  | cons t rest =>
    have hitem : (Step.item item i).path = [.index i] := rfl
    rw [settleItems, Settled.failures_andThen_map, Settled.failures_position,
      isOk_position_settle (isOk_settle _ t), failures_settle _ t,
      failures_settleItems path item (i + 1) rest, visitsOfItems, List.filterMap_append,
      Visit.filterMap_failure?_below, List.map_append, hitem, ← Failure.map_within_append]
    cases item.isNonNull && t.fails <;> rfl

theorem failures_settleMembers (path : Path) (members : List (Slot × Trace)) :
    (settleMembers path members).failures path =
      ((visitsOfMembers members).filterMap Visit.failure?).map (Failure.within path) := by
  cases members with
  | nil => rfl
  | cons m rest =>
    obtain ⟨slot, t⟩ := m
    rw [settleMembers, Settled.failures_andThen_map, isOk_settleMember,
      failures_settleMember path (slot, t), failures_settleMembers path rest, visitsOfMembers,
      List.filterMap_append, Visit.filterMap_failure?_below, List.map_append,
      ← Failure.map_within_append]
    dsimp only
    cases slot.passes && t.fails <;> rfl

theorem failures_settleMember (path : Path) (m : Slot × Trace) :
    (settleMember path m).failures path =
      m.2.failures.map (Failure.within (path ++ m.1.step.path)) := by
  obtain ⟨slot, t⟩ := m
  unfold settleMember Slot.step Step.path
  cases slot.isPosition with
  | true => rw [if_pos rfl, if_pos rfl, Settled.failures_position, failures_settle _ t]
  | false =>
    rw [if_neg Bool.false_ne_true, if_neg Bool.false_ne_true, failures_settle path t,
      List.append_nil]

end

/-! ## The paths of failures -/

/-- Whether no field of the trace fails. -/
def IsSilent (t : Trace) : Prop := ∀ v ∈ t.visits, v.failure? = none

/-- Whether the fields that fail are reported where their results would stand. -/
def ReportsRoutes (t : Trace) : Prop := ∀ v ∈ t.visits, v.failure?.isSome → v.path = v.route

theorem IsSilent.reportsRoutes {t : Trace} (h : t.IsSilent) : t.ReportsRoutes := by
  intro v hv hfailure
  rw [h v hv] at hfailure
  cases hfailure

theorem isSilent_object {members : List (Slot × Trace)} (h : ∀ m ∈ members, m.2.IsSilent) :
    (object members).IsSilent := by
  intro v hv
  rcases mem_visits_iff.1 hv with rfl | ⟨c, hc, w, hw, rfl⟩
  · rfl
  · obtain ⟨slot, hslot, -⟩ := exists_of_mem_ranMembers hc
    rw [Visit.failure?_below, h _ hslot w hw]
    rfl

theorem closed_isSilent : Closed IsSilent where
  null := by simp [IsSilent, visits, Visit.failure?]
  leaf value := by simp [IsSilent, visits, Visit.failure?]
  request issue := by simp [IsSilent, visits, Visit.failure?]
  list item items h v hv := by
    rcases mem_visits_iff.1 hv with rfl | ⟨c, hc, w, hw, rfl⟩
    · rfl
    · rw [Visit.failure?_below, h _ (mem_of_mem_ranItems hc).1 w hw]
      rfl

/-- A failure below a position is reported at its place if it is so from the position on. -/
theorem ReportsRoutes.below {t : Trace} (h : t.ReportsRoutes) {step : Step}
    (hstep : step.isPosition) {w : Visit} (hw : w ∈ t.visits)
    (hfailure : (w.below step).failure?.isSome) : (w.below step).path = (w.below step).route := by
  rw [Visit.failure?_below, Option.isSome_map] at hfailure
  have hpath : (w.below step).path = step.segment :: w.path := by
    simp [Visit.path, Visit.below, Step.path, hstep]
  rw [hpath, h w hw hfailure]
  rfl

theorem reportsRoutes_object {members : List (Slot × Trace)}
    (h : ∀ m ∈ members, m.2.IsSilent ∨ m.1.isPosition ∧ m.2.ReportsRoutes) :
    (object members).ReportsRoutes := by
  intro v hv hfailure
  rcases mem_visits_iff.1 hv with rfl | ⟨c, hc, w, hw, rfl⟩
  · rfl
  · obtain ⟨slot, hslot, hstep⟩ := exists_of_mem_ranMembers hc
    rcases h _ hslot with hsilent | ⟨hposition, hroutes⟩
    · rw [Visit.failure?_below, hsilent w hw] at hfailure
      cases hfailure
    · rw [hstep] at hfailure ⊢
      exact hroutes.below hposition hw hfailure

theorem closed_reportsRoutes : Closed ReportsRoutes where
  null := (closed_isSilent.null).reportsRoutes
  leaf value := (closed_isSilent.leaf value).reportsRoutes
  request issue := (closed_isSilent.request issue).reportsRoutes
  list item items h v hv hfailure := by
    rcases mem_visits_iff.1 hv with rfl | ⟨c, hc, w, hw, rfl⟩
    · rfl
    · obtain ⟨ht, j, hstep⟩ := mem_of_mem_ranItems hc
      rw [hstep] at hfailure ⊢
      exact (h _ ht).below rfl hw hfailure

theorem reportsRoutes_failure (cause : Cause) : (failure cause).ReportsRoutes := by
  intro v hv _
  obtain rfl := List.mem_singleton.1 hv
  rfl

end Trace

end Execution

/-- Whether the fields that lead out of the objects of a registry lead to objects of their own, and
nothing leads back from these. -/
structure Registry.Separates {σ ν : Type} (r : Registry σ ν) (own : ObjectType σ ν → Prop) :
    Prop where
  introspective : ∀ o, own o → ∀ f ∈ o.fields, f.role = .introspective
  leads : ∀ o, own o → ∀ f ∈ o.fields, ∀ o', r.Possible f.type.baseName o' → own o'
  gateway : ∀ o, .object o ∈ r.types → ∀ f ∈ o.fields, f.role = .gateway →
    ∀ o', r.Possible f.type.baseName o' → own o'

namespace Execution

variable {σ ν : Type} [Node ν] {scope : Scope σ ν} {own : ObjectType σ ν → Prop}

/-- Fields of parts of a schema fail without a code, and other fields are positions. -/
theorem sustains_of_separates (h : scope.registry.Separates own) :
    scope.Sustains (fun o => scope.registry.object? o.name = some o) fun o m =>
      (own o → m.2.IsSilent) ∧ (m.2.IsSilent ∨ m.1.isPosition ∧ m.2.ReportsRoutes) where
  typeName o key := by
    have hsilent := Trace.closed_isSilent.leaf (.string o.name)
    exact ⟨fun _ => hsilent, .inl hsilent⟩
  field o ho name f hfound inside hinside head parent s := by
    have hf : f ∈ o.fields := List.mem_of_find?_eq_some hfound
    have hdeclared := Registry.field?_of_object ho hfound
    unfold traceAt
    cases scope.written head.arguments with
    | error issue =>
      have hsilent := Trace.closed_isSilent.request issue
      exact ⟨fun _ => hsilent, .inl hsilent⟩
    | ok values =>
      have silent (hrole : f.role ≠ .ordinary)
          (hown : ∀ o', scope.registry.Possible f.type.baseName o' → own o') :
          (traceWith scope inside o.name f head parent values s).1.IsSilent := by
        refine Trace.closed_isSilent.traceWith (fun o' v s ho' => ?_) (fun e => ?_) hdeclared
          _ _ _
        · obtain ⟨members, heq, hmembers⟩ := hinside o' v s ho'.object?_eq
          rw [heq]
          exact Trace.isSilent_object fun m hm => (hmembers m hm).1 (hown o' ho')
        · -- only an ordinary field fails with a code
          unfold causeOf
          split
          · exact absurd ‹_› hrole
          · exact Trace.closed_isSilent.request _
          · exact Trace.closed_isSilent.request _
      have routes : (traceWith scope inside o.name f head parent values s).1.ReportsRoutes := by
        refine Trace.closed_reportsRoutes.traceWith (fun o' v s ho' => ?_)
          (fun e => Trace.reportsRoutes_failure _) hdeclared _ _ _
        obtain ⟨members, heq, hmembers⟩ := hinside o' v s ho'.object?_eq
        rw [heq]
        exact Trace.reportsRoutes_object fun m hm => (hmembers m hm).2
      refine ⟨fun hown => ?_, ?_⟩
      · exact silent (by rw [h.introspective o hown f hf]; exact nofun) (h.leads o hown f hf)
      · cases hrole : f.role with
        | ordinary => exact .inr ⟨rfl, routes⟩
        | introspective => exact .inr ⟨rfl, routes⟩
        | gateway =>
          exact .inl (silent (by rw [hrole]; exact nofun)
            (h.gateway o (Registry.mem_of_object? ho).1 f hf hrole))

end Execution

variable {σ ν : Type}

/-- Requests that ask for the schema do not come back to its values. -/
theorem Introspection.Installed.separates {r : Registry σ ν} {root : ν}
    (h : Installed r.knowledge (r.withIntrospection root)) :
    (r.withIntrospection root).Separates fun o => .object o ∈ types r.knowledge where
  introspective o ho f hf := (introspective_of_mem ho f hf).1
  leads o ho f hf o' ho' := h.mem_types_of_possible (introspective_of_mem ho f hf).2 ho'
  gateway o ho f hf hrole o' ho' := by
    have hown : f ∈ rootFields (σ := σ) (ν := ν) r.knowledge → .object o' ∈ types r.knowledge := by
      intro hf
      refine h.mem_types_of_possible ?_ ho'
      rw [names_types]
      simp only [rootFields, List.mem_cons, List.not_mem_nil, or_false] at hf
      rcases hf with rfl | rfl <;> simp [TypeRef.baseName, TypeRef.namedNonNull, TypeRef.required]
    rcases Registry.mem_withIntrospection ho with ⟨b, hb, rfl⟩ | ho
    · rcases List.mem_append.1 hf with hf | hf
      · obtain ⟨g, hg, rfl⟩ := List.mem_map.1 hf
        cases hrole
      · split at hf
        · exact hown hf
        · cases hf
    · rw [(introspective_of_mem ho f hf).1] at hrole
      cases hrole

/-! ## Responses -/

namespace Schema

variable [Node ν] {schema : Schema σ ν} {request : Request} {selected : Selected σ (Subject ν)}

open Execution (raised)

/-- The errors with a code of a response are the failures of fields during its run, each reported
once with its path.  The one that leaves no data comes first, the others follow as they are
caught.  The path is where the result of the field would stand; for the fields of types that take
the names of introspection this is so where requests do not ask for the schema. -/
theorem errors_eq_failures (h : schema.select request = .ok selected) (s : σ) :
    let run := Execution.executeAll (schema.scope request selected.operation) selected.root
      (.value schema.root) [] selected.plans ⟨s, []⟩
    let response := (schema.respond request s).1
    let trace := schema.trace request selected s
    response.errors = raised run.1 ++ run.2.recorded ∧
      response.data.isNull = !run.1.isOk ∧
      (run.2.recorded ++ raised run.1).filterMap (ResponseError.failure? []) = trace.failures ∧
      ∀ v ∈ trace.visits, v.failure?.isSome → (∀ step ∈ v.place, step.isPosition) ∨
        Introspection.Installed schema.registry.knowledge schema.executable →
        v.path = v.route := by
  intro run response trace
  have hresponse := Execution.respond_eq (schema.scope request selected.operation) selected.root
    selected.plans s
  rw [← Execution.executeAll_eq, ← respond_of_select_ok h] at hresponse
  obtain ⟨-, herrors, hdata⟩ := hresponse
  refine ⟨herrors, ?_, ?_, fun v hv hfailure => ?_⟩
  · rw [← Bool.not_not response.data.isNull]
    exact congrArg _ hdata
  · have hcomes := Execution.executeAll_comes (schema.scope request selected.operation)
      selected.root (.value schema.root) [] selected.plans s []
    have hfailures := Execution.Trace.failures_settleMembers [] (Execution.traceAll
      (schema.scope request selected.operation) selected.root (.value schema.root) selected.plans
      s).1
    rw [Failure.map_within_nil] at hfailures
    show (run.2.recorded ++ raised run.1).filterMap _ = _
    rw [show run = _ from hcomes, List.nil_append, List.filterMap_append]
    exact hfailures
  · rintro (hplace | hinstalled)
    · exact Execution.Visit.path_eq_route hplace
    have hroutes : trace.ReportsRoutes := Execution.Trace.reportsRoutes_object fun m hm =>
      (Execution.forall_traceAll (Execution.sustains_of_separates hinstalled.separates)
        (object?_root_of_select h) _ _ s m hm).2
    exact hroutes v hv hfailure

/-! ### A small schema -/

omit [Node ν] in
/-- Whether a request is accepted, and what it runs passes a check. -/
def selects (schema : Schema σ ν) (request : Request)
    (check : Selected σ (Subject ν) → Bool) : Bool :=
  match schema.select request with
  | .ok selected => check selected
  | .error _ => false

omit [Node ν] in
theorem check_of_selects {check : Selected σ (Subject ν) → Bool} (h : schema.selects request check)
    (hselect : schema.select request = .ok selected) : check selected := by
  rwa [selects, hselect] at h

omit [Node ν] in
theorem exists_of_selects {check : Selected σ (Subject ν) → Bool}
    (h : schema.selects request check) :
    ∃ selected, schema.select request = .ok selected ∧ check selected := by
  unfold selects at h
  split at h
  · exact ⟨_, by assumption, h⟩
  · cases h

end Schema

namespace Bookshop

/-- What fields are resolved on in a small schema: the shop, and its books with their titles. -/
inductive Thing where
  | shop
  | book (title : String)

instance : Node Thing where
  typeName
    | .shop => none
    | .book _ => some "Book"
  part
    | .book title, "title" => some (.string title)
    | _, _ => none

/-- A field with the same result on everything. -/
def constant (name : String) (type : TypeRef) (result : FieldValue Thing) : Field Unit Thing where
  name := name
  type := type
  resolver := some fun _ _ s => (.ok result, s)

/-- Books have titles, but none of the other attributes. -/
def book : ObjectType Unit Thing where
  name := "Book"
  fields := [
    { name := "title", type := .namedNonNull builtin.string },
    { name := "isbn", type := .namedNonNull builtin.string },
    { name := "blurb", type := .named builtin.string }]

/-- The root of the shop. -/
def shop : ObjectType Unit Thing where
  name := "Shop"
  fields := [
    constant "owner" (.namedNonNull builtin.string) (.string "Ada"),
    constant "motto" (.named builtin.string) .null,
    constant "till" (.namedNonNull builtin.string) .null,
    constant "best" (.named "Book") (.node (.book "Emma")),
    constant "shelf" (.namedListNonNull "Book") (.nodes [.book "Emma", .book "Persuasion"])]

/-- The schema of the shop. -/
def schema : Schema Unit Thing where
  registry := ⟨Registry.builtinScalars.map .scalar ++ [.object book, .object shop], "Shop", none⟩
  root := .shop
  depthLimit := Schema.defaultDepthLimit

theorem installed : Introspection.Installed schema.registry.knowledge schema.executable :=
  Introspection.installed_of_nodup (by decide +kernel) fun _ ht =>
    List.mem_append_left _ (List.mem_map_of_mem ht)

/-- Where fields fail in books of a list, and then a field for which there can be no null. -/
def failingQuery : Request where
  query := "\x7b top: shelf \x7b title blurb isbn \x7d till best \x7b isbn \x7d \x7d"

/-- The failures in the books are reported although there is no data in the end. -/
theorem errors_eq_failures_shelf :
    ∃ selected, schema.select failingQuery = .ok selected ∧
      let trace := schema.trace failingQuery selected ()
      let response := (schema.respond failingQuery ()).1
      response.data.isNull ∧
      trace.failures.map Failure.path = [[.key "top", .index 0, .key "blurb"],
        [.key "top", .index 0, .key "isbn"], [.key "top", .index 1, .key "blurb"],
        [.key "top", .index 1, .key "isbn"], [.key "till"]] ∧
      (∃ nulling caught, response.errors = nulling :: caught ∧
        (caught ++ [nulling]).filterMap (ResponseError.failure? []) = trace.failures) ∧
      ∀ v ∈ trace.visits, v.failure?.isSome → v.path = v.route := by
  have hnull : (schema.respond failingQuery ()).1.data.isNull = true := by decide +kernel
  have hselects : schema.selects failingQuery fun selected =>
      (schema.trace failingQuery selected ()).failures.map Failure.path =
        [[.key "top", .index 0, .key "blurb"], [.key "top", .index 0, .key "isbn"],
          [.key "top", .index 1, .key "blurb"], [.key "top", .index 1, .key "isbn"],
          [.key "till"]] := by
    decide +kernel
  obtain ⟨selected, hselect, hpaths⟩ := Schema.exists_of_selects hselects
  obtain ⟨herrors, hdata, hfailures, hroutes⟩ := Schema.errors_eq_failures hselect ()
  refine ⟨selected, hselect, hnull, of_decide_eq_true hpaths, ?_, fun v hv hfailure =>
    hroutes v hv hfailure (.inr installed)⟩
  rw [hnull, ← Bool.not_eq_eq_eq_not, Bool.not_true] at hdata
  cases hrun : (Execution.executeAll (schema.scope failingQuery selected.operation) selected.root
    (.value schema.root) [] selected.plans ⟨(), []⟩).1 with
  | ok results => rw [hrun] at hdata; cases hdata
  | error e =>
    rw [hrun] at herrors hfailures
    exact ⟨e, _, herrors, hfailures⟩

end Bookshop

end Gazette
