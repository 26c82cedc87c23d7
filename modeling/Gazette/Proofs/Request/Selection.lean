import Gazette.Proofs.Lists
import Gazette.Proofs.Schema.Lookup
import Gazette.Request

/-!
# Selections on an object

`Plan.fieldsOn` lists the fields that selections select on an object: fragments that apply to the
object are opened, and others are left out.  Executing selections is executing these fields one
after the other (`executeAll_eq`).  Runs form a monad (`andThen_assoc`, `andThen_done`), which is
all that is needed for this.
-/

namespace Gazette

/-- A selected field with the selections inside it. -/
structure FieldPlan where
  head : FieldHead
  plans : List Plan
  deriving Inhabited

namespace FieldPlan

/-- The key under which a field is shown. -/
def key (f : FieldPlan) : String := f.head.key

/-- The selection of a field. -/
def toPlan (f : FieldPlan) : Plan := .field f.head f.plans

end FieldPlan

namespace Plan

variable {σ ν : Type}

mutual

/-- The fields that selections select on an object, in order. -/
def fieldsOn (o : ObjectType σ ν) : List Plan → List FieldPlan
  | [] => []
  | p :: rest => p.fieldsOneOn o ++ fieldsOn o rest

/-- The fields that one selection selects on an object. -/
def fieldsOneOn (o : ObjectType σ ν) : Plan → List FieldPlan
  | .field head plans => [⟨head, plans⟩]
  | .fragment _ condition _ plans =>
    if Execution.applies o condition then fieldsOn o plans else []
  | .missing _ => []

end

theorem fieldsOn_append (o : ObjectType σ ν) (plans further : List Plan) :
    fieldsOn o (plans ++ further) = fieldsOn o plans ++ fieldsOn o further := by
  induction plans with
  | nil => simp [fieldsOn]
  | cons p rest ih => simp [fieldsOn, ih]

end Plan

namespace Execution

namespace Run

variable {σ α β γ : Type}

/-! ## Laws of runs -/

theorem andThen_done (run : Run σ α) : run.andThen done = run := by
  funext p
  unfold andThen done
  rcases run p with ⟨_ | a, p'⟩ <;> rfl

theorem done_andThen (a : α) (next : α → Run σ β) : (done a).andThen next = next a := rfl

theorem andThen_assoc (run : Run σ α) (next : α → Run σ β) (last : β → Run σ γ) :
    (run.andThen next).andThen last = run.andThen fun a => (next a).andThen last := by
  funext p
  unfold andThen
  rcases run p with ⟨_ | a, p'⟩ <;> rfl

theorem andThen_of_ok {run : Run σ α} {next : α → Run σ β} {p p' : Progress σ} {a : α}
    (h : run p = (.ok a, p')) : run.andThen next p = next a p' := by
  rw [andThen, h]

theorem andThen_of_error {run : Run σ α} {next : α → Run σ β} {p p' : Progress σ}
    {e : ResponseError} (h : run p = (.error e, p')) : run.andThen next p = (.error e, p') := by
  rw [andThen, h]

theorem mapResult_apply (run : Run σ α) (f : α → β) (p : Progress σ) :
    run.mapResult f p = ((run p).1.map f, (run p).2) := by
  unfold mapResult andThen
  rcases run p with ⟨_ | a, p'⟩ <;> rfl

theorem position_of_ok {run : Run σ Value} {p p' : Progress σ} {value : Value}
    (h : run p = (.ok value, p')) (type : TypeRef) (path : Path) :
    position type path run p = (.ok value, p') := by
  rw [position, h]

theorem position_of_error {run : Run σ Value} {p p' : Progress σ} {e : ResponseError}
    (h : run p = (.error e, p')) {type : TypeRef} (htype : type.isNonNull) (path : Path) :
    position type path run p = (.error { e with path := e.path.or (some path) }, p') := by
  rw [position, h]
  simp only [htype, if_true]

theorem mapResult_id (run : Run σ α) : (run.mapResult fun a => a) = run := andThen_done run

end Run

variable {σ ν : Type}

/-- The arguments that a field is resolved with, for arguments as they are written; none if a
variable has no value, or they do not bind. -/
def Scope.boundArguments? (scope : Scope σ ν) (field : Field σ ν) (arguments : Arguments) :
    Option BoundArguments := do
  let values ← (scope.written arguments).toOption
  (scope.registry.bind field.name field.arguments (withDefaults field.arguments values)).toOption

theorem Scope.boundArguments?_eq_some_iff {scope : Scope σ ν} {field : Field σ ν}
    {arguments : Arguments} {b : BoundArguments} : scope.boundArguments? field arguments = some b ↔
      ∃ values, scope.written arguments = .ok values ∧
        scope.registry.bind field.name field.arguments
        (withDefaults field.arguments values) = .ok b := by
  simp only [boundArguments?, Option.bind_eq_bind, Option.bind_eq_some_iff, toOption_eq_some_iff]

/-! ## Execution of fields -/

variable [Node ν]

/-- The results of fields on a value of an object type, one after the other. -/
def executeFields (scope : Scope σ ν) (object : ObjectType σ ν) (parent : ν) (path : Path) :
    List FieldPlan → Run σ (List (String × Value))
  | [] => .done []
  | f :: rest =>
    (executeOne scope object parent path f.toPlan).andThen fun first =>
      (executeFields scope object parent path rest).mapResult (first ++ ·)

variable (scope : Scope σ ν) (object : ObjectType σ ν) (parent : ν) (path : Path)

theorem executeFields_cons_of_ok {f : FieldPlan} {p p' : Progress σ} {first : List (String × Value)}
    (h : executeOne scope object parent path f.toPlan p = (.ok first, p')) (rest : List FieldPlan) :
    executeFields scope object parent path (f :: rest) p =
      ((executeFields scope object parent path rest p').1.map (first ++ ·),
        (executeFields scope object parent path rest p').2) := by
  rw [executeFields, Run.andThen_of_ok h, Run.mapResult_apply]

theorem executeFields_append (fields further : List FieldPlan) :
    executeFields scope object parent path (fields ++ further) =
      (executeFields scope object parent path fields).andThen fun first =>
        (executeFields scope object parent path further).mapResult (first ++ ·) := by
  induction fields with
  | nil => simp only [List.nil_append, executeFields, Run.done_andThen, Run.mapResult_id]
  | cons f rest ih =>
    simp only [List.cons_append, executeFields, ih, Run.andThen_assoc]
    congr 1
    funext first
    simp only [Run.mapResult, Run.andThen_assoc, Run.done_andThen, List.append_assoc]

theorem executeFields_singleton (f : FieldPlan) :
    executeFields scope object parent path [f] = executeOne scope object parent path f.toPlan := by
  simp only [executeFields, Run.mapResult, Run.done_andThen, List.append_nil, Run.andThen_done]

mutual

/-- Selections run as the fields that they select. -/
theorem executeAll_eq (plans : List Plan) :
    executeAll scope object parent path plans =
      executeFields scope object parent path (Plan.fieldsOn object plans) := by
  cases plans with
  | nil => simp only [executeAll, Plan.fieldsOn, executeFields]
  | cons p rest =>
    rw [executeAll, Plan.fieldsOn, executeFields_append, executeOne_eq p, executeAll_eq rest]

theorem executeOne_eq (p : Plan) :
    executeOne scope object parent path p =
      executeFields scope object parent path (p.fieldsOneOn object) := by
  cases p with
  | field head plans =>
    rw [Plan.fieldsOneOn, executeFields_singleton]
    rfl
  | fragment name condition directives plans =>
    rw [executeOne, Plan.fieldsOneOn]
    split
    · exact executeAll_eq plans
    · rfl
  | missing name => simp only [executeOne, Plan.fieldsOneOn, executeFields]

end

/-! ## Responses -/

/-- The error that a run fails with, if it does. -/
def raised {α : Type} : Except ResponseError α → List ResponseError
  | .ok _ => []
  | .error e => [e]

@[simp]
theorem raised_map {α β : Type} (x : Except ResponseError α) (f : α → β) :
    raised (x.map f) = raised x := by
  cases x <;> rfl

@[simp]
theorem isOk_map {α β : Type} (x : Except ResponseError α) (f : α → β) :
    (x.map f).isOk = x.isOk := by
  cases x <;> rfl

/-- A response has data if its fields all run, and it has the error that they fail with before those
that are recorded. -/
theorem respond_eq (plans : List Plan) (s : σ) :
    let outcome := executeFields scope object scope.root [] (Plan.fieldsOn object plans) ⟨s, []⟩
    (respond scope object plans s).2 = outcome.2.state ∧
      (respond scope object plans s).1.errors = raised outcome.1 ++ outcome.2.recorded ∧
      (!(respond scope object plans s).1.data.isNull) = outcome.1.isOk := by
  intro outcome
  rw [respond, executeAll_eq]
  rcases h : executeFields scope object scope.root [] (Plan.fieldsOn object plans) ⟨s, []⟩ with
    ⟨e | results, p⟩
  · rw [show outcome = _ from h]
    exact ⟨rfl, rfl, rfl⟩
  · rw [show outcome = _ from h]
    exact ⟨rfl, rfl, rfl⟩

end Execution

/-! ## Requests -/

namespace Schema

variable {σ ν : Type}

/-- The scope in which an operation of a request runs. -/
def scope (schema : Schema σ ν) (request : Request) (o : Operation) :
    Execution.Scope σ (Subject ν) :=
  ⟨schema.executable, .value schema.root, request.query.toList, request.given, o.declarations⟩

variable {schema : Schema σ ν} {request : Request}

/-- What is run is what is left of an operation of the document that the text of the request holds
and that passes validation. -/
theorem exists_document_of_select {selected : Selected σ (Subject ν)}
    (h : schema.select request = .ok selected) : ∃ d plans,
      Document.ofText? request.query = some d ∧
      Validation.documentIssues (schema.validationScope request) d schema.depthLimit = [] ∧
      d.select? request.operation = some selected.operation ∧
      rootOf? schema.executable selected.operation.kind = some selected.root ∧
      Plan.expand d schema.depthLimit selected.operation.selections = some plans ∧
      selected.plans = Plan.prune request.given plans := by
  unfold select at h
  split at h
  · cases h
  · rename_i d hread
    split at h
    · rename_i hissues
      split at h
      · cases h
      · rename_i hselect
        split at h
        · rename_i plans hroot hexpand
          cases h
          exact ⟨d, plans, hread, hissues, hselect, hroot, hexpand, rfl⟩
        · cases h
        · cases h
    · cases h

theorem exists_of_select {selected : Selected σ (Subject ν)}
    (h : schema.select request = .ok selected) : ∃ d plans,
      Validation.documentIssues (schema.validationScope request) d schema.depthLimit = [] ∧
      d.select? request.operation = some selected.operation ∧
      rootOf? schema.executable selected.operation.kind = some selected.root ∧
      Plan.expand d schema.depthLimit selected.operation.selections = some plans ∧
      selected.plans = Plan.prune request.given plans := by
  obtain ⟨d, plans, -, hfacts⟩ := exists_document_of_select h
  exact ⟨d, plans, hfacts⟩

theorem rootOf?_of_select {selected : Selected σ (Subject ν)}
    (h : schema.select request = .ok selected) :
    rootOf? schema.executable selected.operation.kind = some selected.root := by
  obtain ⟨-, -, -, -, hroot, -⟩ := exists_of_select h
  exact hroot

theorem object?_name_of_rootOf? {r : Registry σ ν} {kind : OperationKind} {root : ObjectType σ ν}
    (h : rootOf? r kind = some root) : r.object? root.name = some root := by
  have hfound (name : String) (hname : r.object? name = some root) :
      r.object? root.name = some root := by
    rwa [(Registry.mem_of_object? hname).2]
  cases kind with
  | query => exact hfound _ h
  | mutation =>
    obtain ⟨name, -, hname⟩ := Option.bind_eq_some_iff.1 h
    exact hfound name hname
  | subscription => cases h

theorem object?_root_of_select {selected : Selected σ (Subject ν)}
    (h : schema.select request = .ok selected) :
    schema.executable.object? selected.root.name = some selected.root :=
  object?_name_of_rootOf? (rootOf?_of_select h)

variable [Node ν]

theorem respond_of_select_error {issues : List Issue} (h : schema.select request = .error issues)
    (s : σ) : schema.respond request s = (Response.refusal issues, s) := by
  rw [respond, h]

theorem respond_of_select_ok {selected : Selected σ (Subject ν)}
    (h : schema.select request = .ok selected) (s : σ) : schema.respond request s =
      Execution.respond (schema.scope request selected.operation) selected.root selected.plans
        s := by
  rw [respond, h]
  rfl

end Schema

end Gazette
