import Gazette.Proofs.Request.Failures
import Gazette.Proofs.Schema.Rearranged

/-!
# Registrations in another order

The order of registrations is not seen by requests that do not ask for the schema: validation finds
the same issues (`Validation.Scope.Agrees.documentIssues_eq`), and what is selected runs alike, so
that responses are the same (`Schema.respond_rearranged`).  With what single registrations do, this
is the theorem on sequences of registrations (`Registry.attemptAll_built`).
-/

namespace Gazette

variable {σ ν : Type}

namespace Validation

/-! ## Validation -/

/-- Whether two scopes answer alike what validation asks them. -/
structure Scope.Agrees (a b : Scope) : Prop where
  find : a.find? = b.find?
  overlap : a.overlap = b.overlap
  query : a.query = b.query
  mutation : a.mutation = b.mutation
  given : a.given = b.given

variable {a b : Scope}

theorem Scope.Agrees.namedHas_eq (h : a.Agrees b) : namedHas a = namedHas b := by
  funext name value
  unfold namedHas
  rw [h.find]

theorem Scope.Agrees.has_eq (h : a.Agrees b) (type : TypeRef) : has a type = has b type := by
  induction type with
  | named name =>
    funext value
    rw [has, has, h.namedHas_eq]
  | nonNull inner ih =>
    funext value
    rw [has, has, ih]
  | list item ih =>
    funext value
    unfold has
    rw [ih]

theorem Scope.Agrees.valueIssues_eq (h : a.Agrees b) : valueIssues a = valueIssues b := by
  funext spec literal
  unfold valueIssues
  rw [h.given, h.has_eq]

theorem Scope.Agrees.argumentIssues_eq (h : a.Agrees b) : argumentIssues a = argumentIssues b := by
  funext specs arguments
  unfold argumentIssues
  rw [h.valueIssues_eq]

theorem Scope.Agrees.directiveIssues_eq (h : a.Agrees b) :
    directiveIssues a = directiveIssues b := by
  funext directives
  unfold directiveIssues
  rw [h.argumentIssues_eq]

theorem Scope.Agrees.fieldIssues_eq (h : a.Agrees b) : fieldIssues a = fieldIssues b := by
  funext declarations head field target plans
  unfold fieldIssues
  rw [h.directiveIssues_eq, h.argumentIssues_eq]

mutual

theorem Scope.Agrees.planIssues_eq (h : a.Agrees b) (declarations : List VariableDeclaration)
    (type : Outline) (plans : List Plan) :
    planIssues a declarations type plans = planIssues b declarations type plans := by
  cases plans with
  | nil => rfl
  | cons p rest => rw [planIssues, planIssues, h.planIssuesOne_eq, h.planIssues_eq]

theorem Scope.Agrees.planIssuesOne_eq (h : a.Agrees b) (declarations : List VariableDeclaration)
    (type : Outline) (p : Plan) :
    planIssuesOne a declarations type p = planIssuesOne b declarations type p := by
  cases p with
  | field head plans =>
    have hinside (target : Outline) := h.planIssues_eq declarations target plans
    rw [planIssuesOne, planIssuesOne, h.find, h.fieldIssues_eq]
    simp only [hinside]
  | fragment name condition directives plans =>
    have hinside (target : Outline) := h.planIssues_eq declarations target plans
    cases condition with
    | none => rw [planIssuesOne, planIssuesOne, h.directiveIssues_eq, hinside]
    | some condition =>
      rw [planIssuesOne, planIssuesOne, h.find, h.directiveIssues_eq, h.overlap]
      simp only [hinside]
  | missing name => rfl

end

theorem Scope.Agrees.variableIssues_eq (h : a.Agrees b) : variableIssues a = variableIssues b := by
  have hdeclaration : declarationIssues a = declarationIssues b := by
    funext kind v
    unfold declarationIssues
    rw [h.find, h.has_eq]
  funext o named
  unfold variableIssues
  rw [hdeclaration]

theorem Scope.Agrees.operationIssues_eq (h : a.Agrees b) (d : Document) (limit : Nat) :
    operationIssues a d limit = operationIssues b d limit := by
  have hroot : root? a = root? b := by
    funext kind
    unfold root?
    rw [h.query, h.mutation]
  funext o
  unfold operationIssues
  rw [h.variableIssues_eq, hroot, h.find]
  simp only [h.planIssues_eq]

theorem Scope.Agrees.documentIssues_eq (h : a.Agrees b) (d : Document) (limit : Nat) :
    documentIssues a d limit = documentIssues b d limit := by
  unfold documentIssues
  rw [h.operationIssues_eq]

end Validation

/-! ## What requests see of registries -/

namespace Registry

variable {r' r : Registry σ ν}

/-- Introspection adds the same outlines to every registry. -/
theorem ofType_types (k' k : Introspection.Knowledge) :
    (Introspection.types (σ := σ) (ν := ν) k').map Outline.ofType =
      (Introspection.types (σ := σ) (ν := ν) k).map Outline.ofType := by
  simp only [Introspection.types, Introspection.partField, Outline.ofType, List.map_cons,
    List.map_nil]

theorem ofType_liftType (root : ν) (query : String) (k' k : Introspection.Knowledge)
    (t : NamedType σ ν) :
    Outline.ofType (liftType root query (Introspection.rootFields k') t) =
      Outline.ofType (liftType root query (Introspection.rootFields k) t) := by
  cases t with
  | object o =>
    simp only [liftType, Outline.ofType, List.map_append]
    split <;> simp only [Introspection.rootFields, List.map_cons, List.map_nil]
  | _ => rfl

theorem Rearranges.ofType_liftedType (h : r'.Rearranges r) (root : ν) (t : NamedType σ ν) :
    Outline.ofType (r'.liftedType root t) = Outline.ofType (r.liftedType root t) := by
  rw [liftedType, liftedType, h.query]
  exact ofType_liftType root r.query r'.knowledge r.knowledge t

theorem ofRegistry_withIntrospection (r : Registry σ ν) (root : ν) :
    Outline.ofRegistry (r.withIntrospection root) =
      (r.types.map fun t => Outline.ofType (r.liftedType root t)) ++
        (Introspection.types (σ := σ) (ν := ν) r.knowledge).map Outline.ofType := by
  simp only [Outline.ofRegistry, withIntrospection, List.map_append, List.map_map,
    Function.comp_def, liftedType]

theorem Rearranges.outlines_perm (h : r'.Rearranges r) (root : ν) :
    (Outline.ofRegistry (r'.withIntrospection root)).Perm
      (Outline.ofRegistry (r.withIntrospection root)) := by
  rw [ofRegistry_withIntrospection, ofRegistry_withIntrospection, ofType_types r'.knowledge
    r.knowledge, funext (h.ofType_liftedType root)]
  exact (h.types.map _).append_right _

theorem Rearranges.find?_outlines (h : r'.Rearranges r) (root : ν) (name : String) :
    Outline.find? (Outline.ofRegistry (r'.withIntrospection root)) name =
      Outline.find? (Outline.ofRegistry (r.withIntrospection root)) name := by
  have hnames : (r.types.map fun t => Outline.ofType (r.liftedType root t)).map Outline.name =
      r.names := by
    rw [List.map_map]
    refine List.map_congr_left fun t _ => ?_
    rw [Function.comp_apply, Outline.name_ofType, name_liftedType]
  rw [ofRegistry_withIntrospection, ofRegistry_withIntrospection, ofType_types r'.knowledge
    r.knowledge, funext (h.ofType_liftedType root), Outline.find?, Outline.find?,
    List.find?_append, List.find?_append,
    find?_eq_of_perm (h.types.map _) (hnames ▸ h.names)]

end Registry

namespace Validation

/-- The overlap of types does not depend on the order of the outlines. -/
theorem Scope.overlap_eq_of_perm {a b : Scope} (h : a.outlines.Perm b.outlines) :
    a.overlap = b.overlap := by
  have hpossible (o : Outline) : (a.possible o).Perm (b.possible o) := by
    unfold Scope.possible
    split
    · exact (h.filter _).map _
    · exact .refl _
    · exact .refl _
  funext s t
  unfold Scope.overlap
  have hcontains : (a.possible t).contains = (b.possible t).contains :=
    funext fun name => (hpossible t).contains_eq
  rw [(hpossible s).any_eq, hcontains]

end Validation

/-! ## Requests that do not ask for the schema -/

/-- The fields of the query root that lead to the schema. -/
def Introspection.schemaFields : List String := ["__schema", "__type"]

/-- What a request runs if it is accepted. -/
def Request.plans? (request : Request) (limit : Nat) : Option (List Plan) := do
  let d ← Document.ofText? request.query
  let o ← d.select? request.operation
  let plans ← Plan.expand d limit o.selections
  return Plan.prune request.given plans

/-- Whether a request selects the schema, at any depth. -/
def Request.asksForSchema (request : Request) (limit : Nat) : Bool :=
  (Plan.fieldNames ((request.plans? limit).getD [])).any Introspection.schemaFields.contains

namespace Registry

variable {r' r : Registry σ ν}

theorem field?_lifted_of_not_mem {name : String} (hname : name ∉ Introspection.schemaFields)
    (r : Registry σ ν) (root : ν) (o : ObjectType σ ν) :
    (r.lifted root o).field? name = (o.field? name).map (liftField root) := by
  have hroot : (if o.name = r.query then Introspection.rootFields (σ := σ) (ν := ν) r.knowledge
      else []).find? (fun f => f.name = name) = none := by
    rw [List.find?_eq_none]
    intro f hf heq
    split at hf
    · have hmem : f.name ∈ (Introspection.rootFields r.knowledge).map Field.name :=
        List.mem_map_of_mem hf
      exact hname (of_decide_eq_true heq ▸ hmem)
    · cases hf
  rw [field?_lifted, hroot, Option.or_none]

/-- How two registries with introspection are alike that hold the same types. -/
def rearrangement (r' r : Registry σ ν) (root : ν) : Likeness σ (Subject ν) σ (Subject ν) where
  image v := v
  states := Eq
  objects O' O := ∃ o, r.object? o.name = some o ∧ O' = r'.lifted root o ∧ O = r.lifted root o
  known name := ∃ t, r.find? name = some t
  asked name := name ∉ Introspection.schemaFields

theorem map_image_rearrangement {root : ν} (x : Except FieldError (FieldValue (Subject ν))) :
    x.map (FieldValue.map (rearrangement r' r root).image) = x := by
  cases x with
  | error e => rfl
  | ok result => exact congrArg Except.ok (FieldValue.map_id result)

theorem Rearranges.object?_mirrors (h : r'.Rearranges r) (root : ν) {name : String}
    {o : ObjectType σ ν} (ho : r.object? name = some o) :
    (r'.withIntrospection root).object? name = some (r'.lifted root o) ∧
      (r.withIntrospection root).object? name = some (r.lifted root o) ∧
      (rearrangement r' r root).objects (r'.lifted root o) (r.lifted root o) := by
  obtain ⟨-, rfl⟩ := mem_of_object? ho
  exact ⟨object?_withIntrospection_of_some (h.object?_eq ▸ ho) root,
    object?_withIntrospection_of_some ho root, o, ho, rfl, rfl⟩

variable [Node ν]

theorem Rearranges.mirrors (h : r'.Rearranges r) (root : ν) :
    (r'.withIntrospection root).Mirrors (rearrangement r' r root) (r.withIntrospection root) where
  find := by
    rintro name ⟨t, ht⟩
    rw [find?_withIntrospection_of_some ht,
      find?_withIntrospection_of_some ((h.find?_eq name).trans ht)]
    refine .some ?_
    cases t with
    | scalar t => exact .scalar t
    | enum e => exact .enum e
    | interface i => exact .interface i
    | object o => exact .object (h.object?_mirrors root (object?_eq_some_iff.2 ht)).2.2
  name := by
    rintro _ _ ⟨o, -, rfl, rfl⟩
    rfl
  implements := by
    rintro _ _ ⟨o, -, rfl, rfl⟩
    rfl
  typeName _ := rfl
  dispatch interface _ v := by
    have himage : (rearrangement r' r root).image v = v := rfl
    rw [himage, concreteType_withIntrospection, concreteType_withIntrospection, h.object?_eq]
    cases ho : (Node.typeName v).bind r.object? with
    | none => exact .inr ⟨_, rfl, rfl⟩
    | some o =>
      dsimp only
      split
      · obtain ⟨tag, -, ho⟩ := Option.bind_eq_some_iff.1 ho
        exact .inl ⟨_, _, rfl, rfl, (h.object?_mirrors root ho).2.2⟩
      · exact .inr ⟨_, rfl, rfl⟩

end Registry

namespace Schema

variable {r' r : Registry σ ν}

theorem validationScope_agrees (h : r'.Rearranges r) (root : ν) (limit : Nat) (request : Request) :
    (validationScope ⟨r', root, limit⟩ request).Agrees
      (validationScope ⟨r, root, limit⟩ request) where
  find := funext (h.find?_outlines root)
  overlap := Validation.Scope.overlap_eq_of_perm (h.outlines_perm root)
  query := h.query
  mutation := h.mutation
  given := rfl

theorem scope_mirrors [Node ν] (h : r'.Rearranges r) (hclosed : r.IsClosed) (root : ν) (limit : Nat)
    (request : Request) (operation : Operation) :
    (scope ⟨r', root, limit⟩ request operation).Mirrors (Registry.rearrangement r' r root)
      (scope ⟨r, root, limit⟩ request operation) where
  registry := h.mirrors root
  root := rfl
  source := rfl
  given := rfl
  declarations := rfl
  registered := by
    rintro _ _ ⟨o, ho, rfl, rfl⟩
    obtain ⟨hmirrored, hlifted, -⟩ := h.object?_mirrors root ho
    exact ⟨hmirrored, hlifted⟩
  field := by
    rintro _ _ ⟨o, ho, rfl, rfl⟩ name hname
    rw [Registry.field?_lifted_of_not_mem hname, Registry.field?_lifted_of_not_mem hname]
    cases hf : o.field? name with
    | none => exact .inl ⟨rfl, rfl⟩
    | some f =>
      have hmem : f ∈ o.fields := List.mem_of_find?_eq_some hf
      refine .inr ⟨_, _, rfl, rfl, ⟨rfl, rfl, rfl, rfl, hclosed.field _ o ho f hmem, ?_, ?_⟩⟩
      · intro spec hspec
        obtain ⟨t, ht, -⟩ := hclosed.argument _ o ho f hmem spec hspec
        exact ⟨t, ht⟩
      · rintro v - b s _ rfl
        exact ⟨Registry.map_image_rearrangement _, rfl⟩

theorem rootOf?_rearranged (h : r'.Rearranges r) (hfinished : r.IsFinished) (root : ν)
    (kind : OperationKind) :
    (rootOf? (r'.withIntrospection root) kind = none ∧
      rootOf? (r.withIntrospection root) kind = none) ∨
    ∃ O' O, rootOf? (r'.withIntrospection root) kind = some O' ∧
      rootOf? (r.withIntrospection root) kind = some O ∧
      (Registry.rearrangement r' r root).objects O' O := by
  have hobject {name : String} (hname : ∃ o, .object o ∈ r.types ∧ o.name = name) :
      ∃ O' O, (r'.withIntrospection root).object? name = some O' ∧
        (r.withIntrospection root).object? name = some O ∧
        (Registry.rearrangement r' r root).objects O' O := by
    obtain ⟨o, ho⟩ := (Registry.exists_object?_iff hfinished.isRegular).2 hname
    exact ⟨_, _, h.object?_mirrors root ho⟩
  cases kind with
  | query =>
    have hquery : (r'.withIntrospection root).query = r.query := h.query
    rw [rootOf?, Registry.queryRoot?, hquery]
    exact .inr (hobject hfinished.isWellFormed.query)
  | mutation =>
    have hmutation : (r'.withIntrospection root).mutation = r.mutation := h.mutation
    have hmutation' : (r.withIntrospection root).mutation = r.mutation := rfl
    rw [rootOf?, rootOf?, Registry.mutationRoot?, Registry.mutationRoot?, hmutation, hmutation']
    cases hname : r.mutation with
    | none => exact .inl ⟨rfl, rfl⟩
    | some name => exact .inr (hobject (hfinished.isWellFormed.mutation name hname))
  | subscription => exact .inl ⟨rfl, rfl⟩

/-- A request is refused for the same issues, or runs the same selections on like roots. -/
theorem select_rearranged (h : r'.Rearranges r) (hfinished : r.IsFinished) (root : ν) (limit : Nat)
    (request : Request) :
    (∃ issues, select ⟨r', root, limit⟩ request = .error issues ∧
      select ⟨r, root, limit⟩ request = .error issues) ∨
    ∃ operation O' O plans, select ⟨r', root, limit⟩ request = .ok ⟨operation, O', plans⟩ ∧
      select ⟨r, root, limit⟩ request = .ok ⟨operation, O, plans⟩ ∧
      request.plans? limit = some plans ∧ (Registry.rearrangement r' r root).objects O' O := by
  unfold select Request.plans? executable
  cases Document.ofText? request.query with
  | none => exact .inl ⟨_, rfl, rfl⟩
  | some d =>
    dsimp only
    rw [(validationScope_agrees h root limit request).documentIssues_eq]
    cases Validation.documentIssues (validationScope ⟨r, root, limit⟩ request) d limit with
    | cons issue rest => exact .inl ⟨_, rfl, rfl⟩
    | nil =>
      cases hoperation : d.select? request.operation with
      | none => exact .inl ⟨_, rfl, rfl⟩
      | some operation =>
        dsimp only
        rcases rootOf?_rearranged h hfinished root operation.kind with
          ⟨hroot', hroot⟩ | ⟨O', O, hroot', hroot, hobjects⟩
        · rw [hroot', hroot]
          exact .inl ⟨_, rfl, rfl⟩
        · rw [hroot', hroot]
          cases hplans : Plan.expand d limit operation.selections with
          | none => exact .inl ⟨_, rfl, rfl⟩
          | some plans =>
            refine .inr ⟨operation, O', O, _, rfl, rfl, ?_, hobjects⟩
            simp [hoperation, hplans]

theorem respond_rearranged [Node ν] (h : r'.Rearranges r) (hfinished : r.IsFinished) (root : ν)
    (limit : Nat) {request : Request} (hasks : request.asksForSchema limit = false) (s : σ) :
    respond ⟨r', root, limit⟩ request s = respond ⟨r, root, limit⟩ request s := by
  rcases select_rearranged h hfinished root limit request with
    ⟨issues, hselect', hselect⟩ | ⟨operation, O', O, plans, hselect', hselect, hplans, hobjects⟩
  · rw [respond_of_select_error hselect', respond_of_select_error hselect]
  · rw [Request.asksForSchema, hplans, Option.getD_some, List.any_eq_false] at hasks
    have hasked (name : String) (hname : name ∈ Plan.fieldNames plans) :
        (Registry.rearrangement r' r root).asked name :=
      mt List.contains_iff_mem.2 (hasks name hname)
    obtain ⟨hresponse, hstate⟩ :=
      (scope_mirrors h hfinished.isClosed root limit request operation).respond hobjects hasked
        (rfl : (Registry.rearrangement r' r root).states s s)
    rw [respond_of_select_ok hselect', respond_of_select_ok hselect]
    exact Prod.ext hresponse hstate

end Schema

/-! ## Sequences of registrations -/

namespace Registry

variable [Node ν]

/-- Whether nothing but introspection and the order of the types tells two registries apart. -/
structure Indistinguishable (r' r : Registry σ ν) : Prop where
  find : ∀ name, r'.find? name = r.find? name
  query : r'.query = r.query
  mutation : r'.mutation = r.mutation
  bind : ∀ field specs raw, r'.bind field specs raw = r.bind field specs raw
  dispatch : ∀ interface v, r'.concreteType interface v = r.concreteType interface v
  executes : ∀ root limit, Schema.ofRegistry r' root limit = .ok ⟨r', root, limit⟩ ↔
    Schema.ofRegistry r root limit = .ok ⟨r, root, limit⟩
  respond : ∀ root limit request, request.asksForSchema limit = false → ∀ s,
    Schema.respond ⟨r', root, limit⟩ request s = Schema.respond ⟨r, root, limit⟩ request s

theorem Rearranges.indistinguishable {r' r : Registry σ ν} (h : r'.Rearranges r)
    (hfinished : r.IsFinished) : r'.Indistinguishable r where
  find := h.find?_eq
  query := h.query
  mutation := h.mutation
  bind := h.bind_eq
  dispatch := h.concreteType_eq
  executes := Schema.ofRegistry_rearranged h
  respond root limit _ hasks := Schema.respond_rearranged h hfinished root limit hasks

/-- A registration fails if the type repeats a member or its name is taken, as those of the built-in
scalars are, and changes nothing then.  Registrations leave the first acceptable type of each name,
in the order of the calls; and for types of different names this order is all that their own order
changes. -/
theorem attemptAll_built (query : String) (before : List (Call σ ν)) :
    let r := (empty query).performAll before
    (∀ calls t,
      ((∃ e, ((r.attemptAll calls).attempt t).1 = .error e) ↔
        ¬ t.HasDistinctMembers ∨ t.name ∈ (r.attemptAll calls).names) ∧
      (∀ e, ((r.attemptAll calls).attempt t).1 = .error e →
        ((r.attemptAll calls).attempt t).2 = r.attemptAll calls ∧
        r.attemptAll (calls ++ [t]) = r.attemptAll calls) ∧
      ∀ name, isBuiltin name → name ∈ (r.attemptAll calls).names) ∧
    (∀ calls, (r.attemptAll calls).types = r.types ++ firsts (r.acceptable calls)) ∧
    ∀ types' types, types'.Perm types → (types.map NamedType.name).Nodup →
      ((r.attemptAll types').check = .ok () ↔ (r.attemptAll types).check = .ok ()) ∧
      ((r.attemptAll types).check = .ok () →
        (r.attemptAll types').Indistinguishable (r.attemptAll types)) := by
  intro r
  have hregular : r.IsRegular := (isRegular_empty query).performAll before
  refine ⟨fun calls t => ⟨attempt_fails_iff, fun e hfails => ⟨snd_attempt_of_error hfails, ?_⟩,
    fun name hname => (hregular.attemptAll calls).isBuiltin_mem hname⟩, types_attemptAll r, ?_⟩
  · rw [attemptAll, List.foldl_append]
    exact snd_attempt_of_error hfails
  · intro types' types hperm hnames
    have h := rearranges_attemptAll hregular hperm hnames
    refine ⟨h.check_iff (hregular.attemptAll types') (hregular.attemptAll types), fun hcheck => ?_⟩
    have hbuilt : r.attemptAll types =
        (empty query).performAll (before ++ types.map Call.register) := by
      rw [performAll, List.foldl_append, List.foldl_map]
      rfl
    exact h.indistinguishable ⟨⟨query, _, hbuilt⟩, hcheck⟩

end Registry

namespace Bookshop

/-- The shop offers books, which may be registered after it as well as before. -/
theorem attemptAll_built_books :
    let forward := (Registry.empty "Shop").attemptAll [.object book, .object shop]
    let backward := (Registry.empty "Shop").attemptAll [.object shop, .object book]
    let request : Request := { query := "\x7b best \x7b title \x7d \x7d" }
    (∃ e, (forward.attempt (.object book)).1 = .error e) ∧
      (forward.attempt (.object book)).2 = forward ∧
      forward.check = .ok () ∧ backward.check = .ok () ∧
      request.asksForSchema Schema.defaultDepthLimit = false ∧
      Schema.respond ⟨backward, .shop, Schema.defaultDepthLimit⟩ request () =
        Schema.respond ⟨forward, .shop, Schema.defaultDepthLimit⟩ request () := by
  intro forward backward request
  obtain ⟨hcalls, -, horders⟩ := Registry.attemptAll_built (σ := Unit) (ν := Thing) "Shop" []
  obtain ⟨hfails, hunchanged, -⟩ := hcalls [.object book, .object shop] (.object book)
  have htaken : ∃ e, (forward.attempt (.object book)).1 = .error e :=
    hfails.2 (.inr (by decide +kernel))
  obtain ⟨e, he⟩ := htaken
  obtain ⟨hchecks, hsame⟩ :=
    horders [.object shop, .object book] [.object book, .object shop] (.swap ..) (by decide)
  have hforward : forward.check = .ok () := by rfl
  have hasks : request.asksForSchema Schema.defaultDepthLimit = false := by decide +kernel
  exact ⟨⟨e, he⟩, (hunchanged e he).1, hforward, hchecks.2 hforward, hasks,
    (hsame hforward).respond .shop _ request hasks ()⟩

end Bookshop

end Gazette
