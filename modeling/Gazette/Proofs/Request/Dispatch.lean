import Gazette.Proofs.Request.Declared
import Gazette.Proofs.Request.Failures

/-!
# Values of interfaces

A value of an interface runs as a value of the object that it names: completing it against the
interface and running selections comes to completing it against the object and running the part of
the selections that applies to the object, and no other object has a field resolved on the value
(`Schema.dispatches`).  To say which fields are resolved on what, a registry can keep a log
(`Registry.logged`); this changes no run (`Scope.logged_mirrors`).
-/

namespace Gazette

variable {σ ν : Type}

/-! ## Results and selections -/

theorem Plan.fieldsOn_map_toPlan (o : ObjectType σ ν) (fields : List FieldPlan) :
    fieldsOn o (fields.map FieldPlan.toPlan) = fields := by
  induction fields with
  | nil => rfl
  | cons f rest ih => rw [List.map_cons, fieldsOn, ih]; rfl

/-- The part of selections that applies to an object, without fragments around it. -/
def Plan.partFor (o : ObjectType σ ν) (plans : List Plan) : List Plan :=
  (fieldsOn o plans).map FieldPlan.toPlan

namespace Execution

variable [Node ν]

/-- The run for a result of a field: it is completed against the type of the field, and the
selections run on what it is. -/
def runResult (scope : Scope σ ν) (cause : FieldError → Cause) (plans : List Plan) (type : TypeRef)
    (result : FieldValue ν) (path : Path) : Run σ Value :=
  match scope.registry.complete type result with
  | .ok (some value) => present scope (insideOf scope plans) type value path
  | .ok none => .done .null
  | .error e => .fail ⟨cause e, none⟩

/-- A field of a registered object whose arguments bind and whose resolver succeeds runs as its
result does. -/
theorem runWith_eq_runResult (scope : Scope σ ν) (plans : List Plan) {object : String}
    {field : Field σ ν} {head : FieldHead} {parent : ν} {path : Path} {arguments : Entries Value}
    {bound : BoundArguments} {result : FieldValue ν} {p : Progress σ} {s : σ}
    (hdeclared : scope.registry.field? object field.name = some field)
    (hbind : scope.registry.bind field.name field.arguments (withDefaults field.arguments arguments)
      = .ok bound)
    (hresult : fieldResult object field parent bound p.state = (.ok result, s)) :
    runWith scope (insideOf scope plans) object field head parent path arguments p =
      runResult scope (causeOf scope field head.remaining) plans field.type result path
        { p with state := s } := by
  simp only [runWith, runField, resolveDeclared_eq hdeclared, resolveField_of_bind hbind hresult,
    Run.andThen, runResult]
  cases scope.registry.complete field.type result with
  | error e => rfl
  | ok completed => cases completed <;> rfl

section

variable {scope : Scope σ ν} {cause : FieldError → Cause} {plans : List Plan} {path : Path}
  {o : ObjectType σ ν} {i : InterfaceType} {v : ν}

/-- A value runs against a non-null type as against the type inside. -/
theorem runResult_nonNull (type : TypeRef) :
    runResult scope cause plans (.nonNull type) (.node v) path =
      runResult scope cause plans type (.node v) path := rfl

theorem runResult_interface (hi : scope.registry.find? i.name = some (.interface i))
    (ho : scope.registry.concreteType i.name v = .ok o) :
    runResult scope cause plans (.named i.name) (.node v) path = insideOf scope plans o v path := by
  obtain ⟨hv, hobject, hisA⟩ := Registry.concreteType_eq_ok_iff.1 ho
  rw [runResult, Registry.complete_tagged hi hv hobject hisA]
  simp only [present, presentNamed, hi, hobject]

theorem runResult_interface_of_error (hi : scope.registry.find? i.name = some (.interface i))
    {e : FieldError} (he : scope.registry.concreteType i.name v = .error e) :
    runResult scope cause plans (.named i.name) (.node v) path = .fail ⟨cause e, none⟩ := by
  have hnamed : scope.registry.completeNamed i.name (.node v) = .error e := by
    unfold Registry.completeNamed
    rw [hi]
    simp only [he]
  rw [runResult, Registry.complete_named_eq_map rfl, hnamed]
  rfl

theorem runResult_object (ho : scope.registry.object? o.name = some o)
    (hv : Node.typeName v = some o.name) :
    runResult scope cause plans (.named o.name) (.node v) path = insideOf scope plans o v path := by
  have hfind := Registry.object?_eq_some_iff.1 ho
  rw [runResult, Registry.complete_node hfind hv]
  simp only [present, presentNamed, hfind]

theorem insideOf_partFor (o : ObjectType σ ν) :
    insideOf scope (Plan.partFor o plans) o v path = insideOf scope plans o v path := by
  rw [insideOf, insideOf, executeAll_eq, executeAll_eq, Plan.partFor, Plan.fieldsOn_map_toPlan]

end

end Execution

/-! ## Logs -/

/-- A value in a run: one that a field has given, or the root value, which also takes the place of
nulls in lists. -/
inductive Seat (ν : Type) where
  | given (value : ν)
  | root (value : ν)

namespace Seat

/-- The value in a seat. -/
def value : Seat ν → ν
  | given v | root v => v

end Seat

instance [Node ν] : Node (Seat ν) where
  typeName seat := Node.typeName seat.value
  part seat := Node.part seat.value

/-- That a field of an object is resolved on a value. -/
structure Resolution (ν : Type) where
  object : String
  field : String
  parent : Seat ν

variable [Node ν]

/-- A field that writes down each resolution. -/
def Field.logged (object : String) (f : Field σ ν) :
    Field (σ × List (Resolution ν)) (Seat ν) where
  name := f.name
  type := f.type
  description := f.description
  arguments := f.arguments
  role := f.role
  resolver := some fun seat arguments s =>
    let x := Execution.fieldResult object f seat.value arguments s.1
    (x.1.map (FieldValue.map .given), (x.2, s.2 ++ [⟨object, f.name, seat⟩]))

/-- An object whose fields write down each resolution. -/
def ObjectType.logged (o : ObjectType σ ν) : ObjectType (σ × List (Resolution ν)) (Seat ν) where
  name := o.name
  description := o.description
  implements := o.implements
  fields := o.fields.map (Field.logged o.name)

/-- A type whose fields write down each resolution. -/
def NamedType.logged : NamedType σ ν → NamedType (σ × List (Resolution ν)) (Seat ν)
  | .scalar type => .scalar type
  | .enum type => .enum type
  | .interface type => .interface type
  | .object type => .object type.logged

/-- The registry with a log of all resolutions in its state. -/
def Registry.logged (r : Registry σ ν) : Registry (σ × List (Resolution ν)) (Seat ν) :=
  ⟨r.types.map NamedType.logged, r.query, r.mutation⟩

/-- A scope whose registry keeps a log. -/
def Execution.Scope.logged (scope : Scope σ ν) : Scope (σ × List (Resolution ν)) (Seat ν) :=
  ⟨scope.registry.logged, .root scope.root, scope.source, scope.given, scope.declarations⟩

namespace Registry

variable {r : Registry σ ν} {name : String}

theorem find?_logged (r : Registry σ ν) (name : String) :
    r.logged.find? name = (r.find? name).map NamedType.logged := by
  have hcomp : (fun t : NamedType (σ × List (Resolution ν)) (Seat ν) => decide (t.name = name)) ∘
      NamedType.logged = fun t : NamedType σ ν => decide (t.name = name) := by
    funext t
    cases t <;> rfl
  rw [find?, logged, List.find?_map, hcomp]
  rfl

theorem object?_logged (r : Registry σ ν) (name : String) :
    r.logged.object? name = (r.object? name).map ObjectType.logged := by
  rw [object?, object?, find?_logged]
  cases r.find? name with
  | none => rfl
  | some t => cases t <;> rfl

theorem concreteType_logged (r : Registry σ ν) (interface : String) (seat : Seat ν) :
    r.logged.concreteType interface seat =
      (r.concreteType interface seat.value).map ObjectType.logged := by
  have htag : (Node.typeName seat).bind r.logged.object? =
      ((Node.typeName seat.value).bind r.object?).map ObjectType.logged := by
    show (Node.typeName seat.value).bind _ = _
    cases Node.typeName seat.value with
    | none => rfl
    | some tag => exact object?_logged r tag
  unfold concreteType
  rw [htag]
  cases (Node.typeName seat.value).bind r.object? with
  | none => rfl
  | some o =>
    simp only [Option.map_some]
    have hisA : o.logged.isA interface = o.isA interface := rfl
    rw [hisA]
    cases o.isA interface <;> rfl

end Registry

namespace Execution

/-- Whether a field is resolved on the root value, or on a value of its object. -/
def IsInPlace (resolution : Resolution ν) : Prop :=
  ∀ v, resolution.parent = .given v → Node.typeName v = some resolution.object

omit [Node ν] in
theorem map_value_map_given (x : Except FieldError (FieldValue ν)) :
    (x.map (FieldValue.map Seat.given)).map (FieldValue.map Seat.value) = x := by
  cases x with
  | error e => rfl
  | ok result =>
    exact congrArg Except.ok
      ((FieldValue.map_map Seat.given Seat.value result).trans (FieldValue.map_id result))

/-- How a registry with a log is like the one without, from a log on. -/
def loggedLikeness (r : Registry σ ν) (log : List (Resolution ν)) :
    Likeness (σ × List (Resolution ν)) (Seat ν) σ ν where
  image := Seat.value
  states s' s := s'.1 = s ∧ ∃ more, s'.2 = log ++ more ∧ ∀ resolution ∈ more, IsInPlace resolution
  objects o' o := o' = o.logged ∧ r.object? o.name = some o
  known _ := True
  asked _ := True

variable {scope : Scope σ ν} {log : List (Resolution ν)}

theorem registry_logged_mirrors (r : Registry σ ν) (log : List (Resolution ν)) :
    r.logged.Mirrors (loggedLikeness r log) r where
  find name _ := by
    rw [Registry.find?_logged]
    cases hfind : r.find? name with
    | none => exact .none
    | some t =>
      refine .some ?_
      cases t with
      | scalar t => exact .scalar t
      | enum e => exact .enum e
      | interface i => exact .interface i
      | object o =>
        obtain rfl : o.name = name := (Registry.name_of_find? hfind).2
        exact .object ⟨rfl, Registry.object?_eq_some_iff.2 hfind⟩
  name := by
    rintro _ o ⟨rfl, -⟩
    rfl
  implements := by
    rintro _ o ⟨rfl, -⟩
    rfl
  typeName _ := rfl
  dispatch interface _ seat := by
    rw [Registry.concreteType_logged]
    cases h : r.concreteType interface seat.value with
    | error e => exact .inr ⟨e, rfl, h⟩
    | ok o => exact .inl ⟨o.logged, o, rfl, h, rfl, (Registry.concreteType_eq_ok_iff.1 h).2.1⟩

theorem field?_logged (o : ObjectType σ ν) (name : String) :
    o.logged.field? name = (o.field? name).map (Field.logged o.name) := by
  have hcomp : (fun f : Field (σ × List (Resolution ν)) (Seat ν) => decide (f.name = name)) ∘
      Field.logged o.name = fun f : Field σ ν => decide (f.name = name) := rfl
  rw [ObjectType.field?, ObjectType.logged, List.find?_map, hcomp]
  rfl

/-- A log changes no run. -/
theorem Scope.logged_mirrors (scope : Scope σ ν) (log : List (Resolution ν)) :
    scope.logged.Mirrors (loggedLikeness scope.registry log) scope where
  registry := registry_logged_mirrors scope.registry log
  root := rfl
  source := rfl
  given := rfl
  declarations := rfl
  registered := by
    rintro _ o ⟨rfl, ho⟩
    refine ⟨?_, ho⟩
    rw [Scope.logged, ObjectType.logged, Registry.object?_logged, ho]
    rfl
  field := by
    rintro _ o ⟨rfl, -⟩ name -
    rw [field?_logged]
    cases hf : o.field? name with
    | none => exact .inl ⟨rfl, rfl⟩
    | some f =>
      refine .inr ⟨f.logged o.name, f, rfl, rfl, rfl, rfl, rfl, rfl, trivial,
        fun _ _ => trivial, ?_⟩
      rintro seat hseat b ⟨s, _⟩ _ ⟨rfl, more, rfl, hmore⟩
      refine ⟨map_value_map_given _, rfl, more ++ [⟨o.name, f.name, seat⟩],
        by simp [fieldResult, Field.logged], ?_⟩
      refine List.forall_mem_append.2 ⟨hmore, List.forall_mem_singleton.2 ?_⟩
      rintro v rfl
      rcases hseat with hroot | htag
      · cases hroot
      · exact htag

theorem executeAll_logged {o : ObjectType σ ν} (ho : scope.registry.object? o.name = some o)
    {v : ν} (hv : Node.typeName v = some o.name) (plans : List Plan) (path : Path)
    (s : σ) (log : List (Resolution ν)) (recorded : List ResponseError) :
    ∃ more, executeAll scope.logged o.logged (.given v) path plans ⟨(s, log), recorded⟩ =
        (let x := executeAll scope o v path plans ⟨s, recorded⟩
        (x.1, ⟨(x.2.state, log ++ more), x.2.recorded⟩)) ∧
      ∀ resolution ∈ more, IsInPlace resolution := by
  have hstates : (loggedLikeness scope.registry log).states (s, log) s :=
    ⟨rfl, [], (List.append_nil log).symm, List.forall_mem_nil _⟩
  obtain ⟨houtcome, hrecorded, hstate, more, hlog, hmore⟩ :=
    (scope.logged_mirrors log).executeAll ⟨rfl, ho⟩ (v := .given v) (.inr hv)
      (fun name _ => trivial) hstates path recorded
  refine ⟨more, ?_, hmore⟩
  dsimp only at houtcome hrecorded hstate hlog ⊢
  generalize executeAll scope.logged o.logged (.given v) path plans ⟨(s, log), recorded⟩ = x'
    at houtcome hrecorded hstate hlog ⊢
  obtain ⟨outcome, ⟨state, log'⟩, recorded'⟩ := x'
  obtain rfl := houtcome
  obtain rfl := hrecorded
  obtain rfl := hstate
  obtain rfl := hlog
  rfl

/-! ## Dispatch -/

/-- That a registered field of an interface type which gives a value runs as its result does. -/
def FieldsRun (scope : Scope σ ν) (i : InterfaceType) (v : ν) (plans : List Plan) : Prop :=
  ∀ object field head parent path arguments bound p s,
    scope.registry.field? object field.name = some field →
    field.type = .named i.name ∨ field.type = .nonNull (.named i.name) →
    scope.registry.bind field.name field.arguments (withDefaults field.arguments arguments) =
      .ok bound →
    fieldResult object field parent bound p.state = (.ok (.node v), s) →
    runWith scope (insideOf scope plans) object field head parent path arguments p =
      runResult scope (causeOf scope field head.remaining) plans (.named i.name) (.node v) path
        { p with state := s }

/-- That a value of an interface runs as a value of an object. -/
structure DispatchesTo (scope : Scope σ ν) (i : InterfaceType) (o : ObjectType σ ν) (v : ν)
    (plans : List Plan) : Prop where
  run : ∀ cause path, runResult scope cause plans (.named i.name) (.node v) path =
    runResult scope cause (Plan.partFor o plans) (.named o.name) (.node v) path
  fields : ∀ cause path, runResult scope cause plans (.named i.name) (.node v) path =
    (executeFields scope o v path (Plan.fieldsOn o plans)).mapResult Value.ofSelections
  typeName : ∀ f ∈ Plan.fieldsOn o plans, f.head.name = Plan.typeNameField →
    ∀ path, executeOne scope o v path f.toPlan = .done [(f.key, .string o.name)]
  declared : ∀ f ∈ Plan.fieldsOn o plans, f.head.name ≠ Plan.typeNameField →
    ∃ field ∈ o.fields, o.field? f.head.name = some field
  /-- A log of the run tells of no field of another object that is resolved on the value. -/
  resolved : ∀ cause path s log recorded, ∃ more,
    runResult scope.logged cause plans (.named i.name) (.node (.given v)) path
        ⟨(s, log), recorded⟩ =
      (let x := runResult scope cause plans (.named i.name) (.node v) path ⟨s, recorded⟩
      (x.1, ⟨(x.2.state, log ++ more), x.2.recorded⟩)) ∧
    ∀ resolution ∈ more, resolution.parent = .given v → resolution.object = o.name

/-- That a value is none of an interface: the run fails at once and does nothing, as a log of it
shows, too. -/
structure Undispatched (scope : Scope σ ν) (i : InterfaceType) (v : ν) (plans : List Plan) :
    Prop where
  fails : ∀ cause path p, runResult scope cause plans (.named i.name) (.node v) path p =
    (.error ⟨cause (.resolutionError i.name), none⟩, p)
  unresolved : ∀ cause path p,
    runResult scope.logged cause plans (.named i.name) (.node (.given v)) path p =
      (.error ⟨cause (.resolutionError i.name), none⟩, p)

variable {i : InterfaceType} {o : ObjectType σ ν} {v : ν} {plans : List Plan}

theorem fieldsRun (scope : Scope σ ν) (i : InterfaceType) (v : ν) (plans : List Plan) :
    FieldsRun scope i v plans := by
  intro object field head parent path arguments bound p s hdeclared htype hbind hresult
  rw [runWith_eq_runResult scope plans hdeclared hbind hresult]
  rcases htype with htype | htype
  · rw [htype]
  · rw [htype, runResult_nonNull]

theorem dispatchesTo_of_concreteType
    (hi : scope.registry.find? i.name = some (.interface i))
    (ho : scope.registry.concreteType i.name v = .ok o)
    (hdeclared : Declared scope.registry o plans) : DispatchesTo scope i o v plans := by
  obtain ⟨hv, hobject, -⟩ := Registry.concreteType_eq_ok_iff.1 ho
  refine ⟨fun cause path => ?_, fun cause path => ?_, fun f _ hname path => ?_,
    fun f hf hname => ?_, fun cause path s log recorded => ?_⟩
  · rw [runResult_interface hi ho, runResult_object hobject hv, insideOf_partFor]
  · rw [runResult_interface hi ho, insideOf, executeAll_eq]
  · rw [FieldPlan.toPlan, executeOne, if_pos hname]
    rfl
  · obtain ⟨field, hfield, -⟩ := hdeclared.field hf hname
    exact ⟨field, List.mem_of_find?_eq_some hfield, hfield⟩
  · have hi' : scope.logged.registry.find? i.name = some (.interface i) := by
      rw [Scope.logged, Registry.find?_logged, hi]
      rfl
    have ho' : scope.logged.registry.concreteType i.name (.given v) = .ok o.logged := by
      rw [Scope.logged, Registry.concreteType_logged, Seat.value, ho]
      rfl
    obtain ⟨more, hrun, hmore⟩ :=
      executeAll_logged hobject hv plans path s log recorded
    refine ⟨more, ?_, fun resolution hmem hparent => ?_⟩
    · rw [runResult_interface hi' ho', runResult_interface hi ho, insideOf, insideOf,
        Run.mapResult_apply, Run.mapResult_apply, hrun]
    · exact Option.some.inj ((hmore resolution hmem v hparent).symm.trans hv)

theorem undispatched_of_concreteType
    (hi : scope.registry.find? i.name = some (.interface i))
    (he : scope.registry.concreteType i.name v = .error (.resolutionError i.name)) :
    Undispatched scope i v plans := by
  refine ⟨fun cause path p => ?_, fun cause path p => ?_⟩
  · rw [runResult_interface_of_error hi he]
    rfl
  · have hi' : scope.logged.registry.find? i.name = some (.interface i) := by
      rw [Scope.logged, Registry.find?_logged, hi]
      rfl
    have he' : scope.logged.registry.concreteType i.name (.given v) =
        .error (.resolutionError i.name) := by
      rw [Scope.logged, Registry.concreteType_logged, Seat.value, he]
      rfl
    rw [runResult_interface_of_error hi' he']
    rfl

end Execution

namespace Schema

open Execution

/-- An object of a schema as requests meet it. -/
def lifted (schema : Schema σ ν) (o : ObjectType σ ν) : ObjectType σ (Subject ν) :=
  schema.registry.lifted schema.root o

/-- A value of an interface runs as the object that it names, on the part of the selections that
applies to the object; a value that names no object of the interface fails to run. -/
theorem dispatches {schema : Schema σ ν} (hfinished : schema.registry.IsFinished)
    {i : InterfaceType} (hi : .interface i ∈ schema.registry.types) (request : Request)
    (operation : Operation) {whole : List Plan}
    (hvalid : Validation.planIssues (schema.validationScope request) operation.declarations
      (Outline.ofType (.interface i : NamedType σ ν)) whole = []) (v : ν) :
    let scope := schema.scope request operation
    let plans := Plan.prune request.given whole
    FieldsRun scope i (.value v) plans ∧
    (∀ o, .object o ∈ schema.registry.types → Node.typeName v = some o.name → o.isA i.name →
      DispatchesTo scope i (schema.lifted o) (.value v) plans) ∧
    ((¬ ∃ o, .object o ∈ schema.registry.types ∧ Node.typeName v = some o.name ∧ o.isA i.name) →
      Undispatched scope i (.value v) plans) := by
  intro scope plans
  have hregular := hfinished.isRegular
  have hfind : scope.registry.find? i.name = some (.interface i) :=
    Registry.find?_withIntrospection_of_some (hregular.find?_of_mem hi) schema.root
  have hconcrete := Registry.concreteType_withIntrospection schema.registry schema.root i.name
    (.value v)
  have htag : Node.typeName (Subject.value v) = Node.typeName v := rfl
  rw [htag] at hconcrete
  refine ⟨fieldsRun scope i (.value v) plans, ?_, ?_⟩
  · intro o ho hv hisA
    have hobject : schema.registry.object? o.name = some o :=
      Registry.object?_eq_some_iff.2 (hregular.find?_of_mem ho)
    rw [hv, Option.bind_some, hobject] at hconcrete
    simp only [hisA, if_true] at hconcrete
    have hlifted := Registry.object?_withIntrospection_of_some hobject schema.root
    have hkeeps := hfinished.keepsInterfaces_withIntrospection schema.root
    obtain ⟨i', hi', hcovers⟩ := hkeeps (schema.lifted o) hlifted i.name hisA
    obtain rfl := NamedType.interface.inj (Option.some.inj (hi'.symm.trans hfind))
    have hdeclared : Declared scope.registry (schema.lifted o) plans :=
      declared_of_planIssues hkeeps whole hlifted hcovers hvalid
    exact dispatchesTo_of_concreteType hfind hconcrete hdeclared
  · intro hnone
    refine undispatched_of_concreteType hfind (hconcrete.trans ?_)
    cases hbind : (Node.typeName v).bind schema.registry.object? with
    | none => rfl
    | some o =>
      obtain ⟨tag, hv, hobject⟩ := Option.bind_eq_some_iff.1 hbind
      obtain ⟨hmem, rfl⟩ := Registry.mem_of_object? hobject
      have hisA : o.isA i.name = false := by
        rw [Bool.eq_false_iff]
        exact fun hisA => hnone ⟨o, hmem, hv, hisA⟩
      simp only [hisA, Bool.false_eq_true, if_false]

end Schema

namespace Bookshop

/-- Whatever has a title. -/
def titled : InterfaceType where
  name := "Titled"
  fields := [{ name := "title", type := .namedNonNull builtin.string }]

/-- The book, which has a title. -/
def titledBook : ObjectType Unit Thing := { book with implements := ["Titled"] }

/-- The root offers a book, and itself, as something with a title. -/
def titledRoot : ObjectType Unit Thing where
  name := "Shop"
  fields := [
    constant "best" (.named "Titled") (.node (.book "Emma")),
    constant "self" (.named "Titled") (.node .shop)]

/-- A shop of whatever has a title. -/
def titledShop : Schema Unit Thing where
  registry := (Registry.empty "Shop").performAll [.register (.object titledBook),
    .register (.interface titled), .register (.object titledRoot)]
  root := .shop
  depthLimit := Schema.defaultDepthLimit

theorem isFinished_titledShop : titledShop.registry.IsFinished :=
  ⟨⟨"Shop", _, rfl⟩, by rfl⟩

/-- The selection of a field without arguments. -/
def plainField (name : String) : Plan := .field ⟨none, name, [], [], 0⟩ []

/-- The name of the type, the title and, of a book, the number. -/
def titledPlans : List Plan :=
  [plainField "__typename", plainField "title", .fragment none (some "Book") [] [plainField "isbn"]]

/-- The book runs as a book, and the shop, which has no title, not at all. -/
theorem dispatches_titled :
    let request : Request := { query := "" }
    let operation : Operation := ⟨.query, none, [], [], []⟩
    titledShop.registry.IsFinished ∧
      Validation.planIssues (titledShop.validationScope request) operation.declarations
        (Outline.ofType (.interface titled : NamedType Unit Thing)) titledPlans = [] ∧
      Execution.DispatchesTo (titledShop.scope request operation) titled
        (titledShop.lifted titledBook) (.value (.book "Emma"))
        (Plan.prune request.given titledPlans) ∧
      Execution.Undispatched (titledShop.scope request operation) titled (.value .shop)
        (Plan.prune request.given titledPlans) := by
  intro request operation
  have hvalid : Validation.planIssues (titledShop.validationScope request) operation.declarations
      (Outline.ofType (.interface titled : NamedType Unit Thing)) titledPlans = [] :=
    List.isEmpty_iff.1 (by decide +kernel)
  have htypes : titledShop.registry.types = Registry.builtinScalars.map .scalar ++
      [.object titledBook, .interface titled, .object titledRoot] := rfl
  have hbook : .object titledBook ∈ titledShop.registry.types :=
    htypes ▸ List.mem_append_right _ (.head _)
  have hi : .interface titled ∈ titledShop.registry.types :=
    htypes ▸ List.mem_append_right _ (.tail _ (.head _))
  obtain ⟨-, hdispatches, -⟩ :=
    Schema.dispatches isFinished_titledShop hi request operation hvalid (.book "Emma")
  obtain ⟨-, -, hundispatched⟩ :=
    Schema.dispatches isFinished_titledShop hi request operation hvalid .shop
  refine ⟨isFinished_titledShop, hvalid, hdispatches titledBook hbook rfl rfl, hundispatched ?_⟩
  rintro ⟨o, -, hname, -⟩
  cases hname

end Bookshop

end Gazette
