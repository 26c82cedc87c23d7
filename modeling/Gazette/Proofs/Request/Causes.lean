import Gazette.Proofs.Request.Declared
import Gazette.Proofs.Request.Failures
import Gazette.Proofs.Schema.Faults

/-!
# Why fields fail

A field fails because an argument is missing or does not coerce, because its resolver fails, because
a value has no attribute of its name, or because its result is not one of its type
(`Field.FailsWith`).  In a finished registry look-ups by name find what is declared, so no other
cause is left: an unknown field, an unknown argument or an unknown type is never met, unless a
resolver reports one itself (`Schema.causes_of_isFinished`).
-/

namespace Gazette

variable {σ ν : Type} [Node ν]

/-! ## Results of other shapes -/

/-- Whether a result has the shape that a type asks for: a leaf or a value of an object. -/
def NamedType.TakesShape : NamedType σ ν → FieldValue ν → Prop
  | .scalar _, .leaf _ | .enum _, .leaf _ | .object _, .node _ | .interface _, .node _ => True
  | _, _ => False

/-- Whether an error says that a result is not of a type: a list, a leaf or a value of an object
where another of these is asked for, or a value that is not tagged with the object. -/
inductive Registry.Misfit (r : Registry σ ν) : TypeRef → FieldValue ν → FieldError → Prop
  | list {item : TypeRef} {result : FieldValue ν} (h : ∀ items, result ≠ .list items) :
    Misfit r (.list item) result (.typeMismatch (TypeRef.list item).text result.kind)
  | shape {name : String} {t : NamedType σ ν} {result : FieldValue ν}
    (hfind : r.find? name = some t) (h : ¬ t.TakesShape result) :
    Misfit r (.named name) result (.typeMismatch name result.kind)
  | tag {name : String} {o : ObjectType σ ν} {v : ν} (hfind : r.find? name = some (.object o))
    (h : Node.typeName v ≠ some o.name) :
    Misfit r (.named name) (.node v) (.typeMismatch o.name (Registry.tagOf v))
  | nonNull {inner : TypeRef} {result : FieldValue ν} {e : FieldError}
    (h : Misfit r inner result e) : Misfit r (.nonNull inner) result e
  | item {item : TypeRef} {items : List (FieldValue ν)} {i : FieldValue ν} {e : FieldError}
    (hi : i ∈ items) (h : Misfit r item i e) : Misfit r (.list item) (.list items) e

/-- Whether an error says that a result is null, no member of an enum, or of no object. -/
inductive FieldError.IsUnfit : FieldError → Prop
  | nullValue (type : String) : IsUnfit (.nullValue type)
  | invalidEnumValue (type value : String) : IsUnfit (.invalidEnumValue type value)
  | resolutionError (interface : String) : IsUnfit (.resolutionError interface)

namespace Registry

variable {r : Registry σ ν}

omit [Node ν] in
theorem not_takesShape_of_isInput {t : NamedType σ ν} (ht : t.isInput) {result : FieldValue ν}
    (h : ∀ value, result ≠ .leaf value) : ¬ t.TakesShape result := by
  cases result with
  | leaf value => exact absurd rfl (h value)
  | _ =>
    cases t with
    | scalar | enum => exact nofun
    | object | interface => cases ht

omit [Node ν] in
theorem not_takesShape_of_isOutput {t : NamedType σ ν} (ht : t.isInput = false)
    {result : FieldValue ν} (h : ∀ v, result ≠ .node v) : ¬ t.TakesShape result := by
  cases result with
  | node v => exact absurd rfl (h v)
  | _ =>
    cases t with
    | scalar | enum => cases ht
    | object | interface => exact nofun

theorem misfit_of_faultNamed {name : String} {t : NamedType σ ν} (hfind : r.find? name = some t)
    {result : FieldValue ν} {e : FieldError} (h : result.FaultNamed r name e) :
    e.IsUnfit ∨ r.Misfit (.named name) result e := by
  cases h with
  | unregistered hnone => cases hnone.symm.trans hfind
  | noLeaf hfind ht hleaf => exact .inr (.shape hfind (not_takesShape_of_isInput ht hleaf))
  | noNode hfind ht hnode => exact .inr (.shape hfind (not_takesShape_of_isOutput ht hnode))
  | noMember => exact .inl (.invalidEnumValue ..)
  | noName => exact .inl (.invalidEnumValue ..)
  | otherObject hfind htag => exact .inr (.tag hfind htag)
  | noObject => exact .inl (.resolutionError ..)

/-- Completion against a type that is registered fails for what the result is. -/
theorem complete_eq_error {type : TypeRef} {t : NamedType σ ν}
    (hfind : r.find? type.baseName = some t) {result : FieldValue ν} {e : FieldError}
    (h : r.complete type result = .error e) : e.IsUnfit ∨ r.Misfit type result e := by
  obtain ⟨p, hfault, -⟩ := exists_first_fault h
  clear h
  induction hfault with
  | null => exact .inl (.nullValue _)
  | nonNull _ _ ih => exact (ih hfind).imp_right .nonNull
  | noList _ hlist => exact .inr (.list hlist)
  | item hi _ ih => exact (ih hfind).imp_right (.item (List.mem_of_getElem? hi))
  | named _ hnamed => exact misfit_of_faultNamed hfind hnamed

/-! ## Arguments -/

omit [Node ν] in
/-- Binding fails for a declaration, if all names that are given are declared. -/
theorem exists_of_bind_error {field : String} {specs : List ArgumentSpec} {raw : Entries Value}
    (hknown : ∀ name ∈ raw.names, name ∈ specs.map ArgumentSpec.name) {e : FieldError}
    (h : r.bind field specs raw = .error e) :
    ∃ spec ∈ specs, ∃ raw', r.argumentValue field raw' spec = .error e := by
  rw [bind_eq_bindFrom hknown] at h
  exact exists_of_bindFrom_error h

end Registry

/-! ## Fields -/

/-- Whether the resolver of a field itself fails with an error, on some value. -/
def Field.Returns (f : Field σ ν) (e : FieldError) : Prop :=
  ∃ resolve parent arguments s, f.resolver = some resolve ∧
    (resolve parent arguments s).1 = .error e

/-- The ways in which a field of an object fails. -/
inductive Field.FailsWith (r : Registry σ ν) (object : String) (f : Field σ ν) : FieldError → Prop
  | missing {spec : ArgumentSpec} (hspec : spec ∈ f.arguments) (h : spec.isRequired) :
    FailsWith r object f (.missingArgument f.name spec.name)
  | coercion {spec : ArgumentSpec} (hspec : spec ∈ f.arguments) {value : Value}
    {reason : CoercionError} (h : r.coerce spec.type value = .error reason) :
    FailsWith r object f (Registry.argumentError f.name spec reason)
  | resolver {e : FieldError} (h : f.Returns e) : FailsWith r object f e
  | unread (h : f.resolver = none) : FailsWith r object f (.missingAttribute object f.name)
  | unfit {e : FieldError} (h : e.IsUnfit) : FailsWith r object f e
  | misfit {result : FieldValue ν} {e : FieldError} (h : r.Misfit f.type result e) :
    FailsWith r object f e

namespace Execution

theorem fieldResult_eq_error {object : String} {f : Field σ ν} {parent : ν} {b : BoundArguments}
    {s s' : σ} {e : FieldError} (h : fieldResult object f parent b s = (.error e, s')) :
    f.Returns e ∨ (f.resolver = none ∧ e = .missingAttribute object f.name) := by
  cases hresolver : f.resolver with
  | some resolve =>
    simp only [fieldResult, hresolver] at h
    exact .inl ⟨resolve, parent, b, s, hresolver, congrArg Prod.fst h⟩
  | none =>
    simp only [fieldResult, hresolver] at h
    split at h
    · cases h
    · exact .inr ⟨rfl, (Except.error.inj (congrArg Prod.fst h)).symm⟩

theorem failsWith_of_resolveField {r : Registry σ ν} {object : String} {f : Field σ ν}
    {parent : ν} {raw : Entries Value} {s s' : σ} {e : FieldError}
    (hknown : ∀ name ∈ raw.names, name ∈ f.arguments.map ArgumentSpec.name) {t : NamedType σ ν}
    (hfind : r.find? f.type.baseName = some t)
    (h : resolveField r object f parent raw s = (.error e, s')) : f.FailsWith r object e := by
  unfold resolveField at h
  split at h
  · rename_i hbind
    obtain ⟨spec, hspec, raw', hvalue⟩ := Registry.exists_of_bind_error hknown hbind
    obtain rfl := Except.error.inj (congrArg Prod.fst h)
    rcases Registry.argumentValue_eq_error hvalue with
      ⟨-, hrequired, rfl⟩ | ⟨value, reason, -, hc, rfl⟩
    · exact .missing hspec hrequired
    · exact .coercion hspec hc
  · split at h
    · rename_i hresult
      obtain rfl := Except.error.inj (congrArg Prod.fst h)
      rcases fieldResult_eq_error hresult with hreturns | ⟨hresolver, rfl⟩
      · exact .resolver hreturns
      · exact .unread hresolver
    · rename_i hresult
      rcases Registry.complete_eq_error hfind (congrArg Prod.fst h) with hunfit | hmisfit
      · exact .unfit hunfit
      · exact .misfit hmisfit

/-! ## Runs -/

/-- Whether every failure of a field in a trace has an error with a property. -/
def Trace.FailsOnly (P : FieldError → Prop) (t : Trace) : Prop :=
  ∀ v ∈ t.visits, ∀ failure ∈ v.failure?, P failure.error

namespace Trace

variable {P : FieldError → Prop}

omit [Node ν] in
theorem failsOnly_children {t : Trace}
    (hroot : ∀ failure ∈ (Visit.mk [] t).failure?, P failure.error)
    (h : ∀ c ∈ t.children, c.2.FailsOnly P) : t.FailsOnly P := by
  intro v hv failure hfailure
  rcases mem_visits_iff.1 hv with rfl | ⟨c, hc, w, hw, rfl⟩
  · exact hroot failure hfailure
  · rw [Visit.failure?_below] at hfailure
    obtain ⟨inner, hinner, rfl⟩ := Option.map_eq_some_iff.1 hfailure
    exact h c hc w hw inner hinner

theorem closed_failsOnly : Closed (FailsOnly P) where
  null := failsOnly_children nofun nofun
  leaf _ := failsOnly_children nofun nofun
  request _ := failsOnly_children nofun nofun
  list _ _ h := failsOnly_children nofun fun _ hc => h _ (mem_of_mem_ranItems hc).1

theorem failsOnly_object {members : List (Slot × Trace)} (h : ∀ m ∈ members, m.2.FailsOnly P) :
    (object members).FailsOnly P := by
  refine failsOnly_children nofun fun c hc => ?_
  obtain ⟨slot, hslot, -⟩ := exists_of_mem_ranMembers hc
  exact h _ hslot

end Trace

variable {scope : Scope σ ν}

mutual

/-- What a run comes to are the fields that its selections select. -/
theorem exists_of_mem_traceAll {o : ObjectType σ ν} {v : ν} {plans : List Plan} {s : σ}
    {m : Slot × Trace} (h : m ∈ (traceAll scope o v plans s).1) :
    ∃ f ∈ Plan.fieldsOn o plans, ∃ s', m ∈ (traceOne scope o v f.toPlan s').1 := by
  cases plans with
  | nil => cases h
  | cons p rest =>
    rw [traceAll] at h
    rw [Plan.fieldsOn]
    split at h
    · obtain ⟨f, hf, hm⟩ := exists_of_mem_traceOne h
      exact ⟨f, List.mem_append_left _ hf, hm⟩
    · rcases List.mem_append.1 h with h | h
      · obtain ⟨f, hf, hm⟩ := exists_of_mem_traceOne h
        exact ⟨f, List.mem_append_left _ hf, hm⟩
      · obtain ⟨f, hf, hm⟩ := exists_of_mem_traceAll h
        exact ⟨f, List.mem_append_right _ hf, hm⟩

theorem exists_of_mem_traceOne {o : ObjectType σ ν} {v : ν} {p : Plan} {s : σ}
    {m : Slot × Trace} (h : m ∈ (traceOne scope o v p s).1) :
    ∃ f ∈ p.fieldsOneOn o, ∃ s', m ∈ (traceOne scope o v f.toPlan s').1 := by
  cases p with
  | field head plans => exact ⟨⟨head, plans⟩, .head _, s, h⟩
  | fragment name condition directives plans =>
    rw [traceOne] at h
    rw [Plan.fieldsOneOn]
    split at h
    · rename_i happlies
      rw [if_pos happlies]
      exact exists_of_mem_traceAll h
    · cases h
  | missing name => cases h

end

omit [Node ν] in
theorem names_of_written {arguments : Arguments} {values : Entries Value}
    (h : scope.written arguments = .ok values) : values.names = arguments.map Prod.fst := by
  induction arguments generalizing values with
  | nil =>
    obtain rfl := Except.ok.inj h
    rfl
  | cons e rest ih =>
    obtain ⟨name, literal⟩ := e
    rw [Scope.written] at h
    split at h
    · obtain ⟨more, hmore, h⟩ := bind_eq_ok_iff.1 h
      obtain rfl := Except.ok.inj h
      rw [Entries.names, List.map_cons, List.map_cons, ← ih hmore]
      rfl
    · cases h

/-- Whether an error is one with which an ordinary field of some object fails. -/
def Blames (r : Registry σ ν) (e : FieldError) : Prop :=
  ∃ o, r.object? o.name = some o ∧ ∃ f ∈ o.fields, f.role = .ordinary ∧ f.FailsWith r o.name e

/-- That every error with which a selected field with a property fails has another property. -/
def FailsAs (scope : Scope σ ν) (P : ObjectType σ ν → Field σ ν → FieldHead → Prop)
    (Q : FieldError → Prop) : Prop :=
  ∀ o field (head : FieldHead) values parent s s' e, scope.registry.object? o.name = some o →
    field ∈ o.fields → field.role = .ordinary → P o field head →
    scope.written head.arguments = .ok values →
    resolveField scope.registry o.name field parent (withDefaults field.arguments values) s =
      (.error e, s') → Q e

/-- Selections fail only as the fields do that they select. -/
theorem Selects.failsOnly {P : ObjectType σ ν → Field σ ν → FieldHead → Prop}
    {Q : FieldError → Prop} (hfails : FailsAs scope P Q) {o : ObjectType σ ν}
    {plans : List Plan} (h : Selects scope.registry P o plans)
    (ho : scope.registry.object? o.name = some o) (v : ν) (s : σ) :
    ∀ m ∈ (traceAll scope o v plans s).1, m.2.FailsOnly Q := by
  induction h generalizing v s with
  | @intro o plans hfield hinside ih =>
    intro m hm
    obtain ⟨g, hg, s', hm⟩ := exists_of_mem_traceAll hm
    rw [FieldPlan.toPlan, traceOne] at hm
    split at hm
    · obtain rfl := List.mem_singleton.1 hm
      exact Trace.closed_failsOnly.leaf _
    · rename_i hname
      obtain ⟨field, hfound, hproperty⟩ := hfield g hg hname
      rw [hfound] at hm
      obtain rfl := List.mem_singleton.1 hm
      have hmem : field ∈ o.fields := List.mem_of_find?_eq_some hfound
      unfold traceAt
      cases hwritten : scope.written g.head.arguments with
      | error issue => exact Trace.closed_failsOnly.request issue
      | ok values =>
        dsimp only
        unfold traceWith
        rw [resolveDeclared_eq (Registry.field?_of_object ho hfound)]
        split
        · rename_i e _ hresolve
          cases hrole : field.role with
          | ordinary =>
            refine Trace.failsOnly_children (fun failure hfailure => ?_) (List.forall_mem_nil _)
            simp only [Visit.failure?, causeOf, hrole, Option.mem_some_iff] at hfailure
            rw [← hfailure]
            exact hfails o field g.head values v _ _ e ho hmem hrole hproperty hwritten hresolve
          | _ =>
            rw [causeOf, hrole]
            exact Trace.closed_failsOnly.request _
        · exact Trace.closed_failsOnly.null
        · rename_i hresolve
          refine Trace.closed_failsOnly.traceValue (fits_of_resolveField hresolve)
            (fun o' v' s ho' => ?_) _
          exact Trace.failsOnly_object
            (ih g hg hname field hfound o' ho' ho'.object?_eq v' s)

omit [Node ν] in
theorem names_of_declaresWritten {o : ObjectType σ ν} {field : Field σ ν} {head : FieldHead}
    (h : DeclaresWritten o field head) {values : Entries Value}
    (hwritten : scope.written head.arguments = .ok values) :
    ∀ name ∈ Entries.names (withDefaults field.arguments values),
      name ∈ field.arguments.map ArgumentSpec.name := by
  refine names_withDefaults fun name hname => ?_
  rw [names_of_written hwritten] at hname
  obtain ⟨e, he, rfl⟩ := List.mem_map.1 hname
  exact h e he

/-- Declared fields fail in the ways that fields have. -/
theorem failsAs_blames (hclosed : scope.registry.IsClosed) :
    FailsAs scope DeclaresWritten (Blames scope.registry) := by
  intro o field head values parent s s' e ho hmem hrole hdeclares hwritten hresolve
  obtain ⟨t, ht⟩ := hclosed.field o.name o ho field hmem
  exact ⟨o, ho, field, hmem, hrole,
    failsWith_of_resolveField (names_of_declaresWritten hdeclares hwritten) ht hresolve⟩

omit [Node ν] in
/-- An error of a response is one that its trace settles to. -/
theorem exists_failure_of_mem_response {x : Settled Value} {e : ResponseError}
    (he : e ∈ x.response.errors) {error : FieldError} {location : Location}
    (hcause : e.cause = .field error location) :
    ∃ failure ∈ x.failures [], failure.error = error := by
  have hfailure : e.failure? [] = some ⟨e.path.getD [], error, location⟩ := by
    rw [ResponseError.failure?, hcause]
  have hmem : e ∈ x.caught ∨ e ∈ raised x.outcome := by
    unfold Settled.response at he
    split at he
    · exact .inl he
    · rename_i hraised
      rw [hraised]
      exact (List.mem_cons.1 he).symm.imp id List.mem_singleton.2
  refine ⟨⟨e.path.getD [], error, location⟩, List.mem_append.2 (hmem.imp ?_ ?_), rfl⟩
  all_goals exact fun hmem => List.mem_filterMap.2 ⟨e, hmem, hfailure⟩

end Execution

omit [Node ν] in
theorem ResponseError.cause_of_failure? {e : ResponseError} {around : Path} {failure : Failure}
    (h : e.failure? around = some failure) : e.cause = .field failure.error failure.location := by
  cases hcause : e.cause with
  | request issue =>
    rw [failure?, hcause] at h
    cases h
  | field error location =>
    rw [failure?, hcause] at h
    obtain rfl := Option.some.inj h
    rfl

/-! ## What a finished registry rules out -/

theorem Registry.Misfit.exists_typeMismatch {r : Registry σ ν} {type : TypeRef}
    {result : FieldValue ν} {e : FieldError} (h : r.Misfit type result e) :
    ∃ expected found, e = .typeMismatch expected found := by
  induction h with
  | list _ => exact ⟨_, _, rfl⟩
  | shape _ _ => exact ⟨_, _, rfl⟩
  | tag _ _ => exact ⟨_, _, rfl⟩
  | nonNull _ ih => exact ih
  | item _ _ ih => exact ih

namespace Field.FailsWith

variable {r : Registry σ ν} {object : String} {f : Field σ ν} {e : FieldError}

/-- A failure that is not the resolver's own is a result of another type, or has another code. -/
theorem returns_or (h : f.FailsWith r object e) : f.Returns e ∨
    (∃ result, r.Misfit f.type result e) ∨
    e.code ∉ ["UNKNOWN_FIELD", "UNKNOWN_ARGUMENT", "TYPE_MISMATCH"] := by
  cases h with
  | resolver h => exact .inl h
  | misfit h => exact .inr (.inl ⟨_, h⟩)
  | missing _ _ => exact .inr (.inr (by simp [FieldError.code]))
  | unread _ => exact .inr (.inr (by simp [FieldError.code]))
  | unfit h => exact .inr (.inr (by cases h <;> simp [FieldError.code]))
  | @coercion _ _ _ reason _ =>
    exact .inr (.inr (by cases reason <;> simp [Registry.argumentError, FieldError.code]))

/-- Only a resolver says that a field or an argument is unknown. -/
theorem returns_of_code (h : f.FailsWith r object e)
    (hcode : e.code = "UNKNOWN_FIELD" ∨ e.code = "UNKNOWN_ARGUMENT") : f.Returns e := by
  rcases h.returns_or with hreturns | ⟨result, hmisfit⟩ | hother
  · exact hreturns
  · obtain ⟨expected, found, rfl⟩ := hmisfit.exists_typeMismatch
    simp [FieldError.code] at hcode
  · rcases hcode with hcode | hcode <;> simp [hcode] at hother

/-- Only a resolver, or a result of another type, makes a mismatch. -/
theorem returns_or_misfit (h : f.FailsWith r object e) (hcode : e.code = "TYPE_MISMATCH") :
    f.Returns e ∨ ∃ result, r.Misfit f.type result e := by
  rcases h.returns_or with hreturns | hmisfit | hother
  · exact .inl hreturns
  · exact .inr hmisfit
  · simp [hcode] at hother

end Field.FailsWith

omit [Node ν] in
/-- A field on subjects returns the errors that the field itself returns. -/
theorem Field.Returns.of_liftField {root : ν} {f : Field σ ν} {e : FieldError}
    (h : (Registry.liftField root f).Returns e) : f.Returns e := by
  obtain ⟨resolve, parent, arguments, s, hresolver, he⟩ := h
  obtain ⟨own, hown, rfl⟩ := Option.map_eq_some_iff.1 hresolver
  cases parent with
  | value v => exact ⟨own, v, arguments, s, hown, map_eq_error_iff.1 he⟩
  | part p => exact ⟨own, root, arguments, s, hown, map_eq_error_iff.1 he⟩

namespace Registry

omit [Node ν] in
theorem IsRegular.field?_eq {r : Registry σ ν} (h : r.IsRegular) {o : ObjectType σ ν}
    (ho : .object o ∈ r.types) {f : Field σ ν} (hf : f ∈ o.fields) :
    r.field? o.name f.name = some f :=
  field?_of_object (object?_eq_some_iff.2 (h.find?_of_mem ho)) (h.field?_of_mem ho hf)

end Registry

namespace Schema

open Execution

variable {schema : Schema σ ν}

/-- The errors of fields in a response are those with which the selected fields fail. -/
theorem property_of_mem_errors {StandsFor : Outline → ObjectType σ (Subject ν) → Prop}
    {P : ObjectType σ (Subject ν) → Field σ (Subject ν) → FieldHead → Prop}
    {Q : FieldError → Prop} {request : Request}
    (hgrants : ∀ operation, Grants (schema.scope request operation) StandsFor P)
    (hroot : ∀ o, StandsFor (Outline.ofType (.object o)) o)
    (hfails : ∀ operation, FailsAs (schema.scope request operation) P Q) {s : σ}
    {e : ResponseError} (he : e ∈ (schema.respond request s).1.errors) {error : FieldError}
    {location : Location} (hcause : e.cause = .field error location) : Q error := by
  cases hselect : schema.select request with
  | error issues =>
    rw [respond_of_select_error hselect] at he
    obtain ⟨issue, -, rfl⟩ := List.mem_map.1 he
    cases hcause
  | ok selected =>
    rw [respond_eq_response hselect] at he
    obtain ⟨failure, hfailure, rfl⟩ := exists_failure_of_mem_response he hcause
    rw [Trace.failures_settle, Failure.map_within_nil] at hfailure
    obtain ⟨v, hv, hfailure⟩ := List.mem_filterMap.1 hfailure
    have hselects := selects_of_select hselect (hgrants _) (hroot _)
    have hfound := object?_root_of_select hselect
    have honly : ∀ m ∈ (traceAll (schema.scope request selected.operation) selected.root
        (.value schema.root) selected.plans s).1, m.2.FailsOnly Q :=
      Selects.failsOnly (hfails _) hselects hfound _ s
    exact Trace.failsOnly_object honly v hv failure hfailure

theorem blames_of_mem_errors (hfinished : schema.registry.IsFinished) {request : Request} {s : σ}
    {e : ResponseError} (he : e ∈ (schema.respond request s).1.errors) {error : FieldError}
    {location : Location} (hcause : e.cause = .field error location) :
    Blames schema.executable error :=
  property_of_mem_errors
    (fun _ => grants_declaresWritten (hfinished.keepsInterfaces_withIntrospection schema.root))
    (fun o => (Outline.represents_object o).covers)
    (fun _ => failsAs_blames (hfinished.isClosed_withIntrospection schema.root)) he hcause

/-- In a schema of a finished registry every field is found under its names, also when introspection
has been added, and every name that a field or an argument refers to is registered.  So no run says
that a field or an argument is unknown, and results mismatch only in their shape or their tag,
unless a resolver says so itself. -/
theorem causes_of_isFinished (hfinished : schema.registry.IsFinished) :
    (∀ o, .object o ∈ schema.registry.types → ∀ f ∈ o.fields,
      schema.registry.field? o.name f.name = some f ∧
      resolveDeclared schema.registry o.name f.name = resolveField schema.registry o.name f ∧
      schema.executable.field? o.name f.name = some (Registry.liftField schema.root f)) ∧
    schema.registry.IsClosed ∧ schema.executable.IsClosed ∧
    ∀ request s, ∀ e ∈ (schema.respond request s).1.errors, ∀ error location,
      e.cause = .field error location →
      ∃ o f, .object o ∈ schema.registry.types ∧ f ∈ o.fields ∧
        (error.code = "UNKNOWN_FIELD" ∨ error.code = "UNKNOWN_ARGUMENT" → f.Returns error) ∧
        (error.code = "TYPE_MISMATCH" →
          f.Returns error ∨ ∃ result, schema.executable.Misfit f.type result error) := by
  refine ⟨fun o ho f hf => ?_, hfinished.isClosed, hfinished.isClosed_withIntrospection schema.root,
    fun request s e he error location hcause => ?_⟩
  · have hdeclared := hfinished.isRegular.field?_eq ho hf
    have hobject := Registry.object?_eq_some_iff.2 (hfinished.isRegular.find?_of_mem ho)
    have hlifted := Registry.object?_withIntrospection_of_some hobject schema.root
    exact ⟨hdeclared, resolveDeclared_eq hdeclared, Registry.field?_of_object hlifted
      (Registry.field?_lifted_of_some (hfinished.isRegular.field?_of_mem ho hf) _ schema.root)⟩
  obtain ⟨O, hO, F, hF, hrole, hfails⟩ := blames_of_mem_errors hfinished he hcause
  obtain ⟨o, f, ho, hf, rfl, rfl⟩ := Registry.exists_of_ordinary hO hF hrole
  exact ⟨o, f, ho, hf, fun hcode => (hfails.returns_of_code hcode).of_liftField,
    fun hcode => (hfails.returns_or_misfit hcode).imp_left Field.Returns.of_liftField⟩

end Schema

namespace Bookshop

/-- A shop whose only field has a resolver that says there is no such field. -/
def closedShop : Schema Unit Thing where
  registry := (Registry.empty "Query").performAll [.register (.object {
    name := "Query"
    fields := [{
      name := "clerk"
      type := .named builtin.string
      resolver := some fun _ _ s => (.error (.unknownField "Query" "clerk"), s) }] })]
  root := .shop
  depthLimit := Schema.defaultDepthLimit

/-- A request for its only field. -/
def clerkQuery : Request where
  query := "{ clerk }"

theorem isFinished_closedShop : closedShop.registry.IsFinished :=
  ⟨⟨"Query", _, rfl⟩, by rfl⟩

theorem exists_error_clerk : ∃ e ∈ (closedShop.respond clerkQuery ()).1.errors, ∃ error location,
    e.cause = .field error location ∧ error.code = "UNKNOWN_FIELD" := by
  have hcodes : (((closedShop.respond clerkQuery ()).1.errors.filterMap
      (ResponseError.failure? [])).any fun failure => failure.error.code = "UNKNOWN_FIELD") =
      true := by decide +kernel
  obtain ⟨failure, hfailure, hcode⟩ := List.any_eq_true.1 hcodes
  obtain ⟨e, he, hsome⟩ := List.mem_filterMap.1 hfailure
  exact ⟨e, he, _, _, ResponseError.cause_of_failure? hsome, of_decide_eq_true hcode⟩

/-- What the resolver says stands in the response, though the registry is finished and makes a
schema. -/
theorem unknownField_clerk : closedShop.registry.IsFinished ∧
    Schema.ofRegistry closedShop.registry closedShop.root = .ok closedShop ∧
    ∃ e ∈ (closedShop.respond clerkQuery ()).1.errors, ∃ error location,
      e.cause = .field error location ∧ error.code = "UNKNOWN_FIELD" :=
  ⟨isFinished_closedShop, by rfl, exists_error_clerk⟩

/-- It is the resolver of a declared field that says so. -/
theorem causes_of_isFinished_clerk : closedShop.registry.IsFinished ∧
    ∃ e ∈ (closedShop.respond clerkQuery ()).1.errors, ∃ error location,
      e.cause = .field error location ∧ error.code = "UNKNOWN_FIELD" ∧
      ∃ o f, .object o ∈ closedShop.registry.types ∧ f ∈ o.fields ∧ f.Returns error := by
  obtain ⟨-, -, -, herrors⟩ := Schema.causes_of_isFinished isFinished_closedShop
  obtain ⟨e, he, error, location, hcause, hcode⟩ := exists_error_clerk
  obtain ⟨o, f, ho, hf, hreturns, -⟩ := herrors clerkQuery () e he error location hcause
  exact ⟨isFinished_closedShop, e, he, error, location, hcause, hcode, o, f, ho, hf,
    hreturns (.inl hcode)⟩

end Bookshop

end Gazette
