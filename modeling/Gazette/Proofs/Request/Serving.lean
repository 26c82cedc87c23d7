import Gazette.Proofs.Request.Arguments
import Gazette.Proofs.Request.Rendering

/-!
# Runs without errors

If every field has a result of its declared type (`Registry.Serves`), then selections whose fields
exist and whose arguments bind (`Runnable`) run without an error and leave the state as it is.  If
they are mergeable, too, then what they give shows what they select (`Runnable.answers`).
-/

namespace Gazette

variable {σ ν : Type}

/-! ## Results -/

/-- What is asked of the leaves of a result, given what is asked of the values of objects. -/
def Demand.results (node : String → ν → Prop) : Demand ν :=
  ⟨fun name value => value.isAtomic ∧ Validation.scalarHas name value, node⟩

/-- Whether the items of the lists of a type are neither null nor lists. -/
def TypeRef.hasPlainItems : TypeRef → Bool
  | .named _ => true
  | .nonNull inner => inner.hasPlainItems
  | .list item => item.isNonNull && (Validation.itemType? item).isNone && item.hasPlainItems

theorem Value.isList_of_isAtomic {value : Value} (h : value.isAtomic) : value.isList = false := by
  cases value with
  | list items => cases h
  | _ => rfl

/-- Whether every field of an object has a result of its type, on all values that are allowed for
the object and with all arguments that bind. -/
structure Registry.Serves [Node ν] (r : Registry σ ν) (node : String → ν → Prop) (s : σ) :
    Prop where
  plain : ∀ o, r.object? o.name = some o → ∀ f ∈ o.fields, f.type.hasPlainItems
  result : ∀ o, r.object? o.name = some o → ∀ v, node o.name v → ∀ f ∈ o.fields, ∀ b, r.Binds f b →
    ∃ result, Execution.fieldResult o.name f v b s = (.ok result, s) ∧
      result.Proper r (.results node) f.type

namespace Execution

/-! ## Runs that give a result -/

namespace Run

variable {α β : Type} {s : σ}

/-- Whether a run gives a result at a state and changes nothing. -/
def Gives (s : σ) (run : Run σ α) (a : α) : Prop :=
  ∀ recorded, run ⟨s, recorded⟩ = (.ok a, ⟨s, recorded⟩)

theorem gives_done (a : α) : Gives s (done a) a := fun _ => rfl

theorem Gives.andThen {run : Run σ α} {next : α → Run σ β} {a : α} {b : β} (h : Gives s run a)
    (hnext : Gives s (next a) b) : Gives s (run.andThen next) b :=
  fun recorded => (andThen_of_ok (h recorded)).trans (hnext recorded)

theorem Gives.mapResult {run : Run σ α} {a : α} (h : Gives s run a) (f : α → β) :
    Gives s (run.mapResult f) (f a) := h.andThen (gives_done (f a))

theorem Gives.position {run : Run σ Value} {value : Value} (h : Gives s run value) (type : TypeRef)
    (path : Path) : Gives s (position type path run) value :=
  fun recorded => position_of_ok (h recorded) type path

theorem gives_eachFrom {run : Nat → α → Run σ β} {as : List α} {bs : List β}
    (h : List.Forall₂ (fun a b => ∀ i, Gives s (run i a) b) as bs) (i : Nat) :
    Gives s (eachFrom run i as) bs := by
  induction h generalizing i with
  | nil => exact gives_done []
  | cons hab _ ih => exact (hab i).andThen ((ih (i + 1)).mapResult _)

end Run

/-- Whether the fields that are selected on an object exist and their arguments bind, and so for all
that is selected inside them. -/
inductive Runnable (scope : Scope σ ν) : ObjectType σ ν → List Plan → Prop
  | intro {o : ObjectType σ ν} {plans : List Plan}
    (bound : ∀ f ∈ Plan.fieldsOn o plans, f.head.name ≠ Plan.typeNameField →
      ∃ field b, o.field? f.head.name = some field ∧
        scope.boundArguments? field f.head.arguments = some b ∧ scope.registry.Binds field b)
    (inside : ∀ f ∈ Plan.fieldsOn o plans, f.head.name ≠ Plan.typeNameField →
      ∀ field, o.field? f.head.name = some field →
        ∀ o', scope.registry.Possible field.type.baseName o' → Runnable scope o' f.plans) :
    Runnable scope o plans

variable [Node ν] {scope : Scope σ ν} {s : σ} {node : String → ν → Prop} {o : ObjectType σ ν}
    {v : ν}
  {plans : List Plan}

/-- How the selections inside a field run. -/
def insideOf (scope : Scope σ ν) (plans : List Plan) : Inside σ ν :=
  fun o v path => (executeAll scope o v path plans).mapResult Value.ofSelections

/-- Whether selections run on a value of an object, with results that show what they select if they
are mergeable. -/
def Answers (scope : Scope σ ν) (s : σ) (o : ObjectType σ ν) (v : ν) (plans : List Plan) : Prop :=
  ∃ results, (∀ path, Run.Gives s (executeAll scope o v path plans) results) ∧
    (scope.Mergeable o plans →
      Shows scope s o v (Plan.fieldsOn o plans) (Value.mergeMembers [] results))

/-! ## Completed values -/

/-- Whether a completed value is presented by a value that renders it. -/
def Presents (scope : Scope σ ν) (s : σ) (type : TypeRef) (c : Completed ν) (plans : List Plan)
    (value : Value) : Prop :=
  (∀ path, Run.Gives s (present scope (insideOf scope plans) type c path) value) ∧
    ((∀ o, scope.registry.Possible type.baseName o → scope.Mergeable o plans) →
      Renders scope s type c plans value)

theorem Answers.presents {name : String} {c : Completed ν} (h : Answers scope s o v plans)
    (hof : c.IsOf scope.registry name o v) :
    ∃ members, Presents scope s (.named name) c plans (.object members) := by
  obtain ⟨results, hgives, hshows⟩ := h
  refine ⟨Value.mergeMembers [] results, fun path => ?_, fun hmergeable => ?_⟩
  · have hpresent := (hgives path).mapResult Value.ofSelections
    rw [present]
    cases hof with
    | object hfind hc =>
      unfold presentNamed
      rw [hc, hfind]
      exact hpresent
    | interface i hfind ho hi hc =>
      unfold presentNamed
      rw [hc, hfind]
      simp only [ho]
      exact hpresent
  · exact (hshows (hmergeable o hof.possible)).renders hof

theorem exists_presentNamed {name : String} {c : Completed ν}
    (hfits : c.FitsNamed scope.registry (.results node) name)
    (hinside : ∀ o v, scope.registry.Possible name o → node o.name v → Answers scope s o v plans) :
    ∃ value, value.isNull = false ∧ value.isList = false ∧
      Presents scope s (.named name) c plans value := by
  unfold Completed.FitsNamed at hfits
  split at hfits
  · rename_i t value hfind
    obtain ⟨hnull, hatomic, hscalar⟩ := hfits
    refine ⟨value, hnull, Value.isList_of_isAtomic hatomic, fun path => ?_, fun _ => ?_⟩
    · rw [present]
      unfold presentNamed
      rw [hfind]
      exact Run.gives_done value
    · exact .leaf hatomic ⟨hnull, by rw [hfind]; exact hscalar⟩
  · rename_i e value hfind
    obtain ⟨member, rfl, hmember⟩ := hfits
    refine ⟨.enum member, rfl, rfl, fun path => ?_, fun _ => ?_⟩
    · rw [present]
      unfold presentNamed
      rw [hfind]
      exact Run.gives_done _
    · exact .leaf rfl ⟨rfl, by rw [hfind]; exact ⟨member, rfl, hmember⟩⟩
  · rename_i o v hfind
    have hof : (Completed.node v).IsOf scope.registry name o v := .object hfind rfl
    obtain ⟨members, hpresents⟩ := (hinside o v hof.possible hfits.2).presents hof
    exact ⟨.object members, rfl, rfl, hpresents⟩
  · rename_i i tag v hfind
    obtain ⟨-, ⟨o, ho, hi⟩, hnode⟩ := hfits
    obtain ⟨-, rfl⟩ := Registry.mem_of_object? ho
    have hof : (Completed.tagged o.name v).IsOf scope.registry name o v :=
      .interface i hfind ho hi rfl
    obtain ⟨members, hpresents⟩ := (hinside o v hof.possible hnode).presents hof
    exact ⟨.object members, rfl, rfl, hpresents⟩
  · exact hfits.elim

/-- A completed value that fits its type is presented. -/
theorem exists_present {type : TypeRef} {c : Completed ν} (hplain : type.hasPlainItems)
    (hne : c ≠ .null) (hfits : c.Fits scope.registry (.results node) type)
    (hinside : ∀ o v, scope.registry.Possible type.baseName o → node o.name v →
      Answers scope s o v plans) :
    ∃ value, value.isNull = false ∧ (Validation.itemType? type = none → value.isList = false) ∧
      Presents scope s type c plans value := by
  induction type generalizing c with
  | nonNull inner ih =>
    obtain ⟨value, hnull, hlist, hgives, hrenders⟩ := ih hplain hne hfits.2 hinside
    refine ⟨value, hnull, hlist, fun path => ?_,
      fun hmergeable => .nonNull hnull (hrenders hmergeable)⟩
    rw [present]
    exact hgives path
  | list item ih =>
    simp only [TypeRef.hasPlainItems, Bool.and_eq_true, Option.isNone_iff_eq_none] at hplain
    obtain ⟨⟨hnonNull, hflat⟩, hplain⟩ := hplain
    obtain ⟨cs, rfl, hcs⟩ := hfits.resolve_left hne
    have hitem : ∀ c ∈ cs, ∃ value, value.isList = false ∧ Presents scope s item c plans value := by
      intro c hc
      have hnotNull : c ≠ .null := by
        cases item with
        | nonNull inner => exact (hcs c hc).1
        | _ => cases hnonNull
      obtain ⟨value, -, hlist, hpresents⟩ := ih hplain hnotNull (hcs c hc) hinside
      exact ⟨value, hlist hflat, hpresents⟩
    obtain ⟨values, hvalues⟩ := exists_forall₂ hitem
    refine ⟨.list values, rfl, nofun, fun path => ?_, fun hmergeable => ?_⟩
    · rw [present]
      refine (Run.gives_eachFrom (hvalues.imp fun c value h i => ?_) 0).mapResult _
      exact (h.2.1 _).position item _
    · refine .list hvalues.length_eq (forall_of_forall₂ hvalues fun _ _ h => h.1) ?_
      intro i c value hc hvalue
      obtain ⟨hi, rfl⟩ := List.getElem?_eq_some_iff.1 hc
      obtain ⟨hi', rfl⟩ := List.getElem?_eq_some_iff.1 hvalue
      exact (hvalues.get hi hi').2.2 hmergeable
  | named name =>
    obtain ⟨value, hnull, hlist, hpresents⟩ := exists_presentNamed (hfits.resolve_left hne) hinside
    exact ⟨value, hnull, fun _ => hlist, hpresents⟩

/-! ## Fields -/

theorem renders_null {d : Demand ν} {type : TypeRef}
    (h : (Completed.null : Completed ν).Fits scope.registry d type) :
    Renders scope s type .null plans .null := by
  cases type with
  | nonNull inner => exact absurd rfl h.1
  | list item => exact .nullList
  | named name => exact .nullName

/-- The role of a field makes no difference to what it gives. -/
theorem gives_runAt {inside : Inside σ ν} {object : String} {field : Field σ ν} {head : FieldHead}
    {values : Entries Value} {value : Value} (hwritten : scope.written head.arguments = .ok values)
    (h : ∀ path, Run.Gives s (runWith scope inside object field head v path values) value)
    (path : Path) : Run.Gives s (runAt scope inside object field head v path) value := by
  have hvalues : Run.Gives s (runWritten scope head.arguments) values := by
    rw [runWritten, hwritten]
    exact Run.gives_done values
  unfold runAt
  cases field.role with
  | ordinary => exact hvalues.andThen ((h _).position _ _)
  | gateway => exact hvalues.andThen (h _)
  | introspective => exact (hvalues.andThen (h _)).position _ _

/-- A field whose arguments bind runs, wherever it stands. -/
theorem exists_runAt (hserves : scope.registry.Serves node s)
    (ho : scope.registry.object? o.name = some o) (hv : node o.name v) {head : FieldHead}
    {field : Field σ ν} (hfield : o.field? head.name = some field) {b : BoundArguments}
    (hbound : scope.boundArguments? field head.arguments = some b)
    (hbinds : scope.registry.Binds field b)
    (hinside : ∀ o' v', scope.registry.Possible field.type.baseName o' → node o'.name v' →
      Answers scope s o' v' plans) :
    ∃ c value, Served scope s o v ⟨head, plans⟩ field c ∧
      (∀ path, Run.Gives s (runAt scope (insideOf scope plans) o.name field head v path) value) ∧
      ((∀ o', scope.registry.Possible field.type.baseName o' → scope.Mergeable o' plans) →
        Renders scope s field.type c plans value) := by
  have hmem : field ∈ o.fields := List.mem_of_find?_eq_some hfield
  obtain ⟨values, hwritten, hbind⟩ := Scope.boundArguments?_eq_some_iff.1 hbound
  obtain ⟨result, hresult, hproper⟩ := hserves.result o ho v hv field hmem b hbinds
  obtain ⟨completed, hcomplete, hfits⟩ := Registry.complete_of_proper hproper
  obtain ⟨-, -, hnotNull⟩ := Registry.fits_of_complete hcomplete
  have hrun : Run.Gives s (runField scope o.name field v (withDefaults field.arguments values)
      head.remaining) completed := by
    intro recorded
    have hresolve := resolveField_of_bind hbind hresult
    simp only [runField, resolveDeclared_eq (Registry.field?_of_object ho hfield), hresolve,
      hcomplete]
  have hserved : Served scope s o v ⟨head, plans⟩ field (completed.getD .null) :=
    ⟨hfield, b, result, completed, hbound, hresult, hcomplete, rfl⟩
  cases completed with
  | none =>
    refine ⟨_, .null, hserved, gives_runAt hwritten fun path => ?_, fun _ => renders_null hfits⟩
    exact hrun.andThen (Run.gives_done _)
  | some c =>
    have hne : c ≠ .null := fun heq => hnotNull (congrArg some heq)
    obtain ⟨value, -, -, hgives, hrenders⟩ :=
      exists_present (hserves.plain o ho field hmem) hne hfits
      hinside
    refine ⟨c, value, hserved, gives_runAt hwritten fun path => ?_, hrenders⟩
    exact hrun.andThen (hgives path)

/-! ## Selections -/

theorem shows_typeName {f : FieldPlan} (hname : f.head.name = Plan.typeNameField) :
    Shows scope s o v [f] [(f.key, .string o.name)] := by
  refine ⟨by simp [Entries.names], by simp [Entries.names, eq_comm], ?_, ?_, ?_⟩
  · intro g hg _
    obtain rfl := List.mem_singleton.1 hg
    rw [List.lookup_cons_self]
  · intro g hg hne
    exact absurd (List.mem_singleton.1 hg ▸ hname) hne
  · intro g hg hne
    exact absurd (List.mem_singleton.1 hg ▸ hname) hne

theorem shows_served {f : FieldPlan} {field : Field σ ν} {c : Completed ν} {value : Value}
    (hname : f.head.name ≠ Plan.typeNameField) (hserved : Served scope s o v f field c)
    (hrenders : Renders scope s field.type c f.plans value) :
    Shows scope s o v [f] [(f.key, value)] := by
  refine ⟨by simp [Entries.names], by simp [Entries.names, eq_comm], ?_, ?_, ?_⟩
  · intro g hg heq
    exact absurd (List.mem_singleton.1 hg ▸ heq) hname
  · intro g hg _
    obtain rfl := List.mem_singleton.1 hg
    exact ⟨field, c, hserved⟩
  · intro g hg _ field' c' hserved' member hmember
    obtain rfl := List.mem_singleton.1 hg
    obtain ⟨rfl, rfl⟩ := hserved.unique hserved'
    rw [List.lookup_cons_self] at hmember
    rw [FieldPlan.collect_singleton, ← Option.some.inj hmember]
    exact hrenders

/-- A selected field gives one result, which shows it. -/
theorem exists_executeOne (hserves : scope.registry.Serves node s)
    (ho : scope.registry.object? o.name = some o) (hv : node o.name v) {f : FieldPlan}
    (hbound : f.head.name ≠ Plan.typeNameField → ∃ field b, o.field? f.head.name = some field ∧
      scope.boundArguments? field f.head.arguments = some b ∧ scope.registry.Binds field b)
    (hinside : f.head.name ≠ Plan.typeNameField → ∀ field, o.field? f.head.name = some field →
      ∀ o' v', scope.registry.Possible field.type.baseName o' → node o'.name v' →
        Answers scope s o' v' f.plans) :
    ∃ value, (∀ path, Run.Gives s (executeOne scope o v path f.toPlan) [(f.key, value)]) ∧
      (scope.MergeableFields o [f] → Shows scope s o v [f] [(f.key, value)]) := by
  by_cases hname : f.head.name = Plan.typeNameField
  · refine ⟨.string o.name, fun path => ?_, fun _ => shows_typeName hname⟩
    rw [FieldPlan.toPlan, executeOne, if_pos hname]
    exact Run.gives_done _
  · obtain ⟨field, b, hfield, hb, hbinds⟩ := hbound hname
    obtain ⟨c, value, hserved, hgives, hrenders⟩ := exists_runAt hserves ho hv hfield hb hbinds
      (hinside hname field hfield)
    refine ⟨value, fun path => ?_, fun hmergeable => shows_served hname hserved (hrenders ?_)⟩
    · rw [FieldPlan.toPlan, executeOne, if_neg hname]
      simp only [hfield]
      exact (hgives path).mapResult _
    · intro o' ho'
      have hinner := hmergeable.inside f (by simp) field hfield o' ho'
      rwa [FieldPlan.collect_singleton] at hinner

/-- Fields that each give one result give these in order. -/
theorem gives_executeFields {fields : List FieldPlan} {results : List (String × Value)}
    (h : List.Forall₂ (fun f e => ∀ path, Run.Gives s (executeOne scope o v path f.toPlan) [e])
      fields results) (path : Path) :
    Run.Gives s (executeFields scope o v path fields) results := by
  induction h with
  | nil => exact Run.gives_done []
  | cons hf _ ih => exact (hf path).andThen (ih.mapResult _)

/-- Further results are merged into an object one after the other. -/
theorem Shows.mergeAll {fields further : List FieldPlan} {members : Entries Value}
    {results : List (String × Value)} (h : Shows scope s o v fields members)
    (hresults : List.Forall₂ (fun f e => scope.MergeableFields o [f] → Shows scope s o v [f] [e])
      further results) (hmergeable : scope.MergeableFields o (fields ++ further)) :
    Shows scope s o v (fields ++ further) (Value.mergeMembers members results) := by
  induction hresults generalizing fields members with
  | nil => rwa [List.append_nil, Value.mergeMembers_nil]
  | @cons f e further results hf _ ih =>
    have hsplit : fields ++ f :: further = (fields ++ [f]) ++ further := by simp
    rw [hsplit] at hmergeable ⊢
    have hfields := hmergeable.sublist (List.sublist_append_left (fields ++ [f]) further)
    have hone := hf (hfields.sublist (List.sublist_append_right fields [f]))
    have hstep := h.merge hone hfields fun g hg hname field c hserved value hvalue more new hnew =>
      Renders.merge (h.value g hg hname field c hserved value hvalue) hnew
    have hcons : Value.mergeMembers members (e :: results) =
        Value.mergeMembers (Value.mergeMembers members [e]) results :=
      Value.mergeMembers_append members [e] results
    rw [hcons]
    exact ih hstep hmergeable

/-- Selections that can run do so on every value that is allowed, without an error. -/
theorem Runnable.answers (h : Runnable scope o plans) (hserves : scope.registry.Serves node s)
    (ho : scope.registry.object? o.name = some o) (hv : node o.name v) :
    Answers scope s o v plans := by
  induction h generalizing v with
  | @intro o plans bound inside ih =>
    have hone : ∀ f ∈ Plan.fieldsOn o plans, ∃ e : String × Value,
        (∀ path, Run.Gives s (executeOne scope o v path f.toPlan) [e]) ∧
          (scope.MergeableFields o [f] → Shows scope s o v [f] [e]) := by
      intro f hf
      obtain ⟨value, hvalue⟩ := exists_executeOne hserves ho hv (bound f hf)
        fun hname field hfield o' v' ho' hv' => ih f hf hname field hfield o' ho' ho'.object?_eq hv'
      exact ⟨_, hvalue⟩
    obtain ⟨results, hresults⟩ := exists_forall₂ hone
    refine ⟨results, fun path => ?_, fun hmergeable => ?_⟩
    · rw [executeAll_eq]
      exact gives_executeFields (hresults.imp fun _ _ h => h.1) path
    · have hempty : Shows scope s o v [] [] := by
        refine ⟨.nil, by simp [Entries.names], ?_, ?_, ?_⟩ <;> exact fun f hf => absurd hf (by simp)
      exact hempty.mergeAll (hresults.imp fun _ _ h => h.2) hmergeable.fields

/-- Selections that run without an error make a response without one. -/
theorem respond_of_gives {results : List (String × Value)}
    (h : Run.Gives s (executeAll scope o scope.root [] plans) results) :
    respond scope o plans s = (⟨Value.ofSelections results, []⟩, s) := by
  rw [respond, h []]

end Execution

end Gazette
