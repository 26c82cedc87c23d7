import Gazette.Proofs.Request.Accepted
import Gazette.Proofs.Request.Introspection
import Gazette.Proofs.Schema.Finished

/-!
# What introspection tells

Selections tell of a part of a schema what is read from it, field by field (`Introspection.tell`).
Selections that can run on a part give just that (`gives_tell`), and so do selections of fields that
the types of introspection have, written without arguments (`runnable_of_suits`).
-/

namespace Gazette

variable {σ ν : Type}

namespace FieldValue

mutual

/-- A result with the values of objects shown as `inside` says. -/
def shown (inside : ν → Value) : FieldValue ν → Value
  | null => .null
  | leaf value => value
  | node v => inside v
  | list items => .list (shownItems inside items)

/-- The items of a list as `inside` shows them. -/
def shownItems (inside : ν → Value) : List (FieldValue ν) → List Value
  | [] => []
  | i :: rest => i.shown inside :: shownItems inside rest

end

theorem shown_list (inside : ν → Value) (items : List (FieldValue ν)) :
    (list items).shown inside = .list (items.map (shown inside)) := by
  have hitems : shownItems inside items = items.map (shown inside) := by
    induction items with
    | nil => rfl
    | cons i rest ih => rw [shownItems, ih, List.map_cons]
  rw [shown, hitems]

theorem shown_of_isNull {result : FieldValue ν} (h : result.isNull) (inside : ν → Value) :
    result.shown inside = .null := by
  cases result with
  | null => rfl
  | leaf value =>
    cases value with
    | null => rfl
    | _ => cases h
  | _ => cases h

/-- Whether a value is among the leaves of a result. -/
inductive HasLeaf (value : Value) : FieldValue ν → Prop
  | leaf : HasLeaf value (.leaf value)
  | item {items : List (FieldValue ν)} {i : FieldValue ν} (hi : i ∈ items) (h : HasLeaf value i) :
    HasLeaf value (.list items)

/-- Whether a result of a type holds no text where the type is an enum. -/
def IsSpelled (r : Registry σ ν) (type : TypeRef) (result : FieldValue ν) : Prop :=
  (r.enum? type.baseName).isSome → ∀ value, result.HasLeaf value → ∃ member, value = .enum member

end FieldValue

namespace Execution

variable [Node ν] {scope : Scope σ ν} {s : σ} {node : String → ν → Prop} {inside : Inside σ ν}
  {render : ν → Value} {result : FieldValue ν}

/-! ## Results that are presented -/

theorem exists_gives_presentNamed {name : String} (hnull : result.isNull = false)
    (hproper : result.ProperNamed scope.registry (.results node) name)
    (hspelled : result.IsSpelled scope.registry (.named name))
    (hinside : ∀ o v, scope.registry.Possible name o → node o.name v →
      ∀ path, Run.Gives s (inside o v path) (render v)) :
    ∃ c, scope.registry.completeNamed name result = .ok c ∧
      ∀ path, Run.Gives s (presentNamed scope inside name c path) (result.shown render) := by
  unfold FieldValue.ProperNamed at hproper
  split at hproper
  · rename_i value hfind
    refine ⟨_, Registry.completeNamed_leaf hfind value, fun path => ?_⟩
    unfold presentNamed
    rw [hfind]
    exact Run.gives_done value
  · rename_i e value hfind
    have henum : (scope.registry.enum? name).isSome := by rw [Registry.enum?, hfind]; rfl
    obtain ⟨member, rfl⟩ := hspelled henum value .leaf
    obtain ⟨member', hname, hmember⟩ := hproper
    obtain rfl := Option.some.inj hname
    refine ⟨_, Registry.completeNamed_member hfind rfl hmember, fun path => ?_⟩
    unfold presentNamed
    rw [hfind]
    exact Run.gives_done _
  · rename_i o v hfind
    refine ⟨_, Registry.completeNamed_node hfind hproper.1, fun path => ?_⟩
    unfold presentNamed
    rw [hfind]
    exact hinside o v (.object hfind) hproper.2 path
  · rename_i i v hfind
    obtain ⟨tag, htype, ⟨o, ho, hisA⟩, hnode⟩ := hproper
    obtain rfl : o.name = tag := (Registry.mem_of_object? ho).2
    refine ⟨_, Registry.completeNamed_tagged hfind htype ho hisA, fun path => ?_⟩
    unfold presentNamed
    rw [hfind]
    simp only [ho]
    exact hinside o v (.interface i hfind ho hisA) hnode path
  · exact hproper.elim

/-- A result of the form that a type asks for is presented as it is shown. -/
theorem exists_gives_present {type : TypeRef} (hnull : result.isNull = false)
    (hplain : type.hasPlainItems) (hproper : result.Proper scope.registry (.results node) type)
    (hspelled : result.IsSpelled scope.registry type)
    (hinside : ∀ o v, scope.registry.Possible type.baseName o → node o.name v →
      ∀ path, Run.Gives s (inside o v path) (render v)) :
    ∃ c, scope.registry.complete type result = .ok (some c) ∧
      ∀ path, Run.Gives s (present scope inside type c path) (result.shown render) := by
  induction type generalizing result with
  | nonNull inner ih =>
    obtain ⟨c, hc, hgives⟩ := ih hnull hplain hproper.2 hspelled hinside
    exact ⟨c, (Registry.complete_nonNull hnull).trans hc, hgives⟩
  | list item ih =>
    simp only [TypeRef.hasPlainItems, Bool.and_eq_true, Option.isNone_iff_eq_none] at hplain
    obtain ⟨⟨hnonNull, -⟩, hplain⟩ := hplain
    obtain ⟨items, rfl, hitems⟩ := hproper.resolve_left (by simp [hnull])
    have hitem : ∀ i ∈ items, ∃ c, scope.registry.complete item i = .ok (some c) ∧
        ∀ path, Run.Gives s (present scope inside item c path) (i.shown render) := by
      intro i hi
      have hnotNull : i.isNull = false := by
        cases item with
        | nonNull inner => exact (hitems i hi).1
        | _ => cases hnonNull
      exact ih hnotNull hplain (hitems i hi)
        (fun henum value hvalue => hspelled henum value (.item hi hvalue)) hinside
    obtain ⟨cs, hcs⟩ := exists_forall₂ hitem
    have hmap : (items.mapM fun i => do return (← scope.registry.complete item i).getD .null) =
        .ok cs := mapM_eq_ok_iff.2 (hcs.imp fun i c h => by rw [h.1]; rfl)
    refine ⟨.list cs, ?_, fun path => ?_⟩
    · unfold Registry.complete
      rw [if_neg (by simp [hnull])]
      simp only [hmap]
      rfl
    · rw [present, FieldValue.shown_list]
      refine (Run.gives_eachFrom ?_ 0).mapResult _
      rw [List.forall₂_map_right_iff]
      exact hcs.flip.imp fun c i h j => (h.2 _).position item _
  | named name =>
    have hnamed := hproper.resolve_left (by simp [hnull])
    obtain ⟨c, hc, hgives⟩ := exists_gives_presentNamed hnull hnamed hspelled hinside
    exact ⟨c, Registry.complete_named hnull hc, hgives⟩

/-- The run of a registered field gives its result as it is shown. -/
theorem gives_runWith {object : String} {field : Field σ ν} {head : FieldHead} {v : ν}
    {values : Entries Value} {b : BoundArguments}
    (hdeclared : scope.registry.field? object field.name = some field)
    (hbind : scope.registry.bind field.name field.arguments
      (withDefaults field.arguments values) = .ok b)
    (hresult : fieldResult object field v b s = (.ok result, s))
    (hplain : field.type.hasPlainItems)
    (hproper : result.Proper scope.registry (.results node) field.type)
    (hspelled : result.IsSpelled scope.registry field.type)
    (hinside : ∀ o v, scope.registry.Possible field.type.baseName o → node o.name v →
      ∀ path, Run.Gives s (inside o v path) (render v)) (path : Path) :
    Run.Gives s (runWith scope inside object field head v path values) (result.shown render) := by
  have hrun {completed : Option (Completed ν)}
      (hcomplete : scope.registry.complete field.type result = .ok completed) :
      Run.Gives s (runField scope object field v (withDefaults field.arguments values)
        head.remaining) completed := by
    intro recorded
    simp only [runField, resolveDeclared_eq hdeclared, resolveField_of_bind hbind hresult,
      hcomplete]
  cases hnull : result.isNull with
  | true =>
    obtain ⟨completed, hcomplete, -⟩ := Registry.complete_of_proper hproper
    obtain rfl := (Registry.fits_of_complete hcomplete).2.1.2 hnull
    rw [FieldValue.shown_of_isNull hnull]
    exact (hrun hcomplete).andThen (Run.gives_done _)
  | false =>
    obtain ⟨c, hcomplete, hgives⟩ := exists_gives_present hnull hplain hproper hspelled hinside
    exact (hrun hcomplete).andThen (hgives path)

end Execution

namespace Introspection

open Execution

/-! ## The fields of parts -/

/-- The fields of introspection's own types read a part, and take no argument but one. -/
theorem eq_partField_of_mem {k : Knowledge} {o : ObjectType σ (Subject ν)}
    (ho : .object o ∈ types k) : ∀ f ∈ o.fields,
      f = partField k f.name f.type f.arguments f.description ∧
        (f.arguments = [] ∨ f.arguments = [includeDeprecated]) ∧ f.type.hasPlainItems := by
  simp only [types, List.mem_cons, NamedType.object.injEq, reduceCtorEq, List.not_mem_nil, or_false]
    at ho
  rcases ho with rfl | rfl | rfl | rfl | rfl | rfl
  all_goals
    simp only [List.forall_mem_cons, List.not_mem_nil, false_imp_iff, implies_true, and_true]
    simp [partField, TypeRef.hasPlainItems, TypeRef.namedNonNull, TypeRef.nonNullListNonNull,
      TypeRef.nonNullList, TypeRef.required, TypeRef.isNonNull, Validation.itemType?]

variable {k : Knowledge} {r : Registry σ (Subject ν)} {s : σ}

/-- The enums of introspection. -/
theorem Installed.mem_of_isSome_enum? (h : Installed k r) {name : String}
    (hname : name ∈ builtin.string :: builtin.boolean ::
      (types (σ := σ) (ν := ν) k).map NamedType.name) (henum : (r.enum? name).isSome) :
    name = "__TypeKind" ∨ name = "__DirectiveLocation" := by
  have hscalar {t : ScalarType} (hfind : r.find? name = some (.scalar t)) : False := by
    rw [Registry.enum?, hfind] at henum
    cases henum
  rcases List.mem_cons.1 hname with rfl | hname
  · obtain ⟨t, hfind⟩ := h.string
    exact (hscalar hfind).elim
  rcases List.mem_cons.1 hname with rfl | hname
  · obtain ⟨t, hfind⟩ := h.boolean
    exact (hscalar hfind).elim
  obtain ⟨t, ht, rfl⟩ := List.mem_map.1 hname
  rw [Registry.enum?, h.own t ht] at henum
  simp only [types, List.mem_cons, List.not_mem_nil, or_false] at ht
  rcases ht with rfl | rfl | rfl | rfl | rfl | rfl | rfl | rfl
  any_goals cases henum
  · exact .inl rfl
  · exact .inr rfl

/-- Fields of an enum type give enum literals. -/
theorem exists_enum_of_mem {o : ObjectType σ (Subject ν)} (ho : .object o ∈ types k) {p : Part}
    (hp : p.typeName = o.name) : ∀ f ∈ o.fields,
      f.type.baseName = "__TypeKind" ∨ f.type.baseName = "__DirectiveLocation" →
        ∀ value, (k.read f.name p : FieldValue (Subject ν)).HasLeaf value →
          ∃ member, value = .enum member := by
  simp only [types, List.mem_cons, NamedType.object.injEq, reduceCtorEq, List.not_mem_nil, or_false]
    at ho
  rcases ho with rfl | rfl | rfl | rfl | rfl | rfl
  all_goals
    simp only [partField, TypeRef.namedNonNull, TypeRef.nonNullListNonNull, TypeRef.nonNullList,
      TypeRef.required, TypeRef.baseName, builtin, String.reduceEq, List.mem_cons,
      List.not_mem_nil, forall_eq_or_imp, forall_eq, forall_const, IsEmpty.forall_iff, or_false,
      or_true, or_self, and_true, true_and, and_self]
  · cases p with
    | type type =>
      rintro value ⟨⟩
      exact ⟨_, rfl⟩
    | _ => simp [Part.typeName] at hp
  · cases p with
    | directive title description condition =>
      intro value hvalue
      cases hvalue with
      | item hi hvalue =>
        obtain ⟨l, -, rfl⟩ := List.mem_map.1 hi
        cases hvalue with
        | leaf => exact ⟨l, rfl⟩
    | _ => simp [Part.typeName] at hp

/-- A fragment applies to a type of introspection if it names that type, or none. -/
theorem applies_eq {o : ObjectType σ (Subject ν)} (ho : .object o ∈ types k)
    (condition : Option String) :
    applies o condition = condition.all fun name => name = o.name := by
  cases condition with
  | none => rfl
  | some condition => simp [applies, ObjectType.isA, Registry.implements_of_mem_types ho]

/-- What is possible as one of introspection's own types is the type itself. -/
theorem name_of_possible {o : ObjectType σ (Subject ν)} (ho : .object o ∈ types k) {name : String}
    (hpossible : r.Possible name o) : o.name = name := by
  cases hpossible with
  | object hfind => exact (Registry.name_of_find? hfind).2
  | interface i _ _ hisA =>
    rw [ObjectType.isA, Registry.implements_of_mem_types ho] at hisA
    cases hisA

/-! ## Telling -/

/-- A subject that is a part, shown as `inside` says. -/
def Subject.shown (inside : Part → Value) : Subject ν → Value
  | .part p => inside p
  | .value _ => .null

variable (ν)

mutual

/-- What selections tell of a part of a schema, in order. -/
def tell (k : Knowledge) (p : Part) : List Plan → List (String × Value)
  | [] => []
  | q :: rest => tellOne k p q ++ tell k p rest

/-- What one selection tells of a part of a schema. -/
def tellOne (k : Knowledge) (p : Part) : Plan → List (String × Value)
  | .field head plans =>
    [(head.key,
      if head.name = Plan.typeNameField then .string p.typeName
      else (k.read head.name p : FieldValue (Subject ν)).shown
        (Subject.shown fun q => Value.ofSelections (tell k q plans)))]
  | .fragment _ condition _ plans =>
    if condition.all fun name => name = p.typeName then tell k p plans else []
  | .missing _ => []

end

variable {ν}

/-- What one selected field tells of a part. -/
def tellField (k : Knowledge) (p : Part) (f : FieldPlan) : Value :=
  if f.head.name = Plan.typeNameField then .string p.typeName
  else (k.read f.head.name p : FieldValue (Subject ν)).shown
    (Subject.shown fun q => Value.ofSelections (tell ν k q f.plans))

mutual

/-- Selections tell what the fields tell that they select. -/
theorem tell_eq_map {o : ObjectType σ (Subject ν)} (ho : .object o ∈ types k) {p : Part}
    (hp : p.typeName = o.name) (plans : List Plan) :
    tell ν k p plans =
      (Plan.fieldsOn o plans).map fun f => (f.key, tellField (ν := ν) k p f) := by
  cases plans with
  | nil => rfl
  | cons q rest =>
    rw [tell, Plan.fieldsOn, List.map_append, tellOne_eq_map ho hp q, tell_eq_map ho hp rest]

theorem tellOne_eq_map {o : ObjectType σ (Subject ν)} (ho : .object o ∈ types k) {p : Part}
    (hp : p.typeName = o.name) (q : Plan) :
    tellOne ν k p q =
      (q.fieldsOneOn o).map fun f => (f.key, tellField (ν := ν) k p f) := by
  cases q with
  | field head plans => rfl
  | fragment name condition directives plans =>
    rw [tellOne, Plan.fieldsOneOn, applies_eq ho, hp]
    split
    · exact tell_eq_map ho hp plans
    · rfl
  | missing name => rfl

end

variable {scope : Scope σ (Subject ν)}

/-! ## Selections without arguments -/

/-- The outlines of introspection's own types, which are the same whatever it knows. -/
def outlines : List Outline :=
  (types (σ := Unit) (ν := Unit) ⟨[], "", none, []⟩).map Outline.ofType

theorem find?_outlines {o : ObjectType σ (Subject ν)} (ho : .object o ∈ types k) :
    Outline.find? outlines o.name = some (Outline.ofType (.object o)) := by
  simp only [types, List.mem_cons, NamedType.object.injEq, reduceCtorEq, List.not_mem_nil, or_false]
    at ho
  rcases ho with rfl | rfl | rfl | rfl | rfl | rfl <;> rfl

mutual

/-- Whether selections on a type of introspection are of fields that it has, without arguments, and
so are the selections inside them. -/
def suits (object : String) : List Plan → Bool
  | [] => true
  | p :: rest => suitsOne object p && suits object rest

/-- Whether one selection on a type of introspection is of a field that it has. -/
def suitsOne (object : String) : Plan → Bool
  | .field head plans =>
    head.name = Plan.typeNameField || head.arguments.isEmpty &&
      ((Outline.find? outlines object).bind fun o => o.fields.find? fun f => f.name = head.name).any
        fun f => suits f.type.baseName plans
  | .fragment _ condition _ plans => condition.any (· ≠ object) || suits object plans
  | .missing _ => true

end

/-- Without written arguments, those of a field of introspection bind. -/
theorem exists_bound_of_mem (h : Installed k scope.registry) {o : ObjectType σ (Subject ν)}
    (ho : .object o ∈ types k) {field : Field σ (Subject ν)} (hfield : field ∈ o.fields) :
    ∃ b, scope.boundArguments? field [] = some b ∧ scope.registry.Binds field b := by
  obtain ⟨t, hboolean⟩ := h.boolean
  have hcoerce : scope.registry.coerce includeDeprecated.type (.boolean false) =
      .ok (.boolean false) := by
    show scope.registry.coerceNamed builtin.boolean (.boolean false) = _
    rw [Registry.coerceNamed, hboolean]
    rfl
  have hdefault : ((withDefaults [includeDeprecated] []).lookup
      includeDeprecated.name).or includeDeprecated.default = some (.boolean false) := rfl
  obtain ⟨-, harguments, -⟩ := eq_partField_of_mem ho field hfield
  have hnodup : (field.arguments.map ArgumentSpec.name).Nodup := by
    rcases harguments with harguments | harguments <;> simp [harguments]
  have hknown : ∀ name ∈ Entries.names (withDefaults field.arguments []),
      name ∈ field.arguments.map ArgumentSpec.name := by
    rcases harguments with harguments | harguments <;> rw [harguments] <;> decide
  have hfound : ∀ spec ∈ field.arguments, ∃ found, scope.registry.argumentValue field.name
      (withDefaults field.arguments []) spec = .ok found := by
    rcases harguments with harguments | harguments
    · simp [harguments]
    · rw [harguments, List.forall_mem_singleton]
      exact ⟨some (.boolean false), by simp only [Registry.argumentValue, hdefault, hcoerce]⟩
  obtain ⟨b, hb, -⟩ := Registry.exists_bind hnodup hknown hfound
  exact ⟨b, Scope.boundArguments?_eq_some_iff.2 ⟨[], rfl, hb⟩, .of_bind hnodup hb⟩

mutual

theorem fieldRuns_of_suits (h : Installed k scope.registry) {o : ObjectType σ (Subject ν)}
    (ho : .object o ∈ types k) {plans : List Plan} (hsuits : suits o.name plans) :
    ∀ f ∈ Plan.fieldsOn o plans, FieldRuns scope o f := by
  cases plans with
  | nil => exact fun f hf => absurd hf List.not_mem_nil
  | cons p rest =>
    rw [suits, Bool.and_eq_true] at hsuits
    intro f hf
    rcases List.mem_append.1 hf with hf | hf
    · exact fieldRuns_of_suitsOne h ho hsuits.1 f hf
    · exact fieldRuns_of_suits h ho hsuits.2 f hf

theorem fieldRuns_of_suitsOne (h : Installed k scope.registry) {o : ObjectType σ (Subject ν)}
    (ho : .object o ∈ types k) {p : Plan} (hsuits : suitsOne o.name p) :
    ∀ f ∈ p.fieldsOneOn o, FieldRuns scope o f := by
  cases p with
  | field head plans =>
    rw [Plan.fieldsOneOn, List.forall_mem_singleton]
    rw [suitsOne, Bool.or_eq_true, decide_eq_true_iff, Bool.and_eq_true, List.isEmpty_iff,
      find?_outlines ho] at hsuits
    by_cases hname : head.name = Plan.typeNameField
    · exact ⟨fun hne => absurd hname hne, fun hne => absurd hname hne⟩
    obtain ⟨harguments, hfield⟩ := hsuits.resolve_left hname
    obtain ⟨outline, hfind, hinner⟩ := (Option.any_eq_true _ _).1 hfield
    obtain ⟨field, hfield, htype, -⟩ := Outline.represents_object o head.name outline hfind
    have hmem : field ∈ o.fields := List.mem_of_find?_eq_some hfield
    refine ⟨fun _ => ?_, fun _ field' hfield' o' ho' => ?_⟩
    · obtain ⟨b, hbound, hbinds⟩ := exists_bound_of_mem h ho hmem
      exact ⟨field, b, hfield, by rw [harguments]; exact hbound, hbinds⟩
    · obtain rfl := Option.some.inj (hfield.symm.trans hfield')
      have hown := h.mem_types_of_possible (introspective_of_mem ho field hmem).2 ho'
      rw [← htype, ← name_of_possible hown ho'] at hinner
      exact runnable_of_fieldRuns (fieldRuns_of_suits h hown hinner)
  | fragment name condition directives plans =>
    rw [Plan.fieldsOneOn, applies_eq ho]
    rw [suitsOne, Bool.or_eq_true] at hsuits
    split
    · rename_i happlies
      refine fieldRuns_of_suits h ho (hsuits.resolve_left ?_)
      cases condition with
      | none => exact Bool.false_ne_true
      | some condition => simpa using happlies
    · exact List.forall_mem_nil _
  | missing name => exact List.forall_mem_nil _

end

/-- Selections of fields that a part has, without arguments, can run on it. -/
theorem runnable_of_suits (h : Installed k scope.registry) {o : ObjectType σ (Subject ν)}
    (ho : .object o ∈ types k) {plans : List Plan} (hsuits : suits o.name plans) :
    Runnable scope o plans :=
  runnable_of_fieldRuns (fieldRuns_of_suits h ho hsuits)

/-! ## Runs -/

variable [Node ν]

/-- Whether a value is a part of the type with a name. -/
def IsPartOf (name : String) (v : Subject ν) : Prop := ∃ p : Part, v = .part p ∧ p.typeName = name

/-- A field of a part gives what is read from the part. -/
theorem gives_field (h : Installed k scope.registry) {o : ObjectType σ (Subject ν)}
    (ho : .object o ∈ types k) {p : Part} (hp : p.typeName = o.name)
    {field : Field σ (Subject ν)} {head : FieldHead} (hfield : o.field? head.name = some field)
    {b : BoundArguments} (hbound : scope.boundArguments? field head.arguments = some b)
    {inside : Inside σ (Subject ν)} {render : Part → Value}
    (hinside : ∀ o' q, scope.registry.Possible field.type.baseName o' → .object o' ∈ types k →
      q.typeName = o'.name → ∀ path, Run.Gives s (inside o' (.part q) path) (render q))
    (path : Path) :
    Run.Gives s (runAt scope inside o.name field head (.part p) path)
      ((k.read head.name p : FieldValue (Subject ν)).shown (Subject.shown render)) := by
  obtain ⟨values, hwritten, hbind⟩ := Scope.boundArguments?_eq_some_iff.1 hbound
  have hmem : field ∈ o.fields := List.mem_of_find?_eq_some hfield
  have hname : field.name = head.name := ObjectType.name_of_field? hfield
  have hdeclared : scope.registry.field? o.name field.name = some field :=
    Registry.field?_of_object (Registry.object?_eq_some_iff.2 (h.own _ ho)) hfield
  obtain ⟨heq, -, hplain⟩ := eq_partField_of_mem ho field hmem
  have hread (b : BoundArguments) (s : σ) : fieldResult o.name field (.part p) b s =
      (.ok (k.read field.name p), s) := by rw [heq]; rfl
  have hnode (p : Part) : IsPartOf p.typeName (.part p : Subject ν) := ⟨p, rfl, rfl⟩
  obtain ⟨result, hresult, hproper⟩ := givesProper_of_mem h hnode ho hp field hmem b s
  obtain rfl : k.read field.name p = result :=
    Except.ok.inj (congrArg Prod.fst ((hread b s).symm.trans hresult))
  have hspelled : (k.read field.name p : FieldValue (Subject ν)).IsSpelled scope.registry
      field.type := fun henum => exists_enum_of_mem ho hp field hmem
    (h.mem_of_isSome_enum? (introspective_of_mem ho field hmem).2 henum)
  rw [← hname]
  refine gives_runAt hwritten (fun path => ?_) path
  refine gives_runWith hdeclared hbind (hread b s) hplain hproper hspelled ?_ path
  rintro o' v ho' ⟨q, rfl, hq⟩ path
  have hown := h.mem_types_of_possible (introspective_of_mem ho field hmem).2 ho'
  exact hinside o' q ho' hown hq path

/-- Selections that can run on a part give what they tell of it. -/
theorem gives_tell (h : Installed k scope.registry) {o : ObjectType σ (Subject ν)}
    {plans : List Plan} (hrunnable : Runnable scope o plans) (ho : .object o ∈ types k)
    {p : Part} (hp : p.typeName = o.name) (path : Path) :
    Run.Gives s (executeAll scope o (.part p) path plans) (tell ν k p plans) := by
  induction hrunnable generalizing p path with
  | @intro o plans bound inside ih =>
    rw [executeAll_eq, tell_eq_map ho hp]
    refine gives_executeFields ?_ path
    rw [List.forall₂_map_right_iff, List.forall₂_same]
    intro f hf path
    rw [FieldPlan.toPlan, executeOne, tellField, hp]
    by_cases hname : f.head.name = Plan.typeNameField
    · rw [if_pos hname, if_pos hname]
      exact Run.gives_done _
    · obtain ⟨field, b, hfield, hbound, -⟩ := bound f hf hname
      rw [if_neg hname, if_neg hname, hfield]
      refine (gives_field h ho hp hfield hbound (fun o' q ho' hown hq path => ?_) path).mapResult _
      exact (ih f hf hname field hfield o' ho' hown hq path).mapResult _

end Introspection

end Gazette
