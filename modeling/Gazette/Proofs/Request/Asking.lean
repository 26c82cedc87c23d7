import Gazette.Proofs.Request.Composition
import Gazette.Proofs.Request.Results
import Gazette.Proofs.Request.Telling
import Gazette.Proofs.Schema.Declaration

/-!
# Asking for a type

A request can ask for a type by its name, with all that introspection tells of types (`askType`).
What it is told is the declaration of the type, if the type can be seen, and null if not
(`Schema.shows_declaration`).
-/

namespace Gazette

variable {σ ν : Type}

/-! ## The questions -/

namespace Introspection

/-- Selections of fields under their own names, without arguments. -/
def askAll (asks : List (String × List Plan)) : List Plan :=
  asks.map fun a => .field ⟨none, a.1, [], [], 0⟩ a.2

/-- Asks for a reference with `n` wrappers at most. -/
def askReference : (n : Nat) → List Plan
  | 0 => askAll [("kind", []), ("name", [])]
  | n + 1 => askAll [("kind", []), ("name", []), ("ofType", askReference n)]

/-- The selections that ask for an argument. -/
def askArgument (n : Nat) : List Plan :=
  askAll [("name", []), ("description", []), ("type", askReference n), ("defaultValue", [])]

/-- The selections that ask for a field. -/
def askField (n : Nat) : List Plan :=
  askAll [("name", []), ("description", []), ("args", askArgument n), ("type", askReference n)]

/-- The selections that ask for a name. -/
def askName : List Plan := askAll [("name", [])]

/-- Asks for the declaration of a type, where references have less than `n` wrappers. -/
def askType (n : Nat) : List Plan :=
  askAll [("kind", []), ("name", []), ("description", []), ("fields", askField n),
    ("interfaces", askName), ("possibleTypes", askName), ("enumValues", askName)]

/-- The field of the query root that asks for a type by its name. -/
def question (name : String) (plans : List Plan) : Plan :=
  .field ⟨none, "__type", [("name", .string name)], [], 0⟩ plans

theorem suits_askAll {object : String} {asks : List (String × List Plan)}
    (h : ∀ a ∈ asks, ∃ f, ((Outline.find? outlines object).bind fun o =>
      o.fields.find? fun f => f.name = a.1) = some f ∧ suits f.type.baseName a.2) :
    suits object (askAll asks) := by
  induction asks with
  | nil => rfl
  | cons a rest ih =>
    obtain ⟨⟨f, hf, hinner⟩, hrest⟩ := List.forall_mem_cons.1 h
    show (suitsOne object (.field ⟨none, a.1, [], [], 0⟩ a.2) && suits object (askAll rest)) = true
    rw [ih hrest, suitsOne, hf, Option.any_some, hinner]
    simp

theorem suits_askReference (n : Nat) : suits "__Type" (askReference n) := by
  induction n with
  | zero => rfl
  | succ n ih =>
    refine suits_askAll ?_
    simp only [List.forall_mem_cons, List.not_mem_nil, false_imp_iff, implies_true, and_true]
    exact ⟨⟨_, rfl, rfl⟩, ⟨_, rfl, rfl⟩, ⟨_, rfl, ih⟩⟩

theorem suits_askArgument (n : Nat) : suits "__InputValue" (askArgument n) := by
  refine suits_askAll ?_
  simp only [List.forall_mem_cons, List.not_mem_nil, false_imp_iff, implies_true, and_true]
  exact ⟨⟨_, rfl, rfl⟩, ⟨_, rfl, rfl⟩, ⟨_, rfl, suits_askReference n⟩, ⟨_, rfl, rfl⟩⟩

theorem suits_askField (n : Nat) : suits "__Field" (askField n) := by
  refine suits_askAll ?_
  simp only [List.forall_mem_cons, List.not_mem_nil, false_imp_iff, implies_true, and_true]
  exact ⟨⟨_, rfl, rfl⟩, ⟨_, rfl, rfl⟩, ⟨_, rfl, suits_askArgument n⟩,
    ⟨_, rfl, suits_askReference n⟩⟩

theorem suits_askType (n : Nat) : suits "__Type" (askType n) := by
  refine suits_askAll ?_
  simp only [List.forall_mem_cons, List.not_mem_nil, false_imp_iff, implies_true, and_true]
  exact ⟨⟨_, rfl, rfl⟩, ⟨_, rfl, rfl⟩, ⟨_, rfl, rfl⟩, ⟨_, rfl, suits_askField n⟩,
    ⟨_, rfl, rfl⟩, ⟨_, rfl, rfl⟩, ⟨_, rfl, rfl⟩⟩

/-! ## The answers -/

variable (ν)

/-- What selections tell of a part, as one value. -/
def told (k : Knowledge) (plans : List Plan) (p : Part) : Value :=
  .ofSelections (tell ν k p plans)

variable {ν} {k : Knowledge}

theorem told_askAll {asks : List (String × List Plan)}
    (h : (Plan.typeNameField :: asks.map Prod.fst).Nodup) (p : Part) :
    told ν k (askAll asks) p = .object (asks.map fun a =>
      (a.1, (k.read a.1 p : FieldValue (Subject ν)).shown (Subject.shown (told ν k a.2)))) := by
  obtain ⟨hname, hnodup⟩ := List.nodup_cons.1 h
  clear h
  have htell : tell ν k p (askAll asks) = asks.map fun a =>
      (a.1, (k.read a.1 p : FieldValue (Subject ν)).shown (Subject.shown (told ν k a.2))) := by
    clear hnodup
    induction asks with
    | nil => rfl
    | cons a rest ih =>
      rw [List.map_cons, List.mem_cons, not_or] at hname
      rw [askAll, List.map_cons, tell, tellOne, if_neg (Ne.symm hname.1), List.map_cons]
      exact congrArg _ (ih hname.2)
  rw [told, htell, Value.ofSelections, Value.mergeMembers_of_nodup, List.nil_append]
  rw [Entries.names, List.nil_append, List.map_map]
  exact hnodup

theorem shown_parts {α : Type} (inside : Part → Value) (f : α → Part) (as : List α) :
    (parts (as.map f) : FieldValue (Subject ν)).shown (Subject.shown inside) =
      .list (as.map fun a => inside (f a)) := by
  rw [parts, FieldValue.nodes, FieldValue.shown_list, List.map_map, List.map_map, List.map_map]
  rfl

end Introspection

namespace Registry

open Introspection

variable {r : Registry σ ν} {name : String} {t : NamedType σ ν} {n : Nat}

/-! ### References and fields -/

theorem outline?_named (h : r.find? name = some t) :
    r.knowledge.outline? (.named name) = some (describedOutline t) := find?_outlines h

theorem kind_named (h : r.find? name = some t) : r.knowledge.kind (.named name) = t.kind := by
  show (r.knowledge.outline? (.named name)).elim .scalar Outline.kind = t.kind
  rw [outline?_named h, Option.elim_some, kind_describedOutline]
  cases t <;> rfl

theorem told_reference {type : TypeRef} (hn : type.wrappers < n)
    (hfind : (r.find? type.baseName).isSome) :
    told ν r.knowledge (askReference n) (.type type) = type.shown r.kindOf := by
  induction type generalizing n with
  | named name =>
    cases n with
    | zero => cases hn
    | succ n =>
      obtain ⟨t, ht⟩ := Option.isSome_iff_exists.1 hfind
      have ht : r.find? name = some t := ht
      rw [askReference, told_askAll (by simp [Plan.typeNameField]), TypeRef.shown]
      show Value.object [("kind", .enum (r.knowledge.kind (.named name)).name),
        ("name", .ofString? ((r.knowledge.outline? (.named name)).map Outline.name)),
        ("ofType", .null)] = _
      rw [kind_named ht, outline?_named ht, Option.map_some, name_describedOutline,
        (name_of_find? ht).2, kindOf, ht]
      rfl
  | nonNull inner ih =>
    cases n with
    | zero => cases hn
    | succ n =>
      rw [askReference, told_askAll (by simp [Plan.typeNameField]), TypeRef.shown,
        ← ih (Nat.lt_of_succ_lt_succ hn) hfind]
      rfl
  | list item ih =>
    cases n with
    | zero => cases hn
    | succ n =>
      rw [askReference, told_askAll (by simp [Plan.typeNameField]), TypeRef.shown,
        ← ih (Nat.lt_of_succ_lt_succ hn) hfind]
      rfl

theorem told_argument {spec : ArgumentSpec} (hn : spec.type.wrappers < n)
    (hfind : (r.find? spec.type.baseName).isSome) :
    told ν r.knowledge (askArgument n) (.input spec) = spec.shown r.kindOf := by
  rw [askArgument, told_askAll (by simp [Plan.typeNameField]), ArgumentSpec.shown,
    ← told_reference (ν := ν) hn hfind]
  rfl

theorem told_field {f : FieldOutline}
    (h : ∀ type ∈ f.type :: f.arguments.map ArgumentSpec.type,
      type.wrappers < n ∧ (r.find? type.baseName).isSome) :
    told ν r.knowledge (askField n) (.field f) = f.shown r.kindOf := by
  obtain ⟨⟨hn, hfind⟩, harguments⟩ := List.forall_mem_cons.1 h
  have hargs : (parts (f.arguments.map .input) : FieldValue (Subject ν)).shown
      (Subject.shown (told ν r.knowledge (askArgument n))) =
        .list (f.arguments.map (ArgumentSpec.shown r.kindOf)) := by
    rw [shown_parts]
    refine congrArg _ (List.map_congr_left fun spec hspec => ?_)
    have hspec := harguments _ (List.mem_map_of_mem hspec)
    exact told_argument hspec.1 hspec.2
  rw [askField, told_askAll (by simp [Plan.typeNameField]), FieldOutline.shown, ← hargs,
    ← told_reference (ν := ν) hn hfind]
  rfl

/-! ### Types -/

/-- No name of a declared field is reserved. -/
theorem not_isReserved_of_mem (hexec : (Outline.ofRegistry r).all Schema.isExecutable)
    (ht : t ∈ r.types) : ∀ f ∈ (Outline.ofType t).fields, Outline.isReserved f.name = false := by
  have hfree := List.all_eq_true.1 hexec _ (List.mem_map_of_mem ht)
  rw [Schema.isExecutable, Bool.and_eq_true, List.all_eq_true] at hfree
  intro f hf
  have hnames := hfree.2 f hf
  rw [Schema.hasFreeNames, Bool.and_eq_true] at hnames
  simpa using hnames.1

theorem told_names (names : List String) (h : ∀ name ∈ names, (r.find? name).isSome) :
    (namedTypes names : FieldValue (Subject ν)).shown
      (Subject.shown (told ν r.knowledge askName)) = .list (names.map .named) := by
  rw [namedTypes, shown_parts]
  refine congrArg _ (List.map_congr_left fun name hname => ?_)
  obtain ⟨t, ht⟩ := Option.isSome_iff_exists.1 (h name hname)
  rw [askName, told_askAll (by simp [Plan.typeNameField]), Value.named]
  show Value.object [("name", .ofString? ((r.knowledge.outline? (.named name)).map _))] = _
  rw [outline?_named ht, Option.map_some, name_describedOutline, (name_of_find? ht).2]
  rfl

theorem outline?_of_mem (h : r.IsRegular) (ht : t ∈ r.types) (hbuiltin : isBuiltin t.name = false) :
    r.knowledge.outline? (.named t.name) = some (Outline.ofType t) := by
  rw [outline?_named (h.find?_of_mem ht), describedOutline, Outline.name_ofType, hbuiltin]
  rfl

theorem told_fields (h : r.IsFinished) (ht : t ∈ r.types)
    (hn : ∀ type ∈ t.references, type.wrappers < n) :
    (parts (t.outlines.map .field) : FieldValue (Subject ν)).shown
        (Subject.shown (told ν r.knowledge (askField n))) =
      .list (t.outlines.map (FieldOutline.shown r.kindOf)) := by
  rw [shown_parts]
  refine congrArg _ (List.map_congr_left fun f hf => told_field fun type htype => ?_)
  have hmem : type ∈ t.references := List.mem_flatMap.2 ⟨f, hf, htype⟩
  exact ⟨hn type hmem, isSome_find?_of_mem_references h ht type hmem⟩

theorem told_values (k : Knowledge) (values : List String) (descriptions : Entries String) :
    (parts (values.map fun value => .value value (descriptions.lookup value)) :
        FieldValue (Subject ν)).shown (Subject.shown (told ν k askName)) =
      .list (values.map .named) := by
  rw [shown_parts]
  refine congrArg _ (List.map_congr_left fun value _ => ?_)
  rw [askName, told_askAll (by simp [Plan.typeNameField])]
  rfl

theorem ofKinds_eq (h : r.IsRegular) (ht : t ∈ r.types) (hbuiltin : isBuiltin t.name = false)
    (kinds : List TypeKind) (read : Outline → FieldValue (Subject ν)) :
    r.knowledge.ofKinds kinds (.named t.name) read =
      if kinds.contains t.kind then read (Outline.ofType t) else .null := by
  rw [Knowledge.ofKinds, outline?_of_mem h ht hbuiltin]
  cases t <;> rfl

section

variable (h : r.IsFinished) (ht : t ∈ r.types) (hbuiltin : isBuiltin t.name = false)

include h ht hbuiltin

theorem shown_fields (hexec : (Outline.ofRegistry r).all Schema.isExecutable)
    (hn : ∀ type ∈ t.references, type.wrappers < n) :
    (r.knowledge.read "fields" (.type (.named t.name)) : FieldValue (Subject ν)).shown
      (Subject.shown (told ν r.knowledge (askField n))) = t.shownFields r.kindOf := by
  show (r.knowledge.ofKinds _ _ _).shown _ = _
  have hself : (Outline.ofType t).fields.filter (fun f => !Outline.isReserved f.name) =
      (Outline.ofType t).fields :=
    List.filter_eq_self.2 fun f hf => by rw [not_isReserved_of_mem hexec ht f hf]; rfl
  rw [ofKinds_eq h.isRegular ht hbuiltin, hself]
  have hfields := told_fields (ν := ν) h ht hn
  cases t with
  | object o =>
    exact hfields.trans (congrArg Value.list List.map_map)
  | interface i =>
    exact hfields.trans (congrArg Value.list List.map_map)
  | _ => rfl

theorem shown_interfaces :
    (r.knowledge.read "interfaces" (.type (.named t.name)) : FieldValue (Subject ν)).shown
      (Subject.shown (told ν r.knowledge askName)) = t.shownInterfaces r.sees := by
  show (r.knowledge.ofKinds _ _ _).shown _ = _
  rw [ofKinds_eq h.isRegular ht hbuiltin]
  cases t with
  | object o =>
    refine told_names _ fun name hname => ?_
    have hname : name ∈ o.implements :=
      List.mem_of_mem_filter (List.mem_eraseDups.1 hname)
    obtain ⟨i, hi, rfl, -⟩ := h.isWellFormed.implements o ht name hname
    rw [isSome_find?_iff]
    exact List.mem_map_of_mem hi
  | _ => rfl

theorem shown_objects :
    (r.knowledge.read "possibleTypes" (.type (.named t.name)) : FieldValue (Subject ν)).shown
      (Subject.shown (told ν r.knowledge askName)) = t.shownObjects r r.sees := by
  show (r.knowledge.ofKinds _ _ _).shown _ = _
  rw [ofKinds_eq h.isRegular ht hbuiltin]
  cases t with
  | interface i =>
    have hsublist := names_objectsOf_sublist r i.name
    show (namedTypes (r.knowledge.seen ((Outline.implementors r.knowledge.outlines i.name).map
      Outline.name))).shown _ = .list ((((r.objectsOf i.name).map ObjectType.name).filter
        r.sees).map .named)
    rw [names_implementors, Knowledge.seen,
      eraseDups_of_nodup ((hsublist.nodup h.isRegular.names).filter _)]
    refine told_names _ fun name hname => isSome_find?_iff.2 ?_
    exact hsublist.subset (List.mem_of_mem_filter hname)
  | _ => rfl

theorem shown_values :
    (r.knowledge.read "enumValues" (.type (.named t.name)) : FieldValue (Subject ν)).shown
      (Subject.shown (told ν r.knowledge askName)) = t.shownValues := by
  show (r.knowledge.ofKinds _ _ _).shown _ = _
  rw [ofKinds_eq h.isRegular ht hbuiltin]
  cases t with
  | enum e => exact told_values _ _ _
  | _ => rfl

end

/-- What a question for a declared type is told. -/
theorem told_type (h : r.IsFinished) (hexec : (Outline.ofRegistry r).all Schema.isExecutable)
    (ht : t ∈ r.types) (hbuiltin : isBuiltin t.name = false)
    (hn : ∀ type ∈ t.references, type.wrappers < n) :
    told ν r.knowledge (askType n) (.type (.named t.name)) = t.shown r r.sees := by
  have houtline := outline?_of_mem h.isRegular ht hbuiltin
  rw [askType, told_askAll (by simp [Plan.typeNameField]), NamedType.shown,
    ← kind_named (h.isRegular.find?_of_mem ht), ← shown_fields (ν := ν) h ht hbuiltin hexec hn,
    ← shown_interfaces (ν := ν) h ht hbuiltin, ← shown_objects (ν := ν) h ht hbuiltin,
    ← shown_values (ν := ν) h ht hbuiltin]
  show Value.object [_, ("name", .ofString? ((r.knowledge.outline? (.named t.name)).map _)),
    ("description", .ofString? ((r.knowledge.outline? (.named t.name)).bind _)), _, _, _, _] = _
  rw [houtline]
  cases t <;> rfl

end Registry

/-! ## Requests -/

namespace Introspection

variable {k : Knowledge} {scope : Execution.Scope σ (Subject ν)} {s : σ} {name : String}

/-- The field of the query root that leads to a type by its name. -/
def typeField (k : Knowledge) : Field σ (Subject ν) :=
  (rootFields k).getLast (List.cons_ne_nil _ _)

theorem bind_typeField (h : Installed k scope.registry) (name : String) :
    let field : Field σ (Subject ν) := typeField k
    scope.registry.bind field.name field.arguments
        (Execution.withDefaults field.arguments [("name", .string name)]) =
      .ok ⟨"__type", [("name", .string name)]⟩ := by
  obtain ⟨t, hstring⟩ := h.string
  have hcoerce : scope.registry.coerce (.namedNonNull builtin.string) (.string name) =
      .ok (.string name) := by
    show scope.registry.coerceNamed builtin.string (.string name) = _
    rw [Registry.coerceNamed, hstring]
    rfl
  have hlookup : (([("name", Value.string name)] : Entries Value).lookup "name").or none =
      some (.string name) := rfl
  have hvalue : scope.registry.argumentValue (BoundArguments.empty "__type").field
      [("name", .string name)] { name := "name", type := .namedNonNull builtin.string } =
        .ok (some (.string name)) := by
    simp only [Registry.argumentValue, hlookup, hcoerce]
  show scope.registry.bindFrom [("name", .string name)] (.empty "__type")
    [{ name := "name", type := .namedNonNull builtin.string }] = _
  rw [Registry.bindFrom, hvalue]
  rfl

/-- What the field gives: the type, if it can be seen. -/
def typeResult (k : Knowledge) (name : String) : FieldValue (Subject ν) :=
  if k.visible.contains name then .node (.part (.type (.named name))) else .null

theorem shown_typeResult (k : Knowledge) (name : String) (inside : Part → Value) :
    (typeResult k name : FieldValue (Subject ν)).shown (Subject.shown inside) =
      if k.visible.contains name then inside (.type (.named name)) else .null := by
  rw [typeResult]
  split <;> rfl

variable [Node ν]

theorem proper_typeResult (h : Installed k scope.registry) (name : String) :
    (typeResult k name).Proper scope.registry (.results IsPartOf) (.named "__Type") := by
  rw [typeResult]
  split
  · exact proper_part h (fun p => ⟨p, rfl, rfl⟩) (.type (.named name))
  · exact FieldValue.proper_null

/-- The question for a type is answered by what its selections tell of it, if it can be seen. -/
theorem gives_question (h : Installed k scope.registry) {o : ObjectType σ (Subject ν)}
    (ho : scope.registry.object? o.name = some o) (hfield : o.field? "__type" = some (typeField k))
    {plans : List Plan} (hsuits : suits "__Type" plans) (parent : Subject ν) (path : Path) :
    Execution.Run.Gives s (Execution.executeAll scope o parent path [question name plans])
      [("__type",
        if k.visible.contains name then told ν k plans (.type (.named name)) else .null)] := by
  have hown : "__Type" ∈ builtin.string :: builtin.boolean ::
      (types (σ := σ) (ν := ν) k).map NamedType.name := by
    rw [names_types]
    decide
  have hspelled : (typeResult k name : FieldValue (Subject ν)).IsSpelled scope.registry
      (.named "__Type") := fun henum => absurd (h.mem_of_isSome_enum? hown henum) (by decide)
  have hne : "__type" ≠ Plan.typeNameField := by decide
  rw [Execution.executeAll_eq, ← shown_typeResult (ν := ν)]
  show Execution.Run.Gives s (Execution.executeFields scope o parent path
    [⟨⟨none, "__type", [("name", .string name)], [], 0⟩, plans⟩]) _
  rw [Execution.executeFields_singleton, FieldPlan.toPlan, Execution.executeOne, if_neg hne, hfield]
  refine (Execution.gives_runAt rfl (fun path => ?_) path).mapResult _
  refine Execution.gives_runWith (Registry.field?_of_object ho hfield) (bind_typeField h name) rfl
    rfl (proper_typeResult h name) hspelled ?_ path
  rintro o' v ho' ⟨p, rfl, hp⟩ path
  have hmem := h.mem_types_of_possible hown ho'
  have hname : o'.name = "__Type" := name_of_possible hmem ho'
  refine Execution.Run.Gives.mapResult ?_ Value.ofSelections
  exact gives_tell h (runnable_of_suits h hmem (hname ▸ hsuits)) hmem hp path

end Introspection

namespace Registry

variable {r : Registry σ ν} {root : ν}

/-- Whether no type has the name of one of introspection's own types. -/
def SparesOwnNames (r : Registry σ ν) : Prop :=
  ∀ t ∈ r.types, t.name ∉ Introspection.outlines.map Outline.name

theorem IsFinished.installed (h : r.IsFinished) (hspares : r.SparesOwnNames) (root : ν) :
    Introspection.Installed r.knowledge (r.withIntrospection root) := by
  refine Introspection.installed_of_nodup ?_ h.isRegular.builtins
  have hlifted : (r.types.map (r.liftedType root)).map NamedType.name = r.names := by
    rw [List.map_map]
    exact List.map_congr_left fun t _ => name_liftedType r root t
  show ((r.types.map (r.liftedType root) ++ _).map NamedType.name).Nodup
  rw [List.map_append, hlifted, List.nodup_append]
  refine ⟨h.isRegular.names, by rw [Introspection.names_types]; decide, ?_⟩
  rintro name hname _ hown rfl
  obtain ⟨t, ht, rfl⟩ := List.mem_map.1 hname
  exact hspares t ht hown

/-- The query root has its own fields before `__type`, and none of these has that name. -/
theorem IsFinished.exists_root (h : r.IsFinished)
    (hexec : (Outline.ofRegistry r).all Schema.isExecutable) (root : ν) :
    ∃ O, (r.withIntrospection root).queryRoot? = some O ∧
      O.field? "__type" = some (Introspection.typeField r.knowledge) := by
  obtain ⟨o, ho, hname⟩ := h.isWellFormed.query
  have hobject : r.object? r.query = some o :=
    hname ▸ object?_eq_some_iff.2 (h.isRegular.find?_of_mem ho)
  refine ⟨r.lifted root o, object?_withIntrospection_of_some hobject root, ?_⟩
  have hnone : o.field? "__type" = none := by
    refine List.find?_eq_none.2 fun f hf heq => ?_
    have hfree := not_isReserved_of_mem hexec ho f.outline (List.mem_map_of_mem hf)
    have hname : f.outline.name = "__type" := of_decide_eq_true heq
    rw [hname] at hfree
    exact absurd hfree (by decide)
  rw [field?_lifted, hnone, if_pos hname]
  rfl

end Registry

namespace Schema

variable [Node ν] {r : Registry σ ν} {root : ν} {limit : Nat} {schema : Schema σ ν}
  {request : Request} {selected : Selected σ (Subject ν)} {t : NamedType σ ν} {n : Nat}

theorem eq_of_unplaced_eq {response : Response} {data : Value}
    (h : response.unplaced = (Response.mk data []).unplaced) : response = ⟨data, []⟩ := by
  obtain ⟨data', errors⟩ := response
  obtain ⟨hdata, herrors⟩ := Response.mk.inj h
  obtain rfl : data' = data := hdata
  obtain rfl : errors = [] := List.map_eq_nil_iff.1 herrors
  rfl

/-- A request that asks for a declared type is told its declaration, if the type can be seen. -/
theorem respond_of_asks (h : r.IsFinished) (hspares : r.SparesOwnNames)
    (hexec : (Outline.ofRegistry r).all isExecutable)
    (hselect : (Schema.mk r root limit).select request = .ok selected)
    (hquery : selected.operation.kind = .query) (ht : t ∈ r.types)
    (hbuiltin : Registry.isBuiltin t.name = false)
    (hn : ∀ type ∈ t.references, type.wrappers < n)
    (hasks : ((Schema.mk r root limit).scope request selected.operation).AlikeAll
      ((Schema.mk r root limit).scope request selected.operation) selected.plans
      [Introspection.question t.name (Introspection.askType n)]) (s : σ) :
    ((Schema.mk r root limit).respond request s).1 =
      ⟨.object [("__type", if r.sees t.name then t.shown r r.sees else .null)], []⟩ := by
  obtain ⟨O, hO, hfield⟩ := h.exists_root hexec root
  have hroot := rootOf?_of_select hselect
  rw [hquery] at hroot
  obtain rfl : O = selected.root := Option.some.inj (hO.symm.trans hroot)
  let scope := (Schema.mk r root limit).scope request selected.operation
  have hinstalled : Introspection.Installed r.knowledge scope.registry := h.installed hspares root
  have hgives : Execution.Run.Gives s (Execution.executeAll scope selected.root scope.root []
      [Introspection.question t.name (Introspection.askType n)]) _ :=
    Introspection.gives_question hinstalled (object?_root_of_select hselect) hfield
      (Introspection.suits_askType n) scope.root []
  rw [Registry.told_type h hexec ht hbuiltin hn] at hgives
  have hquestion := congrArg Prod.fst (Execution.respond_of_gives hgives)
  have hsame := Execution.unplaced_respond ⟨rfl, rfl⟩ (object?_root_of_select hselect) hasks s
  rw [hquestion] at hsame
  rw [respond_of_select_ok hselect]
  exact eq_of_unplaced_eq hsame

/-- Introspection shows what a registry declares.  A request for a declared type that can be seen
is told the declaration, where the interfaces and objects are those that can be seen, and these are
all for what the roots lead to; nothing can be seen that is not connected with the roots, unless its
name is reserved; the objects of an interface are those that its values can have; and defaults have
the text that they have in the definition of the schema. -/
theorem shows_declaration (h : r.IsFinished) (hspares : r.SparesOwnNames)
    (hschema : Schema.ofRegistry r root limit = .ok schema)
    (hselect : schema.select request = .ok selected) (hquery : selected.operation.kind = .query)
    (ht : t ∈ r.types) (hbuiltin : Registry.isBuiltin t.name = false)
    (hn : ∀ type ∈ t.references, type.wrappers < n)
    (hasks : (schema.scope request selected.operation).AlikeAll
      (schema.scope request selected.operation) selected.plans
      [Introspection.question t.name (Introspection.askType n)]) :
    (∀ s, (schema.respond request s).1 =
      ⟨.object [("__type", if r.sees t.name then t.shown r r.sees else .null)], []⟩) ∧
    (r.LeadsTo t.name → r.sees t.name ∧ t.shown r r.sees = t.shown r fun _ => true) ∧
    (r.sees t.name → Outline.isReserved t.name ∨ r.IsConnected t.name) ∧
    (∀ i, t = .interface i →
      ((r.objectsOf i.name).map NamedType.object).Sublist r.types ∧
      (∀ v o, r.concreteType i.name v = .ok o ↔
        o ∈ r.objectsOf i.name ∧ Node.typeName v = some o.name) ∧
      (r.sees i.name → Outline.isReserved i.name = false →
        t.shown r r.sees = t.shown r fun _ => true)) ∧
    ∀ o, t = .object o → ∀ f ∈ o.fields, ∀ spec ∈ f.arguments, spec.definition =
      spec.name ++ ": " ++ spec.type.text ++ spec.defaultText?.elim "" (" = " ++ ·) := by
  obtain ⟨hexec, rfl⟩ : (Outline.ofRegistry r).all isExecutable ∧ ⟨r, root, limit⟩ = schema := by
    rw [ofRegistry] at hschema
    split at hschema
    · rename_i hexec
      exact ⟨hexec, Except.ok.inj hschema⟩
    · cases hschema
  refine ⟨respond_of_asks h hspares hexec hselect hquery ht hbuiltin hn hasks, fun hleads => ?_,
    Registry.isConnected_of_sees h ht hbuiltin, ?_, fun _ _ _ _ spec _ => spec.definition_eq⟩
  · exact ⟨Registry.sees_of_leadsTo h ht hleads, Registry.shown_of_leadsTo h ht hleads⟩
  · rintro i rfl
    exact ⟨Registry.objectsOf_sublist r i.name,
      fun v o => Registry.concreteType_eq_ok_iff_mem h.isRegular,
      fun hsees => Registry.shown_of_sees h ht hsees hbuiltin⟩

end Schema

/-! ## Examples -/

namespace Introspection

/-- Whether plans are the question for a type by its name, with `inside` inside it. -/
def isQuestion (name : String) (inside : List Plan) : List Plan → Bool
  | [.field ⟨none, "__type", [("name", .string text)], _, _⟩ plans] =>
    text = name && Plan.sameBareAll plans inside
  | _ => false

theorem alikeAll_of_isQuestion {name : String} {inside plans : List Plan}
    (h : isQuestion name inside plans) (scope : Execution.Scope σ ν) :
    scope.AlikeAll scope plans [question name inside] := by
  unfold isQuestion at h
  split at h
  · rw [Bool.and_eq_true, decide_eq_true_iff] at h
    obtain ⟨rfl, hinside⟩ := h
    exact ⟨⟨rfl, rfl, rfl, scope.alikeAll_of_sameBareAll scope hinside⟩, trivial⟩
  · cases h

end Introspection

namespace Bookshop

/-- Whatever has a title. -/
def titledItem : InterfaceType where
  name := "Titled"
  description := some "Whatever has a title."
  fields := [{ name := "title", type := .namedNonNull builtin.string }]

/-- A novel, which has one. -/
def titledNovel : ObjectType Unit Thing where
  name := "Novel"
  implements := ["Titled"]
  fields := [{ name := "title", type := .namedNonNull builtin.string }]

/-- The orders in which a shelf can be sorted. -/
def sorting : EnumType where
  name := "Sorting"
  values := ["TITLE", "YEAR"]

/-- An enum that no field refers to. -/
def binding : EnumType where
  name := "Binding"
  values := ["HARD", "SOFT"]

/-- The root of a shop with a shelf of novels. -/
def novelRoot : ObjectType Unit Thing where
  name := "Shop"
  description := some "Sells novels."
  fields := [
    { name := "shelf"
      type := .nonNullList "Titled"
      description := some "All that is on the shelf."
      arguments := [
        { name := "sorting", type := .named "Sorting", default := some (.enum "TITLE") },
        { name := "years", type := .nonNullList builtin.int, description := some "Or any." }] }]

/-- A shop with a shelf of novels. -/
def novelShop : Schema Unit Thing where
  registry := (Registry.empty "Shop").performAll [.register (.enum sorting),
    .register (.interface titledItem), .register (.object titledNovel), .register (.enum binding),
    .register (.object novelRoot)]
  root := .shop
  depthLimit := Schema.defaultDepthLimit

theorem isFinished_novelShop : novelShop.registry.IsFinished := ⟨⟨"Shop", _, rfl⟩, by rfl⟩

theorem types_novelShop : novelShop.registry.types = Registry.builtinScalars.map .scalar ++
    [.enum sorting, .interface titledItem, .object titledNovel, .enum binding,
      .object novelRoot] := by
  rfl

/-- A text that asks for a type, down to some depth. -/
def referenceText : Nat → String
  | 0 => "kind name"
  | n + 1 => "kind name ofType\x7b" ++ referenceText n ++ "\x7d"

/-- Asks for all of the root, with references of two wrappers at most. -/
def rootRequest : Request where
  query := "\x7b__type(name:\"Shop\")\x7bkind name description fields\x7b" ++
    "name description args\x7bname description type\x7b" ++ referenceText 3 ++
    "\x7ddefaultValue\x7dtype\x7b" ++ referenceText 3 ++ "\x7d\x7d" ++
    "interfaces\x7bname\x7dpossibleTypes\x7bname\x7denumValues\x7bname\x7d\x7d\x7d"

/-- The request asks for all of the root. -/
theorem exists_select_rootRequest : ∃ selected, novelShop.select rootRequest = .ok selected ∧
    selected.operation.kind = .query ∧ ∀ scope : Execution.Scope Unit (Subject Thing),
      scope.AlikeAll scope selected.plans
        [Introspection.question "Shop" (Introspection.askType 3)] := by
  have hselects : novelShop.selects rootRequest fun selected =>
      selected.operation.kind = .query &&
        Introspection.isQuestion "Shop" (Introspection.askType 3) selected.plans := by
    decide +kernel
  obtain ⟨selected, hselect, hcheck⟩ := Schema.exists_of_selects hselects
  obtain ⟨hquery, hquestion⟩ := Bool.and_eq_true_iff.1 hcheck
  exact ⟨selected, hselect, of_decide_eq_true hquery,
    Introspection.alikeAll_of_isQuestion hquestion⟩

theorem sparesOwnNames_novelShop : novelShop.registry.SparesOwnNames := by
  intro t ht
  have hall : ∀ name ∈ novelShop.registry.names,
      name ∉ Introspection.outlines.map Outline.name := by decide +kernel
  exact hall t.name (List.mem_map_of_mem ht)

/-- The root, which has an argument with a default, is shown in full. -/
theorem shows_declaration_shop :
    let r := novelShop.registry
    let t : NamedType Unit Thing := .object novelRoot
    r.IsFinished ∧ r.SparesOwnNames ∧ Schema.ofRegistry r .shop = .ok novelShop ∧ t ∈ r.types ∧
      Registry.isBuiltin t.name = false ∧ (∀ type ∈ t.references, type.wrappers < 3) ∧
      (∃ selected, novelShop.select rootRequest = .ok selected ∧
        selected.operation.kind = .query ∧
        let scope := novelShop.scope rootRequest selected.operation
        scope.AlikeAll scope selected.plans
          [Introspection.question t.name (Introspection.askType 3)]) ∧
      (novelShop.respond rootRequest ()).1 =
        ⟨.object [("__type", t.shown r fun _ => true)], []⟩ := by
  intro r t
  have hschema : Schema.ofRegistry r .shop = .ok novelShop := by rfl
  have ht : t ∈ r.types := by
    rw [types_novelShop]
    exact List.mem_append_right _ (by simp [t])
  have hbuiltin : Registry.isBuiltin t.name = false := by decide
  have hn : ∀ type ∈ t.references, type.wrappers < 3 := by decide
  obtain ⟨selected, hselect, hquery, hasks⟩ := exists_select_rootRequest
  obtain ⟨hrespond, hfull, -⟩ := Schema.shows_declaration isFinished_novelShop
    sparesOwnNames_novelShop hschema hselect hquery ht hbuiltin hn (hasks _)
  obtain ⟨hsees, hfull⟩ := hfull (.root (.head _))
  rw [hsees, if_pos rfl, hfull] at hrespond
  exact ⟨isFinished_novelShop, sparesOwnNames_novelShop, hschema, ht, hbuiltin, hn,
    ⟨selected, hselect, hquery, hasks _⟩, hrespond ()⟩

/-- A reference is shown with each of its wrappers. -/
example : (TypeRef.nonNullList "Titled").shown novelShop.registry.kindOf =
    .object [("kind", .enum "LIST"), ("name", .null), ("ofType",
      .object [("kind", .enum "NON_NULL"), ("name", .null), ("ofType",
        .object [("kind", .enum "INTERFACE"), ("name", .string "Titled"), ("ofType", .null)])])] :=
  rfl

/-! ### What is not shown -/

/-- An object with the name of one of introspection's own types. -/
def ownType : ObjectType Unit Thing where
  name := "__Type"
  fields := [{ name := "title", type := .named builtin.string }]

/-- A shop that has a type of its own under a name of introspection. -/
def shadowedShop : Schema Unit Thing where
  registry := (Registry.empty "Novel").performAll [.register (.object ownType),
    .register (.interface titledItem), .register (.object titledNovel)]
  root := .book "Emma"
  depthLimit := Schema.defaultDepthLimit

/-- A request for an enum that cannot be seen. -/
def bindingRequest : Request where
  query := "\x7b __type(name: \"Binding\") \x7b kind name enumValues \x7b name \x7d \x7d \x7d"

/-- A request for a type that can be seen, where another one takes a name of introspection. -/
def novelRequest : Request where
  query := "\x7b __type(name: \"Novel\") \x7b kind name \x7d \x7d"

/-- A declared enum that nothing refers to is not shown, and nothing is where a declared object
stands for introspection's own type. -/
theorem not_shown_binding :
    (novelShop.registry.IsFinished ∧
      Schema.ofRegistry novelShop.registry .shop = .ok novelShop ∧
      .enum binding ∈ novelShop.registry.types ∧ Registry.isBuiltin binding.name = false ∧
      (novelShop.respond bindingRequest ()).1.data.at? [.key "__type"] = some .null) ∧
    shadowedShop.registry.IsFinished ∧
      Schema.ofRegistry shadowedShop.registry (.book "Emma") = .ok shadowedShop ∧
      .object titledNovel ∈ shadowedShop.registry.types ∧
      Registry.isBuiltin titledNovel.name = false ∧
      (shadowedShop.respond novelRequest ()).1.data.isNull := by
  have htypes : shadowedShop.registry.types = Registry.builtinScalars.map .scalar ++
      [.object ownType, .interface titledItem, .object titledNovel] := by rfl
  refine ⟨⟨isFinished_novelShop, by rfl, ?_, by decide, Value.at?_eq_null (by decide +kernel)⟩,
    ⟨⟨"Novel", _, rfl⟩, by rfl⟩, by rfl, ?_, by decide, by decide +kernel⟩
  · rw [types_novelShop]
    exact List.mem_append_right _ (by simp)
  · rw [htypes]
    exact List.mem_append_right _ (by simp)

end Bookshop

end Gazette
