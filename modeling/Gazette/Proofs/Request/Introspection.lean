import Gazette.Proofs.Request.Serving
import Gazette.Schema.Introspection

/-!
# Results of introspection

Every field that introspection adds has a result of its declared type: those of the parts of a
schema (`givesProper_of_mem`) and those of the query root (`exists_result_of_rootField`).
-/

namespace Gazette.Introspection

variable {σ ν : Type}

/-- Whether a registry has the built-in scalars and the types of introspection. -/
structure Installed (k : Knowledge) (r : Registry σ (Subject ν)) : Prop where
  scalar : ∀ t ∈ Registry.builtinScalars, r.find? t.name = some (.scalar t)
  own : ∀ t ∈ types k, r.find? t.name = some t

/-- What introspection adds to types of other names is installed. -/
theorem installed_of_nodup {r : Registry σ ν} {root : ν}
    (h : ((r.withIntrospection root).types.map NamedType.name).Nodup)
    (hscalars : ∀ t ∈ Registry.builtinScalars, .scalar t ∈ r.types) :
    Installed r.knowledge (r.withIntrospection root) where
  scalar t ht := by
    have hmem : .scalar t ∈ (r.withIntrospection root).types :=
      List.mem_append_left _ (List.mem_map.2 ⟨.scalar t, hscalars t ht, rfl⟩)
    exact Registry.find?_of_mem h hmem
  own t ht := Registry.find?_of_mem h (List.mem_append_right _ ht)

variable {k : Knowledge} {r : Registry σ (Subject ν)}

theorem Installed.string (h : Installed k r) :
    ∃ t, r.find? builtin.string = some (.scalar t) :=
  ⟨_, h.scalar ⟨builtin.string, some "A UTF-8 character sequence."⟩
    (by simp [Registry.builtinScalars])⟩

theorem Installed.boolean (h : Installed k r) :
    ∃ t, r.find? builtin.boolean = some (.scalar t) :=
  ⟨_, h.scalar ⟨builtin.boolean, some "`true` or `false`."⟩ (by simp [Registry.builtinScalars])⟩

theorem Installed.object (h : Installed k r) (p : Part) :
    ∃ o, r.find? p.typeName = some (.object o) := by
  have hobject : ∃ o : ObjectType σ (Subject ν), .object o ∈ types k ∧ o.name = p.typeName := by
    cases p with
    | schema => exact ⟨_, .head _, rfl⟩
    | type t => exact ⟨_, .tail _ (.head _), rfl⟩
    | field f => exact ⟨_, .tail _ (.tail _ (.head _)), rfl⟩
    | input spec => exact ⟨_, .tail _ (.tail _ (.tail _ (.head _))), rfl⟩
    | value name description => exact ⟨_, .tail _ (.tail _ (.tail _ (.tail _ (.head _)))), rfl⟩
    | directive name description spec =>
      exact ⟨_, .tail _ (.tail _ (.tail _ (.tail _ (.tail _ (.head _))))), rfl⟩
  obtain ⟨o, ho, hname⟩ := hobject
  exact ⟨o, hname ▸ h.own _ ho⟩

/-! ## Where the fields lead -/

theorem names_types (k : Knowledge) : (types (σ := σ) (ν := ν) k).map NamedType.name =
    ["__Schema", "__Type", "__Field", "__InputValue", "__EnumValue", "__Directive", "__TypeKind",
      "__DirectiveLocation"] := rfl

/-- The fields of introspection lead to its own types and to built-in scalars only. -/
theorem introspective_of_mem {o : ObjectType σ (Subject ν)} (ho : .object o ∈ types k) :
    ∀ f ∈ o.fields, f.role = .introspective ∧
      f.type.baseName ∈ builtin.string :: builtin.boolean ::
        (types (σ := σ) (ν := ν) k).map NamedType.name := by
  rw [names_types]
  simp only [types, List.mem_cons, NamedType.object.injEq, reduceCtorEq, List.not_mem_nil, or_false]
    at ho
  rcases ho with rfl | rfl | rfl | rfl | rfl | rfl
  all_goals
    simp [partField, TypeRef.baseName, TypeRef.namedNonNull, TypeRef.nonNullListNonNull,
      TypeRef.nonNullList, TypeRef.required]

theorem Installed.mem_types_of_possible {r : Registry σ (Subject ν)} (h : Installed k r)
    {name : String} (hname : name ∈ builtin.string :: builtin.boolean ::
      (types (σ := σ) (ν := ν) k).map NamedType.name)
    {o : ObjectType σ (Subject ν)} (ho : r.Possible name o) : .object o ∈ types k := by
  have hfind : (∃ t, r.find? name = some (.scalar t)) ∨ ∃ t ∈ types k, r.find? name = some t := by
    rcases List.mem_cons.1 hname with rfl | hname
    · exact .inl h.string
    rcases List.mem_cons.1 hname with rfl | hname
    · exact .inl h.boolean
    obtain ⟨t, ht, rfl⟩ := List.mem_map.1 hname
    exact .inr ⟨t, ht, h.own t ht⟩
  rcases hfind with ⟨t, hfind⟩ | ⟨t, ht, hfind⟩
  · cases ho with
    | object hobject => cases hobject.symm.trans hfind
    | interface i hinterface => cases hinterface.symm.trans hfind
  · cases ho with
    | object hobject =>
      obtain rfl := Option.some.inj (hobject.symm.trans hfind)
      exact ht
    | interface i hinterface =>
      obtain rfl := Option.some.inj (hinterface.symm.trans hfind)
      simp [types] at ht

variable [Node ν] {node : String → Subject ν → Prop} {s : σ}

/-! ## Results -/

theorem proper_string (h : Installed k r) (text : String) :
    (FieldValue.string text).Proper r (.results node) (.named builtin.string) := by
  obtain ⟨t, ht⟩ := h.string
  exact FieldValue.proper_leaf ht ⟨rfl, rfl⟩

theorem proper_optional (h : Installed k r) (text : Option String) :
    (optional text).Proper r (.results node) (.named builtin.string) := by
  cases text with
  | none => exact .inl rfl
  | some text => exact proper_string h text

theorem proper_boolean (h : Installed k r) (b : Bool) :
    (FieldValue.leaf (.boolean b)).Proper r (.results node) (.named builtin.boolean) := by
  obtain ⟨t, ht⟩ := h.boolean
  exact FieldValue.proper_leaf ht ⟨rfl, rfl⟩

theorem proper_kind (h : Installed k r) (type : TypeRef) :
    (FieldValue.leaf (.enum (k.kind type).name)).Proper r (.results node)
      (.named "__TypeKind") := by
  refine FieldValue.proper_member (h.own (.enum {
    name := "__TypeKind"
    description := some Description.typeKind
    values := Description.kinds.names
    valueDescriptions := Description.kinds }) (by simp [types])) rfl ?_
  cases k.kind type <;> decide

theorem proper_locations (h : Installed k r) :
    (FieldValue.list (directiveLocations.map fun l => .leaf (.enum l))).Proper r (.results node)
      (.nonNullList "__DirectiveLocation") := by
  refine .inr ⟨_, rfl, fun i hi => ?_⟩
  obtain ⟨l, hl, rfl⟩ := List.mem_map.1 hi
  refine ⟨rfl, FieldValue.proper_member (h.own (.enum {
    name := "__DirectiveLocation"
    description := some Description.directiveLocation
    values := Description.places.names
    valueDescriptions := Description.places }) (by simp [types])) rfl ?_⟩
  have hall : ∀ l ∈ directiveLocations, Description.places.names.contains l := by decide
  exact hall l hl

theorem proper_part (h : Installed k r) (hnode : ∀ p : Part, node p.typeName (.part p)) (p : Part) :
    (FieldValue.node (.part p)).Proper r (.results node) (.named p.typeName) := by
  obtain ⟨o, ho⟩ := h.object p
  exact FieldValue.proper_node ho rfl (hnode p)

theorem proper_parts (h : Installed k r) (hnode : ∀ p : Part, node p.typeName (.part p))
    {ps : List Part} {name : String} (hps : ∀ p ∈ ps, p.typeName = name) :
    (parts ps).Proper r (.results node) (.nonNullList name) := by
  refine FieldValue.proper_nodes fun v hv => ?_
  obtain ⟨p, hp, rfl⟩ := List.mem_map.1 hv
  exact hps p hp ▸ proper_part h hnode p

theorem proper_parts_map {α : Type} (h : Installed k r)
    (hnode : ∀ p : Part, node p.typeName (.part p)) (f : α → Part) {name : String}
    (hname : ∀ a, (f a).typeName = name) (as : List α) :
    (parts (as.map f)).Proper r (.results node) (.nonNullList name) := by
  refine proper_parts h hnode fun p hp => ?_
  obtain ⟨a, -, rfl⟩ := List.mem_map.1 hp
  exact hname a

theorem proper_namedTypes (h : Installed k r) (hnode : ∀ p : Part, node p.typeName (.part p))
    (names : List String) :
    (namedTypes names).Proper r (.results node) (.nonNullList "__Type") :=
  proper_parts_map h hnode (fun name => .type (.named name)) (fun _ => rfl) names

theorem proper_mutationType (h : Installed k r) (hnode : ∀ p : Part, node p.typeName (.part p)) :
    (k.read "mutationType" .schema : FieldValue (Subject ν)).Proper r (.results node)
      (.named "__Type") := by
  refine FieldValue.proper_optionalNode fun v hv => ?_
  obtain ⟨m, -, rfl⟩ := Option.map_eq_some_iff.1 hv
  exact proper_part h hnode (.type (.named m))

theorem proper_ofType (h : Installed k r) (hnode : ∀ p : Part, node p.typeName (.part p))
    (type : TypeRef) :
    (k.read "ofType" (.type type) : FieldValue (Subject ν)).Proper r (.results node)
      (.named "__Type") := by
  cases type with
  | named name => exact FieldValue.proper_null
  | nonNull inner => exact proper_part h hnode (.type inner)
  | list item => exact proper_part h hnode (.type item)

theorem proper_directives (h : Installed k r) (hnode : ∀ p : Part, node p.typeName (.part p)) :
    (parts directives).Proper r (.results node) (.nonNullList "__Directive") :=
  proper_parts h hnode (by simp [directives, Part.typeName])

theorem proper_ofKinds {type item : TypeRef} {kinds : List TypeKind}
    {read : Outline → FieldValue (Subject ν)}
    (hread : ∀ o, (read o).Proper r (.results node) (.list item)) :
    (k.ofKinds kinds type read).Proper r (.results node) (.list item) := by
  unfold Knowledge.ofKinds
  split
  · split
    · exact hread _
    · exact .inl rfl
  · exact .inl rfl

/-! ## Fields -/

/-- Whether a field of an object has a result of its type on a part. -/
def GivesProper (r : Registry σ (Subject ν)) (node : String → Subject ν → Prop) (object : String)
    (p : Part) (f : Field σ (Subject ν)) : Prop :=
  ∀ b s, ∃ result, Execution.fieldResult object f (.part p) b s = (.ok result, s) ∧
    result.Proper r (.results node) f.type

theorem givesProper_partField {object name : String} {p : Part} {type : TypeRef}
    {arguments : List ArgumentSpec} {description : Option String}
    (h : (k.read name p : FieldValue (Subject ν)).Proper r (.results node) type) :
    GivesProper r node object p (partField k name type arguments description) :=
  fun _ _ => ⟨_, rfl, h⟩

/-- The fields of a part have results of their types. -/
theorem givesProper_of_mem (h : Installed k r) (hnode : ∀ p : Part, node p.typeName (.part p))
    {o : ObjectType σ (Subject ν)} (ho : .object o ∈ types k) {p : Part}
    (hp : p.typeName = o.name) :
    ∀ f ∈ o.fields, GivesProper r node o.name p f := by
  simp only [types, List.mem_cons, NamedType.object.injEq, reduceCtorEq, List.not_mem_nil, or_false]
    at ho
  rcases ho with rfl | rfl | rfl | rfl | rfl | rfl
  all_goals
    simp only [List.forall_mem_cons, List.not_mem_nil, false_imp_iff, implies_true, and_true]
  · cases p with
    | schema =>
      exact ⟨givesProper_partField ⟨rfl, proper_namedTypes h hnode _⟩,
        givesProper_partField ⟨rfl, proper_part h hnode (.type _)⟩,
        givesProper_partField (proper_mutationType h hnode),
        givesProper_partField FieldValue.proper_null,
        givesProper_partField ⟨rfl, proper_directives h hnode⟩⟩
    | _ => simp [Part.typeName] at hp
  · cases p with
    | type type =>
      exact ⟨givesProper_partField ⟨rfl, proper_kind h type⟩,
        givesProper_partField (proper_optional h _), givesProper_partField (proper_optional h _),
        givesProper_partField (proper_ofKinds fun o =>
          proper_parts_map h hnode .field (fun _ => rfl) _),
        givesProper_partField (proper_ofKinds fun o => proper_namedTypes h hnode _),
        givesProper_partField (proper_ofKinds fun o => proper_namedTypes h hnode _),
        givesProper_partField (proper_ofKinds fun o =>
          proper_parts_map h hnode (fun value => .value value (o.valueDescriptions.lookup value))
            (fun _ => rfl) o.values),
        givesProper_partField (.inl rfl), givesProper_partField (proper_ofType h hnode type),
        givesProper_partField FieldValue.proper_null,
        givesProper_partField FieldValue.proper_null⟩
    | _ => simp [Part.typeName] at hp
  · cases p with
    | field f =>
      exact ⟨givesProper_partField ⟨rfl, proper_string h _⟩,
        givesProper_partField (proper_optional h _),
        givesProper_partField ⟨rfl, proper_parts_map h hnode .input (fun _ => rfl) _⟩,
        givesProper_partField ⟨rfl, proper_part h hnode (.type f.type)⟩,
        givesProper_partField ⟨rfl, proper_boolean h _⟩,
        givesProper_partField FieldValue.proper_null⟩
    | _ => simp [Part.typeName] at hp
  · cases p with
    | input spec =>
      exact ⟨givesProper_partField ⟨rfl, proper_string h _⟩,
        givesProper_partField (proper_optional h _),
        givesProper_partField ⟨rfl, proper_part h hnode (.type spec.type)⟩,
        givesProper_partField (proper_optional h _)⟩
    | _ => simp [Part.typeName] at hp
  · cases p with
    | value value description =>
      exact ⟨givesProper_partField ⟨rfl, proper_string h _⟩,
        givesProper_partField (proper_optional h _),
        givesProper_partField ⟨rfl, proper_boolean h _⟩,
        givesProper_partField FieldValue.proper_null⟩
    | _ => simp [Part.typeName] at hp
  · cases p with
    | directive title description condition =>
      exact ⟨givesProper_partField ⟨rfl, proper_string h _⟩,
        givesProper_partField (proper_string h _),
        givesProper_partField ⟨rfl, proper_locations h⟩,
        givesProper_partField ⟨rfl, proper_parts_map h hnode .input (fun _ => rfl) [condition]⟩,
        givesProper_partField ⟨rfl, proper_boolean h _⟩⟩
    | _ => simp [Part.typeName] at hp

/-- The fields of the query root for introspection have results of their types. -/
theorem exists_result_of_rootField (h : Installed k r)
    (hnode : ∀ p : Part, node p.typeName (.part p))
    {f : Field σ (Subject ν)} (hf : f ∈ rootFields k) {b : BoundArguments} (hb : r.Binds f b)
    (object : String) (v : Subject ν) (s : σ) :
    ∃ result, Execution.fieldResult object f v b s = (.ok result, s) ∧
      result.Proper r (.results node) f.type := by
  simp only [rootFields, List.mem_cons, List.not_mem_nil, or_false] at hf
  rcases hf with rfl | rfl
  · exact ⟨_, rfl, rfl, proper_part h hnode .schema⟩
  · obtain ⟨t, ht⟩ := h.string
    obtain ⟨name, hname⟩ := hb.string_eq (.head _) rfl ht
    refine ⟨if k.visible.contains name then .node (.part (.type (.named name))) else .null, ?_, ?_⟩
    · simp only [Execution.fieldResult]
      rw [hname]
      rfl
    · split
      · exact proper_part h hnode (.type (.named name))
      · exact FieldValue.proper_null

end Gazette.Introspection
