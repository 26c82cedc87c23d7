import Gazette.Proofs.Request.Conformity
import Gazette.Proofs.Request.Merging
import Gazette.Proofs.Schema.Completion

/-!
# Rendering

What a completed result looks like in a response (`Renders`): an object has a member for each key of
the selected fields, and the member shows what the fields under that key give, with all that is
selected inside them.  If fields under one key ask for the same (`Scope.Mergeable`), two renderings
of one result can be merged, and then show what is selected in either (`Renders.merge`).
-/

namespace Gazette

variable {σ ν : Type}

namespace Execution

variable {scope : Scope σ ν}

namespace Scope

/-- Whether two fields that are selected on an object are one field with the same arguments. -/
structure Agree (scope : Scope σ ν) (o : ObjectType σ ν) (f g : FieldPlan) : Prop where
  name_eq : f.head.name = g.head.name
  arguments_eq : ∀ field, o.field? f.head.name = some field →
    scope.boundArguments? field f.head.arguments = scope.boundArguments? field g.head.arguments

/-- Whether fields under one key agree, in the selections on an object and in all that is selected
inside the fields under one key. -/
inductive Mergeable (scope : Scope σ ν) : ObjectType σ ν → List Plan → Prop
  | intro {o : ObjectType σ ν} {plans : List Plan}
    (agree : ∀ f ∈ Plan.fieldsOn o plans, ∀ g ∈ Plan.fieldsOn o plans, f.key = g.key →
      scope.Agree o f g)
    (inside : ∀ f ∈ Plan.fieldsOn o plans, ∀ field, o.field? f.head.name = some field →
      ∀ o', scope.registry.Possible field.type.baseName o' →
        Mergeable scope o' (FieldPlan.collect (Plan.fieldsOn o plans) f.key)) :
    Mergeable scope o plans

theorem Agree.symm {o : ObjectType σ ν} {f g : FieldPlan} (h : scope.Agree o f g) :
    scope.Agree o g f :=
  ⟨h.name_eq.symm, fun field hfield => (h.arguments_eq field (h.name_eq ▸ hfield)).symm⟩

/-- Some of the selections are mergeable if all of them are. -/
theorem Mergeable.sublist {o : ObjectType σ ν} {plans all : List Plan} (h : scope.Mergeable o all)
    (hsub : plans.Sublist all) : scope.Mergeable o plans := by
  induction h generalizing plans with
  | @intro o all agree inside ih =>
    have hfields := Plan.fieldsOn_sublist hsub o
    refine .intro (fun f hf g hg => agree f (hfields.mem hf) g (hfields.mem hg)) ?_
    intro f hf field hfield o' ho'
    exact ih f (hfields.mem hf) field hfield o' ho' (FieldPlan.collect_sublist hfields f.key)

/-- Whether fields under one key agree, and can be merged with all that is selected inside them. -/
structure MergeableFields (scope : Scope σ ν) (o : ObjectType σ ν) (fields : List FieldPlan) :
    Prop where
  agree : ∀ f ∈ fields, ∀ g ∈ fields, f.key = g.key → scope.Agree o f g
  inside : ∀ f ∈ fields, ∀ field, o.field? f.head.name = some field →
    ∀ o', scope.registry.Possible field.type.baseName o' →
      scope.Mergeable o' (FieldPlan.collect fields f.key)

theorem Mergeable.fields {o : ObjectType σ ν} {plans : List Plan} (h : scope.Mergeable o plans) :
    scope.MergeableFields o (Plan.fieldsOn o plans) := by
  cases h with
  | intro agree inside => exact ⟨agree, inside⟩

theorem MergeableFields.sublist {o : ObjectType σ ν} {fields all : List FieldPlan}
    (h : scope.MergeableFields o all)
    (hsub : fields.Sublist all) : scope.MergeableFields o fields := by
  refine ⟨fun f hf g hg => h.agree f (hsub.mem hf) g (hsub.mem hg),
    fun f hf field hfield o' ho' => ?_⟩
  exact (h.inside f (hsub.mem hf) field hfield o' ho').sublist
    (FieldPlan.collect_sublist hsub f.key)

end Scope

end Execution

/-! ### Different keys -/

namespace Plan

mutual

/-- The keys of the fields of a selection set, through its fragments. -/
def keys : List Plan → List String
  | [] => []
  | p :: rest => p.keysOne ++ keys rest

/-- The keys that one plan adds to the selection set around it. -/
def keysOne : Plan → List String
  | .field head _ => [head.key]
  | .fragment _ _ _ plans => keys plans
  | .missing _ => []

end

mutual

/-- Whether the keys inside all fields are different ones. -/
def hasDistinctKeys : List Plan → Bool
  | [] => true
  | p :: rest => p.hasDistinctKeysOne && hasDistinctKeys rest

/-- Whether the keys inside all fields of one plan are different ones. -/
def hasDistinctKeysOne : Plan → Bool
  | .field _ plans => (keys plans).Nodup && hasDistinctKeys plans
  | .fragment _ _ _ plans => hasDistinctKeys plans
  | .missing _ => true

end

mutual

theorem keys_fieldsOn_sublist (o : ObjectType σ ν) (plans : List Plan) :
    ((fieldsOn o plans).map FieldPlan.key).Sublist (keys plans) := by
  cases plans with
  | nil => simp [fieldsOn]
  | cons p rest =>
    rw [fieldsOn, keys, List.map_append]
    exact (keys_fieldsOneOn_sublist o p).append (keys_fieldsOn_sublist o rest)

theorem keys_fieldsOneOn_sublist (o : ObjectType σ ν) (p : Plan) :
    ((p.fieldsOneOn o).map FieldPlan.key).Sublist p.keysOne := by
  cases p with
  | field head plans => exact List.Sublist.refl _
  | fragment name condition directives plans =>
    rw [fieldsOneOn, keysOne]
    split
    · exact keys_fieldsOn_sublist o plans
    · exact List.nil_sublist _
  | missing name => exact List.nil_sublist _

end

end Plan

namespace Execution.Scope

variable {scope : Scope σ ν}

/-- Fields with different keys are mergeable if what is inside each of them is. -/
theorem mergeable_of_nodup {o : ObjectType σ ν} {plans : List Plan}
    (hkeys : (Plan.keys plans).Nodup)
    (hinside : ∀ f ∈ Plan.fieldsOn o plans, ∀ o', scope.Mergeable o' f.plans) :
    scope.Mergeable o plans := by
  have hnodup := hkeys.sublist (Plan.keys_fieldsOn_sublist o plans)
  refine .intro (fun f hf g hg hkey => ?_) fun f hf _ _ o' _ => ?_
  · obtain rfl := List.inj_on_of_nodup_map hnodup hf hg hkey
    exact ⟨rfl, fun _ _ => rfl⟩
  · rw [FieldPlan.collect_of_nodup hnodup hf]
    exact hinside f hf o'

mutual

theorem mergeable_inside (plans : List Plan) (h : Plan.hasDistinctKeys plans) (o : ObjectType σ ν) :
    ∀ f ∈ Plan.fieldsOn o plans, ∀ o', scope.Mergeable o' f.plans := by
  cases plans with
  | nil => exact nofun
  | cons p rest =>
    rw [Plan.hasDistinctKeys, Bool.and_eq_true] at h
    intro f hf
    rcases List.mem_append.1 hf with hf | hf
    · exact mergeable_insideOne p h.1 o f hf
    · exact mergeable_inside rest h.2 o f hf

theorem mergeable_insideOne (p : Plan) (h : p.hasDistinctKeysOne) (o : ObjectType σ ν) :
    ∀ f ∈ p.fieldsOneOn o, ∀ o', scope.Mergeable o' f.plans := by
  cases p with
  | field head plans =>
    rw [Plan.hasDistinctKeysOne, Bool.and_eq_true, decide_eq_true_iff] at h
    intro f hf o'
    obtain rfl := List.mem_singleton.1 hf
    exact mergeable_of_nodup h.1 (mergeable_inside plans h.2 o')
  | fragment name condition directives plans =>
    rw [Plan.fieldsOneOn]
    split
    · exact mergeable_inside plans h o
    · exact nofun
  | missing name => exact nofun

end

/-- Selections whose keys are different ones in every selection set are mergeable. -/
theorem mergeable_of_hasDistinctKeys {plans : List Plan} (hkeys : (Plan.keys plans).Nodup)
    (h : Plan.hasDistinctKeys plans) (o : ObjectType σ ν) : scope.Mergeable o plans :=
  mergeable_of_nodup hkeys (mergeable_inside plans h o)

end Execution.Scope

namespace Execution

variable {scope : Scope σ ν} [Node ν] {s : σ}

/-- Whether a selected field has a completed result on a value of an object. -/
def Served (scope : Scope σ ν) (s : σ) (o : ObjectType σ ν) (v : ν) (f : FieldPlan)
    (field : Field σ ν) (c : Completed ν) : Prop :=
  o.field? f.head.name = some field ∧ ∃ arguments result completed,
    scope.boundArguments? field f.head.arguments = some arguments ∧
      fieldResult o.name field v arguments s = (.ok result, s) ∧
      scope.registry.complete field.type result = .ok completed ∧ c = completed.getD .null

theorem Served.unique {o : ObjectType σ ν} {v : ν} {f : FieldPlan} {field field' : Field σ ν}
    {c c' : Completed ν} (h : Served scope s o v f field c) (h' : Served scope s o v f field' c') :
    field = field' ∧ c = c' := by
  obtain ⟨hfield, arguments, result, completed, harguments, hresult, hcompleted, rfl⟩ := h
  obtain ⟨hfield', arguments', result', completed', harguments', hresult', hcompleted', rfl⟩ := h'
  obtain rfl := Option.some.inj (hfield.symm.trans hfield')
  obtain rfl := Option.some.inj (harguments.symm.trans harguments')
  obtain ⟨hr, -⟩ := Prod.mk.inj (hresult.symm.trans hresult')
  obtain rfl := Except.ok.inj hr
  obtain rfl := Except.ok.inj (hcompleted.symm.trans hcompleted')
  exact ⟨rfl, rfl⟩

theorem Served.of_agree {o : ObjectType σ ν} {v : ν} {f g : FieldPlan} {field : Field σ ν}
    {c : Completed ν} (h : Served scope s o v f field c) (hagree : scope.Agree o f g) :
    Served scope s o v g field c := by
  obtain ⟨hfield, arguments, result, completed, harguments, hrest⟩ := h
  refine ⟨hagree.name_eq ▸ hfield, arguments, result, completed, ?_, hrest⟩
  rw [← hagree.arguments_eq field hfield, harguments]

/-! ## Renderings -/

/-- How a completed value of a type is shown with the selections inside it. -/
inductive Renders (scope : Scope σ ν) (s : σ) : TypeRef → Completed ν → List Plan → Value → Prop
  | nonNull {type : TypeRef} {c : Completed ν} {plans : List Plan} {value : Value}
    (hnull : value.isNull = false) (h : Renders scope s type c plans value) :
    Renders scope s (.nonNull type) c plans value
  | nullName {name : String} {plans : List Plan} : Renders scope s (.named name) .null plans .null
  | nullList {item : TypeRef} {plans : List Plan} : Renders scope s (.list item) .null plans .null
  | leaf {name : String} {plans : List Plan} {value : Value} (hatomic : value.isAtomic)
    (h : scope.registry.HasLeaf name value) :
    Renders scope s (.named name) (.leaf value) plans value
  | list {item : TypeRef} {cs : List (Completed ν)} {plans : List Plan} {values : List Value}
    (hlength : cs.length = values.length) (hitems : ∀ value ∈ values, value.isList = false)
    (h : ∀ (i : Nat) c value, cs[i]? = some c → values[i]? = some value →
      Renders scope s item c plans value) :
    Renders scope s (.list item) (.list cs) plans (.list values)
  | object {name : String} {c : Completed ν} {o : ObjectType σ ν} {v : ν} {plans : List Plan}
    {members : Entries Value} (hof : c.IsOf scope.registry name o v)
    (names_nodup : members.names.Nodup)
    (mem_names : ∀ key, key ∈ members.names ↔ ∃ f ∈ Plan.fieldsOn o plans, f.key = key)
    (typeName : ∀ f ∈ Plan.fieldsOn o plans, f.head.name = Plan.typeNameField →
      members.lookup f.key = some (.string o.name))
    (served : ∀ f ∈ Plan.fieldsOn o plans, f.head.name ≠ Plan.typeNameField →
      ∃ field c, Served scope s o v f field c)
    (value : ∀ f ∈ Plan.fieldsOn o plans, f.head.name ≠ Plan.typeNameField →
      ∀ field c, Served scope s o v f field c → ∀ member, members.lookup f.key = some member →
        Renders scope s field.type c (FieldPlan.collect (Plan.fieldsOn o plans) f.key) member) :
    Renders scope s (.named name) c plans (.object members)

/-- What is shown has the declared types. -/
theorem Renders.conforms {type : TypeRef} {c : Completed ν} {plans : List Plan} {value : Value}
    (h : Renders scope s type c plans value) : scope.registry.Conforms type plans value := by
  induction h with
  | nonNull hnull h ih => exact .nonNull hnull ih
  | nullName => exact .nullName
  | nullList => exact .nullList
  | leaf hatomic h => exact .leaf h
  | @list item cs plans values hlength hitems h ih =>
    refine .list fun value hvalue => ?_
    obtain ⟨i, hi⟩ := List.mem_iff_getElem?.1 hvalue
    obtain ⟨hlt, -⟩ := List.getElem?_eq_some_iff.1 hi
    exact ih i cs[i] value (List.getElem?_eq_getElem (hlength ▸ hlt)) hi
  | object hof names_nodup mem_names typeName served value ih =>
    refine .object hof.possible names_nodup mem_names typeName (fun f hf hname => ?_) ?_
    · obtain ⟨field, c, hserved⟩ := served f hf hname
      exact Option.isSome_iff_exists.2 ⟨field, hserved.1⟩
    · intro f hf hname field hfield member hmember
      obtain ⟨field', c, hserved⟩ := served f hf hname
      obtain rfl := Option.some.inj (hserved.1.symm.trans hfield)
      exact ih f hf hname field' c hserved member hmember

/-- How the fields that are selected on a value of an object are shown by members. -/
structure Shows (scope : Scope σ ν) (s : σ) (o : ObjectType σ ν) (v : ν) (fields : List FieldPlan)
    (members : Entries Value) : Prop where
  names_nodup : members.names.Nodup
  mem_names : ∀ key, key ∈ members.names ↔ ∃ f ∈ fields, f.key = key
  typeName : ∀ f ∈ fields, f.head.name = Plan.typeNameField →
    members.lookup f.key = some (.string o.name)
  served : ∀ f ∈ fields, f.head.name ≠ Plan.typeNameField →
    ∃ field c, Served scope s o v f field c
  value : ∀ f ∈ fields, f.head.name ≠ Plan.typeNameField → ∀ field c, Served scope s o v f field c →
    ∀ member, members.lookup f.key = some member →
      Renders scope s field.type c (FieldPlan.collect fields f.key) member

variable {o : ObjectType σ ν} {v : ν} {name : String} {c : Completed ν} {plans : List Plan}

theorem Shows.renders {members : Entries Value}
    (h : Shows scope s o v (Plan.fieldsOn o plans) members)
    (hof : c.IsOf scope.registry name o v) :
    Renders scope s (.named name) c plans (.object members) :=
  .object hof h.names_nodup h.mem_names h.typeName h.served h.value

theorem Renders.shows {value : Value} (h : Renders scope s (.named name) c plans value)
    (hof : c.IsOf scope.registry name o v) :
    ∃ members, value = .object members ∧ Shows scope s o v (Plan.fieldsOn o plans) members := by
  cases h with
  | nullName => exact absurd hof Completed.not_isOf_null
  | leaf hatomic h => exact absurd hof Completed.not_isOf_leaf
  | object hof' names_nodup mem_names typeName served value =>
    obtain ⟨rfl, rfl⟩ := hof.unique hof'
    exact ⟨_, rfl, names_nodup, mem_names, typeName, served, value⟩

/-! ### What a rendering shows -/

theorem Renders.of_nonNull {type : TypeRef} {value : Value}
    (h : Renders scope s (.nonNull type) c plans value) : Renders scope s type c plans value := by
  cases h with
  | nonNull hnull h => exact h

theorem Renders.eq_of_leaf {type : TypeRef} {leaf value : Value}
    (h : Renders scope s type (.leaf leaf) plans value) : value = leaf := by
  generalize hc : (Completed.leaf leaf : Completed ν) = c at h
  induction h with
  | nonNull hnull h ih => exact ih hc
  | leaf => exact (Completed.leaf.inj hc).symm
  | object hof => exact absurd (hc ▸ hof) Completed.not_isOf_leaf
  | nullName | nullList | list => cases hc

theorem Renders.eq_of_null {type : TypeRef} {value : Value}
    (h : Renders scope s type .null plans value) : value = .null := by
  generalize hc : (Completed.null : Completed ν) = c at h
  induction h with
  | nonNull hnull h ih => exact ih hc
  | nullName => rfl
  | nullList => rfl
  | object hof => exact absurd (hc ▸ hof) Completed.not_isOf_null
  | leaf | list => cases hc

theorem Renders.exists_items {item : TypeRef} {cs : List (Completed ν)} {value : Value}
    (h : Renders scope s (.list item) (.list cs) plans value) : ∃ values, value = .list values ∧
      List.Forall₂ (fun c value => Renders scope s item c plans value) cs values := by
  cases h with
  | list hlength hitems h =>
    refine ⟨_, rfl, List.forall₂_iff_get.2 ⟨hlength, fun i hi hi' => ?_⟩⟩
    exact h i _ _ (List.getElem?_eq_getElem hi) (List.getElem?_eq_getElem hi')

/-- A selected field shows what it gives. -/
theorem Shows.exists_member {fields : List FieldPlan} {members : Entries Value} {f : FieldPlan}
    {field : Field σ ν} {result : FieldValue ν} {completed : Option (Completed ν)}
    (h : Shows scope s o v fields members) (hf : f ∈ fields)
    (hname : f.head.name ≠ Plan.typeNameField) (hfield : o.field? f.head.name = some field)
    (hresult : ∀ b, scope.boundArguments? field f.head.arguments = some b →
      fieldResult o.name field v b s = (.ok result, s))
    (hcomplete : scope.registry.complete field.type result = .ok completed) :
    ∃ member, members.lookup f.key = some member ∧
      Renders scope s field.type (completed.getD .null) (FieldPlan.collect fields f.key)
        member := by
  obtain ⟨field', c, hserved⟩ := h.served f hf hname
  obtain ⟨member, hmember⟩ := Option.isSome_iff_exists.1
    (Entries.isSome_lookup_iff.2 ((h.mem_names f.key).2 ⟨f, hf, rfl⟩))
  have hrenders := h.value f hf hname field' c hserved member hmember
  obtain ⟨hfield', b, result', completed', hb, hresult', hcomplete', rfl⟩ := hserved
  obtain rfl := Option.some.inj (hfield.symm.trans hfield')
  obtain ⟨hr, -⟩ := Prod.mk.inj ((hresult b hb).symm.trans hresult')
  obtain rfl := Except.ok.inj hr
  obtain rfl := Except.ok.inj (hcomplete.symm.trans hcomplete')
  exact ⟨member, hmember, hrenders⟩

/-! ## Merging renderings -/

/-- Whether a rendering of the result of a field can be merged with another one. -/
def MergesUnder (scope : Scope σ ν) (s : σ) (field : Field σ ν) (c : Completed ν)
    (plans : List Plan) (value : Value) : Prop :=
  ∀ more new, Renders scope s field.type c more new →
    (∀ o', scope.registry.Possible field.type.baseName o' → scope.Mergeable o' (plans ++ more)) →
    Renders scope s field.type c (plans ++ more) (value.merge new)

namespace Shows

variable {fields further : List FieldPlan} {members added : Entries Value} {f : FieldPlan}

theorem lookup_of_mem (h : Shows scope s o v fields members) (hf : f ∈ fields) :
    ∃ value, members.lookup f.key = some value :=
  Option.isSome_iff_exists.1 (Entries.isSome_lookup_iff.2 ((h.mem_names f.key).2 ⟨f, hf, rfl⟩))

theorem lookup_eq_none (h : Shows scope s o v fields members) {key : String}
    (hkey : ∀ f ∈ fields, f.key ≠ key) : members.lookup key = none := by
  refine Entries.lookup_eq_none_iff.2 fun hmem => ?_
  obtain ⟨f, hf, hfkey⟩ := (h.mem_names key).1 hmem
  exact hkey f hf hfkey

theorem mem_of_lookup (h : Shows scope s o v fields members) {key : String} {value : Value}
    (hvalue : members.lookup key = some value) : ∃ f ∈ fields, f.key = key :=
  (h.mem_names key).1 (Entries.isSome_lookup_iff.1 (hvalue ▸ rfl))

theorem typeName_merge (h : Shows scope s o v fields members) (h' : Shows scope s o v further added)
    (hfields : scope.MergeableFields o (fields ++ further)) (hf : f ∈ fields)
    (hname : f.head.name = Plan.typeNameField) :
    (Value.mergeMembers members added).lookup f.key = some (.string o.name) := by
  rw [Value.lookup_mergeMembers (List.nodup_iff_count_le_one.1 h'.names_nodup _),
    h.typeName f hf hname]
  cases hadded : added.lookup f.key with
  | none => rfl
  | some new =>
    obtain ⟨g, hg, hkey⟩ := h'.mem_of_lookup hadded
    have hagree := hfields.agree f (by simp [hf]) g (by simp [hg]) hkey.symm
    have hstring := h'.typeName g hg (hagree.name_eq ▸ hname)
    rw [hkey, hadded] at hstring
    obtain rfl := Option.some.inj hstring
    exact congrArg some (Value.merge_of_isAtomic rfl _)

theorem value_merge (h : Shows scope s o v fields members) (h' : Shows scope s o v further added)
    (hfields : scope.MergeableFields o (fields ++ further)) (hf : f ∈ fields)
    (hname : f.head.name ≠ Plan.typeNameField) {field : Field σ ν} {c : Completed ν}
    (hserved : Served scope s o v f field c)
    (hmerges : ∀ value, members.lookup f.key = some value →
      MergesUnder scope s field c (FieldPlan.collect fields f.key) value)
    {member : Value} (hmember : (Value.mergeMembers members added).lookup f.key = some member) :
    Renders scope s field.type c (FieldPlan.collect (fields ++ further) f.key) member := by
  obtain ⟨value, hvalue⟩ := h.lookup_of_mem hf
  rw [Value.lookup_mergeMembers (List.nodup_iff_count_le_one.1 h'.names_nodup _), hvalue] at hmember
  rw [FieldPlan.collect_append]
  cases hadded : added.lookup f.key with
  | none =>
    rw [hadded] at hmember
    obtain rfl := Option.some.inj hmember
    have hnone : FieldPlan.collect further f.key = [] := by
      refine FieldPlan.collect_eq_nil fun g hg hkey => ?_
      obtain ⟨new, hnew⟩ := h'.lookup_of_mem hg
      rw [hkey, hadded] at hnew
      cases hnew
    rw [hnone, List.append_nil]
    exact h.value f hf hname field c hserved value hvalue
  | some new =>
    rw [hadded] at hmember
    obtain rfl := Option.some.inj hmember
    obtain ⟨g, hg, hkey⟩ := h'.mem_of_lookup hadded
    have hagree := hfields.agree f (by simp [hf]) g (by simp [hg]) hkey.symm
    have hnew := h'.value g hg (hagree.name_eq ▸ hname) field c (hserved.of_agree hagree) new
      (hkey.symm ▸ hadded)
    rw [hkey] at hnew
    refine hmerges value hvalue _ new hnew fun o' ho' => ?_
    rw [← FieldPlan.collect_append]
    exact hfields.inside f (by simp [hf]) field hserved.1 o' ho'

theorem merge (h : Shows scope s o v fields members) (h' : Shows scope s o v further added)
    (hfields : scope.MergeableFields o (fields ++ further))
    (hmerges : ∀ f ∈ fields, f.head.name ≠ Plan.typeNameField → ∀ field c,
      Served scope s o v f field c → ∀ value, members.lookup f.key = some value →
        MergesUnder scope s field c (FieldPlan.collect fields f.key) value) :
    Shows scope s o v (fields ++ further) (Value.mergeMembers members added) := by
  have hfirst (g : FieldPlan) (hg : g ∈ further) :
      (∃ f ∈ fields, f.key = g.key ∧ scope.Agree o f g) ∨
        ((∀ f ∈ fields, f.key ≠ g.key) ∧
          (Value.mergeMembers members added).lookup g.key = added.lookup g.key) := by
    by_cases hkey : ∃ f ∈ fields, f.key = g.key
    · obtain ⟨f, hf, hkey⟩ := hkey
      exact .inl ⟨f, hf, hkey, hfields.agree f (by simp [hf]) g (by simp [hg]) hkey⟩
    · have hne : ∀ f ∈ fields, f.key ≠ g.key := fun f hf heq => hkey ⟨f, hf, heq⟩
      refine .inr ⟨hne, ?_⟩
      rw [Value.lookup_mergeMembers (List.nodup_iff_count_le_one.1 h'.names_nodup _),
        h.lookup_eq_none hne]
      cases added.lookup g.key <;> rfl
  refine ⟨Value.nodup_names_mergeMembers h.names_nodup added, fun key => ?_, ?_, ?_, ?_⟩
  · rw [Value.mem_names_mergeMembers, h.mem_names, h'.mem_names]
    simp only [List.mem_append, or_and_right, exists_or]
  · intro f hf hname
    rcases List.mem_append.1 hf with hf | hf
    · exact h.typeName_merge h' hfields hf hname
    · rcases hfirst f hf with ⟨g, hg, hkey, hagree⟩ | ⟨-, hlookup⟩
      · rw [← hkey]
        exact h.typeName_merge h' hfields hg (hagree.name_eq.trans hname)
      · rw [hlookup]
        exact h'.typeName f hf hname
  · intro f hf hname
    rcases List.mem_append.1 hf with hf | hf
    · exact h.served f hf hname
    · exact h'.served f hf hname
  · intro f hf hname field c hserved member hmember
    rcases List.mem_append.1 hf with hf | hf
    · exact h.value_merge h' hfields hf hname hserved (hmerges f hf hname field c hserved) hmember
    · rcases hfirst f hf with ⟨g, hg, hkey, hagree⟩ | ⟨hne, hlookup⟩
      · have hserved' := hserved.of_agree hagree.symm
        have hname' : g.head.name ≠ Plan.typeNameField := fun heq => hname (hagree.name_eq ▸ heq)
        rw [← hkey] at hmember ⊢
        exact h.value_merge h' hfields hg hname' hserved' (hmerges g hg hname' field c hserved')
          hmember
      · rw [hlookup] at hmember
        rw [FieldPlan.collect_append, FieldPlan.collect_eq_nil hne, List.nil_append]
        exact h'.value f hf hname field c hserved member hmember

end Shows

/-- Two renderings of one completed value can be merged. -/
theorem Renders.merge {type : TypeRef} {value new : Value} {more : List Plan}
    (h : Renders scope s type c plans value) (h' : Renders scope s type c more new)
    (hmergeable : ∀ o, scope.registry.Possible type.baseName o →
      scope.Mergeable o (plans ++ more)) :
    Renders scope s type c (plans ++ more) (value.merge new) := by
  induction h generalizing more new with
  | nonNull hnull h ih =>
    cases h' with
    | nonNull hnull' h' => exact .nonNull (Value.isNull_merge hnull new) (ih h' hmergeable)
  | nullName =>
    cases h' with
    | nullName => rw [Value.merge_of_isAtomic rfl]; exact .nullName
    | object hof => exact absurd hof Completed.not_isOf_null
  | nullList =>
    cases h' with
    | nullList => rw [Value.merge_of_isAtomic rfl]; exact .nullList
  | leaf hatomic h =>
    cases h' with
    | leaf => rw [Value.merge_of_isAtomic hatomic]; exact .leaf hatomic h
    | object hof => exact absurd hof Completed.not_isOf_leaf
  | @list item cs plans values hlength hitems h ih =>
    cases h' with
    | @list _ _ _ values' hlength' hitems' h' =>
      have hzip : (Value.list values).merge (.list values') =
          .list (List.zipWith Value.merge values values') := by
        rw [Value.merge_list, Value.mergeItems_eq_zipWith (hlength.symm.trans hlength') hitems]
      rw [hzip]
      refine .list ?_ ?_ fun i c value hc hvalue => ?_
      · rw [List.length_zipWith, ← hlength', ← hlength, Nat.min_self]
      · intro value hvalue
        obtain ⟨i, hi⟩ := List.mem_iff_getElem?.1 hvalue
        obtain ⟨old, new, hold, -, rfl⟩ := List.getElem?_zipWith_eq_some.1 hi
        exact Value.isList_merge (hitems old (List.mem_of_getElem? hold)) new
      · obtain ⟨old, new, hold, hnew, rfl⟩ := List.getElem?_zipWith_eq_some.1 hvalue
        exact ih i c old hc hold (h' i c new hc hnew) hmergeable
  | @object name c o v plans members hof names_nodup mem_names typeName served value ih =>
    obtain ⟨added, rfl, hadded⟩ := h'.shows hof
    have hmembers : Shows scope s o v (Plan.fieldsOn o plans) members :=
      ⟨names_nodup, mem_names, typeName, served, value⟩
    have hfields := (hmergeable o hof.possible).fields
    rw [Plan.fieldsOn_append] at hfields
    have hmerged := hmembers.merge hadded hfields
      fun f hf hname field c hserved value hvalue more new =>
        ih f hf hname field c hserved value hvalue
    rw [← Plan.fieldsOn_append] at hmerged
    rw [Value.merge_object]
    exact hmerged.renders hof

end Execution

end Gazette
