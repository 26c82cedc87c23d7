import Gazette.Proofs.Lists
import Gazette.Proofs.Schema.Lookup
import Gazette.Schema.Completion

/-!
# What completion gives

`Completed.Fits` says that a completed result is one of a type: null only where the type allows it,
a list item by item, and at a name a leaf, a value of the object type, or a value that is tagged
with an object of the interface.  Whatever completion gives fits the type (`fits_of_complete`), and
it gives something for every result of the right form (`complete_of_proper`).  What leaves and
values have to be beyond that is a parameter, a `Demand`.

How completion ends is told once for each form of a type (`complete_list_eq_ok_iff`,
`complete_list_eq_error_iff` and so on), and all that follows about its results is by induction on
the type.
-/

namespace Gazette

/-- What is asked of the leaves of a type, and of the values of an object type, by their names. -/
structure Demand (ν : Type) where
  leaf : String → Value → Prop
  node : String → ν → Prop

namespace Demand

/-- The demand that every value meets. -/
def nothing {ν : Type} : Demand ν := ⟨fun _ _ => True, fun _ _ => True⟩

end Demand

variable {σ ν : Type}

namespace Registry

/-- Whether values of an interface can be tagged with a name: it is that of one of its objects. -/
def IsTagOf (r : Registry σ ν) (interface : String) (tag : String) : Prop :=
  ∃ o, r.object? tag = some o ∧ o.isA interface

variable [Node ν]

/-- What values of an interface are tagged with is one of its objects. -/
theorem isTagOf_of_concreteType {r : Registry σ ν} {interface : String} {value : ν}
    {o : ObjectType σ ν} (h : r.concreteType interface value = .ok o) :
    Node.typeName value = some o.name ∧ r.IsTagOf interface o.name := by
  unfold concreteType at h
  split at h
  · rename_i o' ho
    split at h
    · rename_i hisA
      obtain rfl := Except.ok.inj h
      obtain ⟨name, hname, ho⟩ := Option.bind_eq_some_iff.1 ho
      obtain ⟨-, rfl⟩ := mem_of_object? ho
      exact ⟨hname, o', ho, hisA⟩
    · cases h
  · cases h

end Registry

/-! ## Results -/

namespace FieldValue

variable [Node ν]

/-- Whether a result that is not null is of the form that the type with a name asks for. -/
def ProperNamed (r : Registry σ ν) (d : Demand ν) (name : String) (result : FieldValue ν) : Prop :=
  match r.find? name, result with
  | some (.scalar _), .leaf v => d.leaf name v
  | some (.enum e), .leaf v => ∃ value, v.name? = some value ∧ e.contains value
  | some (.object o), .node v => Node.typeName v = some o.name ∧ d.node o.name v
  | some (.interface i), .node v =>
    ∃ tag, Node.typeName v = some tag ∧ r.IsTagOf i.name tag ∧ d.node tag v
  | _, _ => False

/-- Whether a result is of the form that a type asks for. -/
def Proper (r : Registry σ ν) (d : Demand ν) : TypeRef → FieldValue ν → Prop
  | .nonNull inner, result => result.isNull = false ∧ Proper r d inner result
  | .list item, result =>
    result.isNull ∨ ∃ items, result = .list items ∧ ∀ i ∈ items, Proper r d item i
  | .named name, result => result.isNull ∨ ProperNamed r d name result

end FieldValue

/-! ### Results of common forms -/

namespace FieldValue

variable [Node ν] {r : Registry σ ν} {d : Demand ν} {name : String}

theorem proper_null : (null : FieldValue ν).Proper r d (.named name) := .inl rfl

theorem proper_leaf {t : ScalarType} {value : Value} (hfind : r.find? name = some (.scalar t))
    (h : d.leaf name value) : (leaf value).Proper r d (.named name) := by
  refine .inr ?_
  unfold ProperNamed
  rw [hfind]
  exact h

theorem proper_member {e : EnumType} {value : Value} {member : String}
    (hfind : r.find? name = some (.enum e)) (hvalue : value.name? = some member)
    (h : e.contains member) : (leaf value).Proper r d (.named name) := by
  refine .inr ?_
  unfold ProperNamed
  rw [hfind]
  exact ⟨member, hvalue, h⟩

theorem proper_node {o : ObjectType σ ν} {v : ν} (hfind : r.find? name = some (.object o))
    (hname : Node.typeName v = some name) (h : d.node name v) :
    (node v).Proper r d (.named name) := by
  obtain ⟨-, rfl⟩ : NamedType.object o ∈ r.types ∧ o.name = name := Registry.name_of_find? hfind
  refine .inr ?_
  unfold ProperNamed
  rw [hfind]
  exact ⟨hname, h⟩

theorem proper_tagged {i : InterfaceType} {tag : String} {v : ν}
    (hfind : r.find? name = some (.interface i)) (hname : Node.typeName v = some tag)
    (htag : r.IsTagOf i.name tag) (h : d.node tag v) : (node v).Proper r d (.named name) := by
  refine .inr ?_
  unfold ProperNamed
  rw [hfind]
  exact ⟨tag, hname, htag, h⟩

theorem proper_optionalNode {found : Option ν}
    (h : ∀ v, found = some v → (node v).Proper r d (.named name)) :
    (optionalNode found).Proper r d (.named name) := by
  cases found with
  | none => exact proper_null
  | some v => exact h v rfl

theorem proper_nodes {values : List ν} (h : ∀ v ∈ values, (node v).Proper r d (.named name)) :
    (nodes values).Proper r d (.nonNullList name) := by
  refine .inr ⟨_, rfl, fun i hi => ?_⟩
  obtain ⟨v, hv, rfl⟩ := List.mem_map.1 hi
  exact ⟨rfl, h v hv⟩

end FieldValue

/-! ## Completed results -/

namespace Completed

/-- Whether a completed value is one of an object, where the type with a name is expected. -/
inductive IsOf (r : Registry σ ν) (name : String) (c : Completed ν) (o : ObjectType σ ν) (v : ν) :
    Prop
  | object (hfind : r.find? name = some (.object o)) (hc : c = .node v)
  | interface (i : InterfaceType) (hfind : r.find? name = some (.interface i))
    (ho : r.object? o.name = some o) (hi : o.isA i.name) (hc : c = .tagged o.name v)

theorem IsOf.possible {r : Registry σ ν} {name : String} {c : Completed ν} {o : ObjectType σ ν}
    {v : ν} (h : c.IsOf r name o v) : r.Possible name o := by
  cases h with
  | object hfind hc => exact .object hfind
  | interface i hfind ho hi hc => exact .interface i hfind ho hi

theorem IsOf.unique {r : Registry σ ν} {name : String} {c : Completed ν} {o o' : ObjectType σ ν}
    {v v' : ν} (h : c.IsOf r name o v) (h' : c.IsOf r name o' v') : o = o' ∧ v = v' := by
  cases h with
  | object hfind hc =>
    cases h' with
    | object hfind' hc' =>
      obtain rfl := NamedType.object.inj (Option.some.inj (hfind.symm.trans hfind'))
      exact ⟨rfl, Completed.node.inj (hc.symm.trans hc')⟩
    | interface i' hfind' ho' hi' hc' => cases hfind.symm.trans hfind'
  | interface i hfind ho hi hc =>
    cases h' with
    | object hfind' hc' => cases hfind.symm.trans hfind'
    | interface i' hfind' ho' hi' hc' =>
      obtain ⟨hname, hv⟩ := Completed.tagged.inj (hc.symm.trans hc')
      rw [hname, ho'] at ho
      exact ⟨(Option.some.inj ho).symm, hv⟩

theorem not_isOf_null {r : Registry σ ν} {name : String} {o : ObjectType σ ν} {v : ν} :
    ¬ (null : Completed ν).IsOf r name o v := by
  rintro (⟨_, hc⟩ | ⟨_, _, _, _, hc⟩) <;> cases hc

theorem not_isOf_leaf {r : Registry σ ν} {name : String} {value : Value} {o : ObjectType σ ν}
    {v : ν} : ¬ (leaf value).IsOf r name o v := by
  rintro (⟨_, hc⟩ | ⟨_, _, _, _, hc⟩) <;> cases hc

variable [Node ν]

/-- Whether a completed result that is not null is one of the type with a name. -/
def FitsNamed (r : Registry σ ν) (d : Demand ν) (name : String) (c : Completed ν) : Prop :=
  match r.find? name, c with
  | some (.scalar _), .leaf v => v.isNull = false ∧ d.leaf name v
  | some (.enum e), .leaf v => ∃ value, v = .enum value ∧ e.contains value
  | some (.object o), .node v => Node.typeName v = some o.name ∧ d.node o.name v
  | some (.interface i), .tagged tag v =>
    Node.typeName v = some tag ∧ r.IsTagOf i.name tag ∧ d.node tag v
  | _, _ => False

/-- Whether a completed result is one of a type. -/
def Fits (r : Registry σ ν) (d : Demand ν) : TypeRef → Completed ν → Prop
  | .nonNull inner, c => c ≠ .null ∧ Fits r d inner c
  | .list item, c => c = .null ∨ ∃ items, c = .list items ∧ ∀ i ∈ items, Fits r d item i
  | .named name, c => c = .null ∨ FitsNamed r d name c

variable {r : Registry σ ν} {d : Demand ν}

theorem Fits.of_mem {item : TypeRef} {items : List (Completed ν)}
    (h : (list items).Fits r d (.list item)) {c : Completed ν} (hc : c ∈ items) :
    c.Fits r d item := by
  rcases h with hnull | ⟨items', heq, hall⟩
  · cases hnull
  · cases heq
    exact hall c hc

/-- A value that is tagged for an interface is tagged with an object that its values can be. -/
theorem exists_possible_of_fits {name tag : String} {i : InterfaceType} {v : ν}
    (hfind : r.find? name = some (.interface i))
    (h : tagged tag v = .null ∨ (tagged tag v).FitsNamed r d name) :
    ∃ o, r.object? tag = some o ∧ r.Possible name o := by
  rcases h with hnull | h
  · cases hnull
  simp only [FitsNamed, hfind] at h
  obtain ⟨-, ⟨o, ho, hisA⟩, -⟩ := h
  have hname : o.name = tag := (Registry.mem_of_object? ho).2
  exact ⟨o, ho, .interface i hfind (hname.symm ▸ ho) hisA⟩

end Completed

namespace Registry

variable [Node ν]

/-- What completion gives for a result that is not null where the type with a name is expected. -/
inductive CompletesNamed (r : Registry σ ν) (name : String) : FieldValue ν → Completed ν → Prop
  | leaf {t : ScalarType} (hfind : r.find? name = some (.scalar t)) (value : Value) :
    CompletesNamed r name (.leaf value) (.leaf value)
  | member {e : EnumType} (hfind : r.find? name = some (.enum e)) {value : Value} {member : String}
    (hname : value.name? = some member) (hmember : e.contains member) :
    CompletesNamed r name (.leaf value) (.leaf (.enum member))
  | node {o : ObjectType σ ν} (hfind : r.find? name = some (.object o)) {v : ν}
    (htype : Node.typeName v = some o.name) : CompletesNamed r name (.node v) (.node v)
  | tagged {i : InterfaceType} (hfind : r.find? name = some (.interface i)) {v : ν} {tag : String}
    (htype : Node.typeName v = some tag) (htag : r.IsTagOf i.name tag) :
    CompletesNamed r name (.node v) (.tagged tag v)

theorem completesNamed_of_completeNamed {r : Registry σ ν} {name : String} {result : FieldValue ν}
    {c : Completed ν} (h : r.completeNamed name result = .ok c) :
    CompletesNamed r name result c := by
  unfold completeNamed at h
  split at h
  · rename_i hfind
    exact Except.ok.inj h ▸ .leaf hfind _
  · rename_i hfind
    split at h
    · rename_i hname
      split at h
      · rename_i hmember
        exact Except.ok.inj h ▸ .member hfind hname hmember
      · cases h
    · cases h
  · rename_i hfind
    split at h
    · rename_i htype
      exact Except.ok.inj h ▸ .node hfind htype
    · cases h
  · rename_i hfind
    split at h
    · rename_i hobject
      obtain ⟨htype, htag⟩ := isTagOf_of_concreteType hobject
      exact Except.ok.inj h ▸ .tagged hfind htype htag
    · cases h
  · cases h

theorem fitsNamed_of_completeNamed {r : Registry σ ν} {name : String} {result : FieldValue ν}
    {c : Completed ν} (hnull : result.isNull = false) (h : r.completeNamed name result = .ok c) :
    c.FitsNamed r .nothing name ∧ c ≠ .null := by
  cases completesNamed_of_completeNamed h with
  | leaf hfind value =>
    rw [FieldValue.isNull] at hnull
    simpa [Completed.FitsNamed, hfind, Demand.nothing] using hnull
  | member hfind _ hmember => simpa [Completed.FitsNamed, hfind] using hmember
  | node hfind htype => simpa [Completed.FitsNamed, hfind, Demand.nothing] using htype
  | tagged hfind htype htag =>
    simpa [Completed.FitsNamed, hfind, Demand.nothing] using ⟨htype, htag⟩

/-! ### Completion at each form of a type -/

section Steps

variable {r : Registry σ ν} {inner item : TypeRef} {name : String} {result : FieldValue ν}
  {c : Option (Completed ν)} {e : FieldError}

theorem complete_of_isNull (hitem : item.isNonNull = false) (hnull : result.isNull) :
    r.complete item result = .ok none := by
  cases item with
  | nonNull inner => cases hitem
  | list item => unfold complete; rw [if_pos hnull]
  | named name => rw [complete, if_pos hnull]

theorem complete_nonNull (hnull : result.isNull = false) :
    r.complete (.nonNull inner) result = r.complete inner result :=
  if_neg (by simp [hnull])

theorem complete_nonNull_eq_ok_iff : r.complete (.nonNull inner) result = .ok c ↔
    result.isNull = false ∧ r.complete inner result = .ok c := by
  rw [complete]
  split
  · rename_i hnull
    exact ⟨nofun, fun h => absurd hnull (by simp [h.1])⟩
  · rename_i hnull
    rw [Bool.not_eq_true] at hnull
    rw [and_iff_right hnull]

theorem complete_nonNull_eq_error_iff : r.complete (.nonNull inner) result = .error e ↔
    result.isNull ∧ e = .nullValue (TypeRef.nonNull inner).text ∨
      result.isNull = false ∧ r.complete inner result = .error e := by
  rw [complete]
  split
  · rename_i hnull
    simp [hnull, eq_comm (a := e)]
  · rename_i hnull
    simp [hnull]

theorem complete_list (items : List (FieldValue ν)) : r.complete (.list item) (.list items) =
    (items.mapM fun i => (r.complete item i).map fun c => c.getD .null).map
      fun cs => some (.list cs) := by
  conv_lhs => unfold complete
  rw [if_neg (by simp [FieldValue.isNull])]
  simp only [bind_pure_comp]
  rfl

theorem complete_list_of_ne (hnull : result.isNull = false) (h : ∀ items, result ≠ .list items) :
    r.complete (.list item) result =
      .error (.typeMismatch (TypeRef.list item).text result.kind) := by
  unfold complete
  rw [if_neg (by simp [hnull])]
  cases result with
  | list items => exact absurd rfl (h items)
  | _ => rfl

/-- What is a list has its items completed, anything else but null fails. -/
theorem complete_list_cases (r : Registry σ ν) (item : TypeRef) (result : FieldValue ν) :
    (result.isNull ∧ r.complete (.list item) result = .ok none) ∨
      (∃ items, result = .list items) ∨
      result.isNull = false ∧ (∀ items, result ≠ .list items) ∧
        r.complete (.list item) result =
          .error (.typeMismatch (TypeRef.list item).text result.kind) := by
  cases hnull : result.isNull with
  | true => exact .inl ⟨rfl, complete_of_isNull rfl hnull⟩
  | false =>
    refine .inr (or_iff_not_imp_left.2 fun hlist => ?_)
    have hne := not_exists.1 hlist
    exact ⟨rfl, hne, complete_list_of_ne hnull hne⟩

theorem complete_list_eq_ok_iff : r.complete (.list item) result = .ok c ↔
    result.isNull ∧ c = none ∨ ∃ items cs, result = .list items ∧ c = some (.list cs) ∧
      List.Forall₂ (fun i c => ∃ c', r.complete item i = .ok c' ∧ c'.getD .null = c) items cs := by
  rcases complete_list_cases r item result with ⟨hnull, h⟩ | ⟨items, rfl⟩ | ⟨hnull, hne, h⟩
  · rw [h, Except.ok.injEq, eq_comm]
    refine ⟨fun h => .inl ⟨hnull, h⟩, ?_⟩
    rintro (⟨-, h⟩ | ⟨items, cs, rfl, -⟩)
    · exact h
    · cases hnull
  · rw [complete_list, map_eq_ok_iff]
    simp only [mapM_eq_ok_iff, map_eq_ok_iff]
    constructor
    · rintro ⟨cs, hcs, rfl⟩
      exact .inr ⟨items, cs, rfl, rfl, hcs⟩
    · rintro (⟨hnull, -⟩ | ⟨_, cs, heq, rfl, hcs⟩)
      · cases hnull
      · obtain rfl := FieldValue.list.inj heq
        exact ⟨cs, hcs, rfl⟩
  · rw [h]
    refine ⟨nofun, ?_⟩
    rintro (⟨hnull', -⟩ | ⟨items, cs, heq, -⟩)
    · exact absurd hnull' (by simp [hnull])
    · exact absurd heq (hne items)

/-- Completion of a list fails at its first item that does not complete. -/
theorem complete_list_eq_error_iff : r.complete (.list item) result = .error e ↔
    (∃ before i after, result = .list (before ++ i :: after) ∧
      (∀ b ∈ before, ∃ c, r.complete item b = .ok c) ∧ r.complete item i = .error e) ∨
    result.isNull = false ∧ (∀ items, result ≠ .list items) ∧
      e = .typeMismatch (TypeRef.list item).text result.kind := by
  rcases complete_list_cases r item result with ⟨hnull, h⟩ | ⟨items, rfl⟩ | ⟨hnull, hne, h⟩
  · rw [h]
    refine ⟨nofun, ?_⟩
    rintro (⟨before, i, after, rfl, -⟩ | ⟨hnull', -⟩)
    · cases hnull
    · exact absurd hnull (by simp [hnull'])
  · rw [complete_list, map_eq_error_iff, mapM_eq_error_iff]
    have hmap (i : FieldValue ν) : (∃ c, (r.complete item i).map (fun c => c.getD .null) = .ok c) ↔
        ∃ c, r.complete item i = .ok c := by
      cases r.complete item i <;> simp [Except.map]
    simp only [map_eq_error_iff, hmap, FieldValue.list.injEq]
    refine ⟨.inl, ?_⟩
    rintro (h | ⟨-, hne, -⟩)
    · exact h
    · exact absurd rfl (hne items)
  · rw [h, Except.error.injEq, eq_comm]
    refine ⟨fun h => .inr ⟨hnull, hne, h⟩, ?_⟩
    rintro (⟨before, i, after, heq, -⟩ | ⟨-, -, h⟩)
    · exact absurd heq (hne _)
    · exact h

theorem complete_named_eq_map (hnull : result.isNull = false) :
    r.complete (.named name) result = (r.completeNamed name result).map some := by
  rw [complete, if_neg (by simp [hnull])]
  rfl

theorem complete_named {c : Completed ν} (hnull : result.isNull = false)
    (h : r.completeNamed name result = .ok c) : r.complete (.named name) result = .ok (some c) := by
  rw [complete_named_eq_map hnull, h]
  rfl

theorem complete_named_eq_ok_iff : r.complete (.named name) result = .ok c ↔
    result.isNull ∧ c = none ∨
      result.isNull = false ∧ ∃ c', r.completeNamed name result = .ok c' ∧ some c' = c := by
  cases hnull : result.isNull with
  | true =>
    have hcomplete : r.complete (.named name) result = .ok none := complete_of_isNull rfl hnull
    simp [hcomplete, eq_comm]
  | false => simp [complete_named_eq_map hnull, map_eq_ok_iff]

theorem complete_named_eq_error_iff : r.complete (.named name) result = .error e ↔
    result.isNull = false ∧ r.completeNamed name result = .error e := by
  cases hnull : result.isNull with
  | true =>
    have hcomplete : r.complete (.named name) result = .ok none := complete_of_isNull rfl hnull
    simp [hcomplete]
  | false => simp [complete_named_eq_map hnull, map_eq_error_iff]

end Steps

/-- Completion gives results of the type, and null only where the type has it. -/
theorem fits_of_complete {r : Registry σ ν} {type : TypeRef} {result : FieldValue ν}
    {c : Option (Completed ν)} (h : r.complete type result = .ok c) :
    (c.getD .null).Fits r .nothing type ∧ (c = none ↔ result.isNull) ∧ c ≠ some .null := by
  induction type generalizing result c with
  | nonNull inner ih =>
    obtain ⟨hnull, h⟩ := complete_nonNull_eq_ok_iff.1 h
    obtain ⟨fits, hiff, hne⟩ := ih h
    refine ⟨⟨?_, fits⟩, hiff, hne⟩
    cases c with
    | none => simp [hnull] at hiff
    | some c => simpa using hne
  | list item ih =>
    rcases complete_list_eq_ok_iff.1 h with ⟨hnull, rfl⟩ | ⟨items, cs, rfl, rfl, hcs⟩
    · exact ⟨.inl rfl, by simp [hnull], by simp⟩
    · refine ⟨.inr ⟨cs, rfl, ?_⟩, by simp [FieldValue.isNull], by simp⟩
      refine forall_of_forall₂ hcs fun i c hc => ?_
      obtain ⟨c', hi, rfl⟩ := hc
      exact (ih hi).1
  | named name =>
    rcases complete_named_eq_ok_iff.1 h with ⟨hnull, rfl⟩ | ⟨hnull, c, hc, rfl⟩
    · exact ⟨.inl rfl, by simp [hnull], by simp⟩
    · obtain ⟨fits, hne⟩ := fitsNamed_of_completeNamed hnull hc
      exact ⟨.inr fits, by simp [hnull], by simpa using hne⟩

/-! ### Results of given forms -/

section Forms

variable {r : Registry σ ν} {name : String}

theorem completeNamed_leaf {t : ScalarType} (hfind : r.find? name = some (.scalar t))
    (value : Value) : r.completeNamed name (.leaf value) = .ok (.leaf value) := by
  unfold completeNamed
  rw [hfind]

theorem completeNamed_member {e : EnumType} {value : Value} {member : String}
    (hfind : r.find? name = some (.enum e)) (hname : value.name? = some member)
    (hmember : e.contains member) :
    r.completeNamed name (.leaf value) = .ok (.leaf (.enum member)) := by
  unfold completeNamed
  rw [hfind]
  simp only [hname, hmember, if_true]

theorem completeNamed_node {o : ObjectType σ ν} {v : ν} (hfind : r.find? name = some (.object o))
    (htype : Node.typeName v = some o.name) : r.completeNamed name (.node v) = .ok (.node v) := by
  unfold completeNamed
  rw [hfind]
  simp only [htype, if_true]

theorem completeNamed_tagged {i : InterfaceType} {o : ObjectType σ ν} {v : ν}
    (hfind : r.find? name = some (.interface i)) (htype : Node.typeName v = some o.name)
    (ho : r.object? o.name = some o) (hisA : o.isA i.name) :
    r.completeNamed name (.node v) = .ok (.tagged o.name v) := by
  have hconcrete : r.concreteType i.name v = .ok o := by
    simp only [concreteType, htype, Option.bind_some, ho, hisA, if_true]
  unfold completeNamed
  rw [hfind]
  simp only [hconcrete]

end Forms

theorem completeNamed_of_proper {r : Registry σ ν} {d : Demand ν} {name : String}
    {result : FieldValue ν} (hnull : result.isNull = false) (h : result.ProperNamed r d name) :
    ∃ c, r.completeNamed name result = .ok c ∧ c.FitsNamed r d name := by
  unfold FieldValue.ProperNamed at h
  split at h
  · rename_i hfind
    refine ⟨_, completeNamed_leaf hfind _, ?_⟩
    simpa [Completed.FitsNamed, hfind] using ⟨hnull, h⟩
  · rename_i e v hfind
    obtain ⟨value, hname, hmem⟩ := h
    refine ⟨_, completeNamed_member hfind hname hmem, ?_⟩
    simpa [Completed.FitsNamed, hfind] using hmem
  · rename_i o v hfind
    refine ⟨_, completeNamed_node hfind h.1, ?_⟩
    simpa [Completed.FitsNamed, hfind] using h
  · rename_i i v hfind
    obtain ⟨tag, htag, ⟨o, ho, hisA⟩, hnode⟩ := h
    obtain rfl : o.name = tag := (mem_of_object? ho).2
    refine ⟨_, completeNamed_tagged hfind htag ho hisA, ?_⟩
    simp only [Completed.FitsNamed, hfind]
    exact ⟨htag, ⟨o, ho, hisA⟩, hnode⟩
  · exact h.elim

/-- Completion gives something for every result of the form that the type asks for. -/
theorem complete_of_proper {r : Registry σ ν} {d : Demand ν} {type : TypeRef}
    {result : FieldValue ν} (h : result.Proper r d type) :
    ∃ c, r.complete type result = .ok c ∧ (c.getD .null).Fits r d type := by
  induction type generalizing result with
  | nonNull inner ih =>
    obtain ⟨c, hc, hfits⟩ := ih h.2
    obtain ⟨-, hnone, hne⟩ := fits_of_complete hc
    refine ⟨c, (complete_nonNull h.1).trans hc, ?_, hfits⟩
    cases c with
    | none => simp [h.1] at hnone
    | some c => simpa using hne
  | list item ih =>
    rcases h with hnull | ⟨items, rfl, hall⟩
    · exact ⟨none, complete_of_isNull rfl hnull, .inl rfl⟩
    · have hitem : ∀ i ∈ items, ∃ c,
          ((r.complete item i).map fun c => c.getD .null) = .ok c ∧ c.Fits r d item := by
        intro i hi
        obtain ⟨c, hc, hfits⟩ := ih (hall i hi)
        exact ⟨c.getD .null, by rw [hc]; rfl, hfits⟩
      obtain ⟨cs, hcs, hfits⟩ := exists_mapM_eq_ok hitem
      exact ⟨some (.list cs), by rw [complete_list, hcs]; rfl, .inr ⟨cs, rfl, hfits⟩⟩
  | named name =>
    cases hnull : result.isNull with
    | true => exact ⟨none, complete_of_isNull rfl hnull, .inl rfl⟩
    | false =>
      have hproper := h.resolve_left (by simp [hnull])
      obtain ⟨c, hc, hfits⟩ := completeNamed_of_proper hnull hproper
      exact ⟨some c, complete_named hnull hc, .inr hfits⟩

variable {r : Registry σ ν} {name : String}

theorem complete_leaf {t : ScalarType} {value : Value} (hfind : r.find? name = some (.scalar t))
    (hnull : value.isNull = false) :
    r.complete (.named name) (.leaf value) = .ok (some (.leaf value)) :=
  complete_named hnull (completeNamed_leaf hfind value)

theorem complete_member {e : EnumType} {value : Value} {member : String}
    (hfind : r.find? name = some (.enum e)) (hname : value.name? = some member)
    (hmember : e.contains member) (hnull : value.isNull = false) :
    r.complete (.named name) (.leaf value) = .ok (some (.leaf (.enum member))) :=
  complete_named hnull (completeNamed_member hfind hname hmember)

theorem complete_node {o : ObjectType σ ν} {v : ν} (hfind : r.find? name = some (.object o))
    (htype : Node.typeName v = some o.name) :
    r.complete (.named name) (.node v) = .ok (some (.node v)) :=
  complete_named rfl (completeNamed_node hfind htype)

theorem complete_tagged {i : InterfaceType} {o : ObjectType σ ν} {v : ν}
    (hfind : r.find? name = some (.interface i)) (htype : Node.typeName v = some o.name)
    (ho : r.object? o.name = some o) (hisA : o.isA i.name) :
    r.complete (.named name) (.node v) = .ok (some (.tagged o.name v)) :=
  complete_named rfl (completeNamed_tagged hfind htype ho hisA)

/-- A list of values is completed one by one. -/
theorem complete_nodes {α : Type} {as : List α} {node : α → ν} {c : α → Completed ν}
    (h : ∀ a ∈ as, r.complete (.named name) (.node (node a)) = .ok (some (c a))) :
    r.complete (.nonNullListNonNull name) (.nodes (as.map node)) =
      .ok (some (.list (as.map c))) := by
  have hlist : r.complete (.list (.namedNonNull name)) (.nodes (as.map node)) =
      .ok (some (.list (as.map c))) := by
    refine complete_list_eq_ok_iff.2 (.inr ⟨_, _, rfl, rfl, ?_⟩)
    rw [List.map_map, List.forall₂_map_left_iff, List.forall₂_map_right_iff, List.forall₂_same]
    exact fun a ha => ⟨some (c a), (complete_nonNull rfl).trans (h a ha), rfl⟩
  exact (complete_nonNull rfl).trans hlist

end Registry

end Gazette
