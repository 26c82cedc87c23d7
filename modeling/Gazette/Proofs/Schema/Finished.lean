import Gazette.Proofs.Request.Introspection
import Gazette.Proofs.Request.Mirroring
import Gazette.Proofs.Schema.WellFormed
import Gazette.Schema

/-!
# Finished registries

A registry is finished if calls have built it and its check accepts it.  What a schema runs on is
such a registry with introspection; this file says what look-ups find there: the types of the
registry (`find?_withIntrospection`), a type for every name that a field refers to (`IsClosed`), and
the objects of interfaces (`concreteType_withIntrospection`).
-/

namespace Gazette

variable {σ ν : Type}

namespace Registry

/-- A registry that calls have built and that the check accepts. -/
structure IsFinished (r : Registry σ ν) : Prop where
  built : ∃ query calls, r = (empty query).performAll calls
  checked : r.check = .ok ()

theorem IsFinished.isRegular {r : Registry σ ν} (h : r.IsFinished) : r.IsRegular := by
  obtain ⟨query, calls, rfl⟩ := h.built
  exact (isRegular_empty query).performAll calls

theorem IsFinished.isWellFormed {r : Registry σ ν} (h : r.IsFinished) : r.IsWellFormed :=
  (check_eq_ok_iff h.isRegular).1 h.checked

/-! ## Look-ups with introspection -/

/-- An object with the root fields of introspection if it is the query root, on subjects. -/
def lifted (r : Registry σ ν) (root : ν) (o : ObjectType σ ν) : ObjectType σ (Subject ν) where
  name := o.name
  description := o.description
  implements := o.implements
  fields := o.fields.map (liftField root) ++
    if o.name = r.query then Introspection.rootFields r.knowledge else []

/-- A type as the registry with introspection has it. -/
def liftedType (r : Registry σ ν) (root : ν) : NamedType σ ν → NamedType σ (Subject ν) :=
  liftType root r.query (Introspection.rootFields r.knowledge)

theorem name_liftedType (r : Registry σ ν) (root : ν) (t : NamedType σ ν) :
    (r.liftedType root t).name = t.name := by cases t <;> rfl

variable {r : Registry σ ν} {root : ν} {name : String} {o : ObjectType σ ν}

theorem find?_withIntrospection (r : Registry σ ν) (root : ν) (name : String) :
    (r.withIntrospection root).find? name = ((r.find? name).map (r.liftedType root)).or
      ((Introspection.types r.knowledge).find? fun t => t.name = name) := by
  have hcomp : (fun t : NamedType σ (Subject ν) => decide (t.name = name)) ∘ r.liftedType root =
      fun t : NamedType σ ν => decide (t.name = name) := by
    funext t
    rw [Function.comp_apply, name_liftedType]
  rw [find?, withIntrospection, List.find?_append]
  show Option.or (List.find? _ (r.types.map (r.liftedType root))) _ = _
  rw [List.find?_map, hcomp]
  rfl

theorem find?_withIntrospection_of_some {t : NamedType σ ν} (h : r.find? name = some t) (root : ν) :
    (r.withIntrospection root).find? name = some (r.liftedType root t) := by
  rw [find?_withIntrospection, h]
  rfl

theorem object?_withIntrospection_of_some (h : r.object? name = some o) (root : ν) :
    (r.withIntrospection root).object? name = some (r.lifted root o) :=
  object?_eq_some_iff.2 (find?_withIntrospection_of_some (object?_eq_some_iff.1 h) root)

/-- An object of a registry with introspection is one of the registry, or one of introspection. -/
theorem exists_of_object?_withIntrospection {O : ObjectType σ (Subject ν)}
    (h : (r.withIntrospection root).object? name = some O) :
    (∃ o, r.object? name = some o ∧ O = r.lifted root o) ∨
      (r.find? name = none ∧ .object O ∈ Introspection.types r.knowledge) := by
  rw [object?_eq_some_iff, find?_withIntrospection] at h
  cases hfind : r.find? name with
  | none =>
    rw [hfind, Option.map_none, Option.none_or] at h
    exact .inr ⟨rfl, List.mem_of_find?_eq_some h⟩
  | some t =>
    rw [hfind, Option.map_some, Option.some_or] at h
    cases t with
    | object o => exact .inl ⟨o, object?_eq_some_iff.2 hfind,
        (NamedType.object.inj (Option.some.inj h)).symm⟩
    | _ => exact nomatch h

theorem field?_lifted (r : Registry σ ν) (root : ν) (o : ObjectType σ ν) (name : String) :
    (r.lifted root o).field? name = ((o.field? name).map (liftField root)).or
      ((if o.name = r.query then Introspection.rootFields r.knowledge else []).find?
        fun f => f.name = name) := by
  have hcomp : (fun f : Field σ (Subject ν) => decide (f.name = name)) ∘ liftField root =
      fun f : Field σ ν => decide (f.name = name) := rfl
  rw [ObjectType.field?, lifted, List.find?_append, List.find?_map, hcomp]
  rfl

theorem field?_lifted_of_some {f : Field σ ν} (h : o.field? name = some f) (r : Registry σ ν)
    (root : ν) : (r.lifted root o).field? name = some (liftField root f) := by
  rw [field?_lifted, h]
  rfl

/-! ## The types of introspection -/

theorem implements_of_mem_types {k : Introspection.Knowledge} {O : ObjectType σ (Subject ν)}
    (h : .object O ∈ Introspection.types k) : O.implements = [] := by
  simp only [Introspection.types, List.mem_cons, NamedType.object.injEq, reduceCtorEq,
    List.not_mem_nil, or_false] at h
  rcases h with rfl | rfl | rfl | rfl | rfl | rfl <;> rfl

theorem arguments_of_mem_types {k : Introspection.Knowledge} {O : ObjectType σ (Subject ν)}
    (h : .object O ∈ Introspection.types k) :
    ∀ f ∈ O.fields, ∀ spec ∈ f.arguments, spec.type.baseName = builtin.boolean := by
  simp only [Introspection.types, List.mem_cons, NamedType.object.injEq, reduceCtorEq,
    List.not_mem_nil, or_false] at h
  rcases h with rfl | rfl | rfl | rfl | rfl | rfl
  all_goals
    simp [Introspection.partField, Introspection.includeDeprecated, TypeRef.namedNonNull,
      TypeRef.required, TypeRef.baseName]

/-- The fields by which the query root leads to the schema. -/
theorem rootFields_refer {k : Introspection.Knowledge} :
    ∀ f ∈ Introspection.rootFields (σ := σ) (ν := ν) k, f.role = .gateway ∧
      f.type.baseName ∈ ["__Schema", "__Type"] ∧
      ∀ spec ∈ f.arguments, spec.type.baseName = builtin.string := by
  simp [Introspection.rootFields, TypeRef.namedNonNull, TypeRef.required, TypeRef.baseName]

/-- An ordinary field where introspection has been added is one of the registry. -/
theorem exists_of_ordinary {O : ObjectType σ (Subject ν)}
    (hO : (r.withIntrospection root).object? O.name = some O) {F : Field σ (Subject ν)}
    (hF : F ∈ O.fields) (hrole : F.role = .ordinary) :
    ∃ o f, .object o ∈ r.types ∧ f ∈ o.fields ∧ O = r.lifted root o ∧ F = liftField root f := by
  rcases exists_of_object?_withIntrospection hO with ⟨o, ho, rfl⟩ | ⟨-, hmem⟩
  · rcases List.mem_append.1 hF with hF | hF
    · obtain ⟨f, hf, rfl⟩ := List.mem_map.1 hF
      exact ⟨o, f, (mem_of_object? ho).1, hf, rfl, rfl⟩
    · split at hF
      · rw [(rootFields_refer F hF).1] at hrole
        cases hrole
      · cases hF
  · rw [(Introspection.introspective_of_mem hmem F hF).1] at hrole
    cases hrole

theorem exists_find?_of_mem_names (r : Registry σ ν) (root : ν)
    (h : name ∈ (Introspection.types (σ := σ) (ν := ν) r.knowledge).map NamedType.name) :
    ∃ t, (r.withIntrospection root).find? name = some t := by
  rw [← Option.isSome_iff_exists, isSome_find?_iff, names, withIntrospection, List.map_append]
  exact List.mem_append_right _ h

/-- Each built-in scalar is found under its name. -/
theorem IsRegular.find?_builtin (h : r.IsRegular) (root : ν) {t : ScalarType}
    (ht : t ∈ builtinScalars) : (r.withIntrospection root).find? t.name = some (.scalar t) :=
  find?_withIntrospection_of_some (h.find?_of_mem (t := .scalar t) (h.builtins t ht)) root

theorem IsRegular.exists_find?_string (h : r.IsRegular) (root : ν) :
    ∃ t, (r.withIntrospection root).find? builtin.string = some (.scalar t) :=
  ⟨_, h.find?_builtin root (t := builtinScalars[0]) (List.getElem_mem _)⟩

theorem IsRegular.exists_find?_boolean (h : r.IsRegular) (root : ν) :
    ∃ t, (r.withIntrospection root).find? builtin.boolean = some (.scalar t) :=
  ⟨_, h.find?_builtin root (t := builtinScalars[3]) (List.getElem_mem _)⟩

/-! ## What references find -/

/-- Whether what fields and arguments refer to is registered, and is a leaf type for arguments. -/
structure IsClosed (r : Registry σ ν) : Prop where
  field : ∀ name o, r.object? name = some o → ∀ f ∈ o.fields, ∃ t, r.find? f.type.baseName = some t
  argument : ∀ name o, r.object? name = some o → ∀ f ∈ o.fields, ∀ spec ∈ f.arguments,
    ∃ t, r.find? spec.type.baseName = some t ∧ t.isInput

theorem IsFinished.isClosed (h : r.IsFinished) : r.IsClosed where
  field name o ho f hf := by
    have hname := h.isWellFormed.field o (mem_of_object? ho).1 f hf
    exact Option.isSome_iff_exists.1 (isSome_find?_iff.2 hname)
  argument name o ho f hf spec hspec :=
    (exists_find?_iff h.isRegular).2 (h.isWellFormed.argument o (mem_of_object? ho).1 f hf spec
      hspec)

theorem IsFinished.isClosed_withIntrospection (h : r.IsFinished) (root : ν) :
    (r.withIntrospection root).IsClosed where
  field name O hO f hf := by
    rcases exists_of_object?_withIntrospection hO with ⟨o, ho, rfl⟩ | ⟨-, hmem⟩
    · rcases List.mem_append.1 hf with hf | hf
      · obtain ⟨own, hown, rfl⟩ := List.mem_map.1 hf
        obtain ⟨t, ht⟩ := h.isClosed.field name o ho own hown
        exact ⟨_, find?_withIntrospection_of_some ht root⟩
      · split at hf
        · obtain ⟨-, hbase, -⟩ := rootFields_refer f hf
          refine exists_find?_of_mem_names r root ?_
          rw [Introspection.names_types]
          simp only [List.mem_cons, List.not_mem_nil, or_false] at hbase ⊢
          tauto
        · cases hf
    · have hbase := (Introspection.introspective_of_mem hmem f hf).2
      rcases List.mem_cons.1 hbase with hbase | hbase
      · obtain ⟨t, ht⟩ := h.isRegular.exists_find?_string root
        exact ⟨_, hbase ▸ ht⟩
      · rcases List.mem_cons.1 hbase with hbase | hbase
        · obtain ⟨t, ht⟩ := h.isRegular.exists_find?_boolean root
          exact ⟨_, hbase ▸ ht⟩
        · exact exists_find?_of_mem_names r root hbase
  argument name O hO f hf spec hspec := by
    rcases exists_of_object?_withIntrospection hO with ⟨o, ho, rfl⟩ | ⟨-, hmem⟩
    · rcases List.mem_append.1 hf with hf | hf
      · obtain ⟨own, hown, rfl⟩ := List.mem_map.1 hf
        obtain ⟨t, ht, hinput⟩ := h.isClosed.argument name o ho own hown spec hspec
        exact ⟨_, find?_withIntrospection_of_some ht root, by cases t <;> exact hinput⟩
      · split at hf
        · obtain ⟨t, ht⟩ := h.isRegular.exists_find?_string root
          rw [(rootFields_refer f hf).2.2 spec hspec]
          exact ⟨_, ht, rfl⟩
        · cases hf
    · obtain ⟨t, ht⟩ := h.isRegular.exists_find?_boolean root
      rw [arguments_of_mem_types hmem f hf spec hspec]
      exact ⟨_, ht, rfl⟩

/-! ## Interfaces -/

variable [Node ν]

/-- The object of a value of an interface is looked up among the objects of the registry. -/
theorem concreteType_withIntrospection (r : Registry σ ν) (root : ν) (interface : String)
    (v : Subject ν) : (r.withIntrospection root).concreteType interface v =
      match (Node.typeName v).bind r.object? with
      | some o =>
        if o.isA interface then .ok (r.lifted root o) else .error (.resolutionError interface)
      | none => .error (.resolutionError interface) := by
  unfold concreteType
  cases Node.typeName v with
  | none => rfl
  | some tag =>
    simp only [Option.bind_some]
    cases hobject : (r.withIntrospection root).object? tag with
    | none =>
      cases ho : r.object? tag with
      | none => rfl
      | some o => cases hobject.symm.trans (object?_withIntrospection_of_some ho root)
    | some O =>
      rcases exists_of_object?_withIntrospection hobject with ⟨o, ho, rfl⟩ | ⟨hnone, hmem⟩
      · rw [ho]
        rfl
      · have hnot : r.object? tag = none := by rw [object?, hnone]
        have hisA : O.isA interface = false := by
          rw [ObjectType.isA, implements_of_mem_types hmem]
          rfl
        simp only [hnot, hisA, Bool.false_eq_true, if_false]

end Registry

end Gazette
