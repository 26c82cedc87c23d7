import Gazette.Proofs.Request.Reading
import Gazette.Service.Routes

/-!
# What can change the store

The objects of the blog's schema, with those of introspection, other than the mutation root only
read (`Blog.readOnly`): their resolvers leave the store as it is, and no field leads to the mutation
root.
-/

namespace Gazette.Blog

/-- The objects that requests can meet, other than the mutation root. -/
def IsReader (o : ObjectType Store (Subject BlogNode)) : Prop :=
  Service.schema.executable.object? o.name = some o ∧ o.name ≠ mutationType

theorem reads_of_attribute {f : BlogField} (h : f.resolver = none) : f.Reads := by
  intro resolve hresolve
  rw [h] at hresolve
  cases hresolve

theorem reads_of_reading {f : BlogField}
    {read : BlogNode → BoundArguments → Store → Except FieldError (FieldValue BlogNode)}
    (h : f.resolver = some (reading read)) : f.Reads := by
  intro resolve hresolve parent arguments s
  rw [h] at hresolve
  obtain rfl := Option.some.inj hresolve
  rfl

/-- The objects of the blog. -/
theorem mem_types_iff {o : ObjectType Store BlogNode} : .object o ∈ registry.types ↔
    o = author ∨ o = comment ∨ o = post ∨ o = queryRoot ∨ o = mutationRoot := by
  simp only [registry, Registry.withMutation, Registry.empty, Registry.builtinScalars, types,
    List.mem_append, List.map_cons, List.map_nil, List.mem_cons, NamedType.object.injEq,
    reduceCtorEq, List.not_mem_nil, or_false, false_or]

/-- No resolver outside the mutation root changes the store. -/
theorem fields_read {o : ObjectType Store BlogNode} (ho : .object o ∈ registry.types)
    (hname : o.name ≠ mutationType) : ∀ f ∈ o.fields, f.Reads := by
  rcases mem_types_iff.1 ho with rfl | rfl | rfl | rfl | rfl
  · simp only [author, List.forall_mem_cons, List.not_mem_nil, false_imp_iff, implies_true,
      and_true]
    exact ⟨reads_of_attribute rfl, reads_of_attribute rfl, reads_of_attribute rfl⟩
  · simp only [comment, List.forall_mem_cons, List.not_mem_nil, false_imp_iff, implies_true,
      and_true]
    exact ⟨reads_of_attribute rfl, reads_of_attribute rfl, reads_of_reading rfl,
      reads_of_attribute rfl, reads_of_reading rfl⟩
  · simp only [post, List.forall_mem_cons, List.not_mem_nil, false_imp_iff, implies_true, and_true]
    exact ⟨reads_of_attribute rfl, reads_of_attribute rfl, reads_of_attribute rfl,
      reads_of_attribute rfl, reads_of_attribute rfl, reads_of_reading rfl, reads_of_reading rfl,
      reads_of_reading rfl⟩
  · simp only [queryRoot, List.forall_mem_cons, List.not_mem_nil, false_imp_iff, implies_true,
      and_true]
    exact ⟨reads_of_reading rfl, reads_of_reading rfl, reads_of_reading rfl, reads_of_reading rfl,
      reads_of_reading rfl, reads_of_reading rfl, reads_of_reading rfl⟩
  · exact absurd rfl hname

theorem IsReader.reads {o : ObjectType Store (Subject BlogNode)} (h : IsReader o) :
    ∀ f ∈ o.fields, f.Reads := by
  obtain ⟨ho, hname⟩ := h
  rcases Registry.mem_withIntrospection (Registry.mem_of_object? ho).1 with ⟨b, hb, rfl⟩ | hmem
  · intro f hf
    rcases List.mem_append.1 hf with hf | hf
    · obtain ⟨g, hg, rfl⟩ := List.mem_map.1 hf
      exact Registry.liftField_reads (fields_read hb hname g hg)
    · split at hf
      · exact Introspection.rootFields_read _ f hf
      · cases hf
  · exact Introspection.types_read _ hmem

/-- No field is declared with the type of the mutation root. -/
theorem baseName_ne_mutationType {o : ObjectType Store (Subject BlogNode)}
    (h : .object o ∈ Service.schema.executable.types) {f : Field Store (Subject BlogNode)}
    (hf : f ∈ o.fields) : f.type.baseName ≠ mutationType := by
  have all : ∀ o ∈ Outline.ofRegistry Service.schema.executable, ∀ f ∈ o.fields,
      f.type.baseName ≠ mutationType := by decide +kernel
  exact all _ (List.mem_map.2 ⟨_, h, rfl⟩) _ (List.mem_map.2 ⟨f, hf, rfl⟩)

theorem implements_eq_nil {o : ObjectType Store (Subject BlogNode)}
    (h : .object o ∈ Service.schema.executable.types) (hname : o.name = mutationType) :
    o.implements = [] := by
  have all : ∀ o ∈ Outline.ofRegistry Service.schema.executable, o.name = mutationType →
      o.implements = [] := by decide +kernel
  exact all _ (List.mem_map.2 ⟨_, h, rfl⟩) hname

/-- No field leads to the mutation root. -/
theorem isReader_of_possible {o o' : ObjectType Store (Subject BlogNode)}
    (h : .object o ∈ Service.schema.executable.types) {f : Field Store (Subject BlogNode)}
    (hf : f ∈ o.fields) (ho' : Service.schema.executable.Possible f.type.baseName o') :
    IsReader o' := by
  refine ⟨ho'.object?_eq, fun hname => ?_⟩
  have hmem : .object o' ∈ Service.schema.executable.types :=
    (Registry.mem_of_object? ho'.object?_eq).1
  cases ho' with
  | object hfind =>
    have hbase : o'.name = f.type.baseName := (Registry.name_of_find? hfind).2
    exact baseName_ne_mutationType h hf (hbase.symm.trans hname)
  | interface i hfind ho' hisA => simp [ObjectType.isA, implements_eq_nil hmem hname] at hisA

/-- Everything but the mutation root only reads the store. -/
theorem readOnly : Service.schema.executable.ReadOnly IsReader where
  registered _ ho := ho.1
  reads _ ho := ho.reads
  leads _ ho _ hf _ ho' := isReader_of_possible (Registry.mem_of_object? ho.1).1 hf ho'

end Gazette.Blog
