import Gazette.Proofs.Blog.Showing
import Gazette.Proofs.Schema.Canonical

/-!
# Answers of the query root

What a field of the query root gives for arguments (`answer`): its arguments are bound, it is
resolved on the root, and its result is completed.  A field that is found and reads no more than its
argument answers as its resolver does (`answer_reading`, `answer_reading_single`).
-/

namespace Gazette

namespace Registry

variable {σ ν : Type} {r : Registry σ ν}

/-- The one argument of a field has the value that it is coerced to. -/
theorem exists_bind_single {field : String} {spec : ArgumentSpec} {value c : Value}
    (h : r.coerce spec.type value = .ok c) :
    ∃ b, r.bind field [spec] [(spec.name, value)] = .ok b ∧ b.get? spec.name = some c := by
  have hlookup : List.lookup spec.name [(spec.name, value)] = some value :=
    List.lookup_cons_self
  have hvalue : r.argumentValue field [(spec.name, value)] spec = .ok (some c) := by
    simp only [argumentValue, hlookup, Option.some_or, h]
  have hnodup : ([spec].map ArgumentSpec.name).Nodup := List.nodup_singleton _
  have hnames : ∀ name ∈ Entries.names [(spec.name, value)], name ∈ [spec].map ArgumentSpec.name :=
    fun name hname => hname
  have hvalues : ∀ other ∈ [spec], ∃ found,
      r.argumentValue field [(spec.name, value)] other = .ok found := by
    intro other hother
    rw [List.mem_singleton.1 hother]
    exact ⟨_, hvalue⟩
  obtain ⟨b, hb, hall⟩ := exists_bind hnodup hnames hvalues
  refine ⟨b, hb, ?_⟩
  exact Except.ok.inj ((hall spec (List.mem_singleton_self _)).symm.trans hvalue)

end Registry

namespace Blog

open Execution

/-- What the field of the query root with a name gives for arguments, and the store after it. -/
def answer (name : String) (arguments : Entries Value) (s : Store) :
    Except FieldError (Option (Completed (Subject BlogNode))) × Store :=
  resolveDeclared executable queryType name (.value .root) arguments s

variable {s : Store} {g : BlogField} {name : String} {arguments : Entries Value}
  {read : BlogNode → BoundArguments → Store → Except FieldError (FieldValue BlogNode)}
  {completed : Option (Completed (Subject BlogNode))}

theorem answer_reading (result : FieldValue BlogNode) {b : BoundArguments}
    (hg : queryRoot.fields.find? (fun f => f.name = name) = some g)
    (hbind : executable.bind g.name g.arguments arguments = .ok b)
    (hresolver : g.resolver = some (reading read)) (hread : read .root b s = .ok result)
    (hcomplete : executable.complete g.type (result.map Subject.value) = .ok completed) :
    answer name arguments s = (.ok completed, s) := by
  have hobject : executable.object? queryType = some (lifted queryRoot) :=
    object?_lifted (o := queryRoot) (by simp [types])
  have hdeclared : executable.field? queryType g.name = some (Registry.liftField .root g) :=
    Registry.field?_of_object hobject (field?_lifted hg)
  have hresult : fieldResult queryType (Registry.liftField .root g) (.value .root) b s =
      (.ok (result.map Subject.value), s) :=
    Registry.fieldResult_liftField (fieldResult_reading hresolver hread queryType)
  have hname : (Registry.liftField BlogNode.root g).name = name :=
    ObjectType.name_of_field? (field?_lifted hg)
  have hlifted : executable.bind (Registry.liftField BlogNode.root g).name
      (Registry.liftField BlogNode.root g).arguments arguments = .ok b := hbind
  rw [answer, ← hname, resolveDeclared_eq hdeclared, resolveField_of_bind hlifted hresult]
  exact congrArg (fun c => (c, s)) hcomplete

/-- A field with one argument, given a value that is canonical for its type. -/
theorem answer_reading_single (result : FieldValue BlogNode) {spec : ArgumentSpec} {value : Value}
    (hg : queryRoot.fields.find? (fun f => f.name = name) = some g)
    (harguments : g.arguments = [spec]) (hvalue : executable.IsCanonical spec.type value)
    (hresolver : g.resolver = some (reading read))
    (hread : ∀ b : BoundArguments, b.get? spec.name = some value → read .root b s = .ok result)
    (hcomplete : executable.complete g.type (result.map Subject.value) = .ok completed) :
    answer name [(spec.name, value)] s = (.ok completed, s) := by
  obtain ⟨b, hbind, hb⟩ : ∃ b, executable.bind g.name [spec] [(spec.name, value)] = .ok b ∧
      b.get? spec.name = some value :=
    Registry.exists_bind_single (Registry.coerce_of_isCanonical hvalue)
  exact answer_reading result hg (harguments ▸ hbind) hresolver (hread b hb) hcomplete

theorem isCanonical_requiredString (text : String) :
    executable.IsCanonical requiredString (.string text) := by
  obtain ⟨t, ht⟩ := installed.string
  refine ⟨Value.noConfusion, .inr ?_⟩
  rw [Registry.IsCanonicalLeaf, ht]
  exact .inl ⟨.inl rfl, text, rfl⟩

theorem isCanonical_requiredInt {i : Int} (hmin : Registry.minInt32 ≤ i)
    (hmax : i ≤ Registry.maxInt32) : executable.IsCanonical requiredInt (.int i) := by
  obtain ⟨t, ht⟩ := exists_find?_int
  refine ⟨Value.noConfusion, .inr ?_⟩
  rw [Registry.IsCanonicalLeaf, ht]
  exact .inr (.inl ⟨rfl, i, rfl, hmin, hmax⟩)

theorem int_of_get? {b : BoundArguments} {i : Int} (h : b.get? name = some (.int i))
    (hmin : Registry.minInt32 ≤ i) (hmax : i ≤ Registry.maxInt32) : b.int name = .ok i := by
  have hwithin : Number.minInt64 ≤ i ∧ i ≤ Number.maxInt64 :=
    ⟨(show Number.minInt64 ≤ Registry.minInt32 by decide).trans hmin,
      hmax.trans (show Registry.maxInt32 ≤ Number.maxInt64 by decide)⟩
  rw [Value.int] at h
  simp only [BoundArguments.int, h, Number.toInt64?, if_pos hwithin]

end Blog

end Gazette
