import Gazette.Proofs.Definition.Reading
import Gazette.Proofs.Schema.Coercion

/-!
# Legible registries

A registry is legible if its names are names of the language, its type references have no mark for
non-null types twice in a row, and the numbers in its defaults are finite
(`Registry.IsLegible`).  What the check of a registry asks for does the rest: references are to
registered types, and defaults coerce, so that they are literals.  So the definition of a legible
registry that is finished is read as its trees (`IsLegible.isPrintable`).
-/

namespace Gazette

open Sdl

variable {σ ν : Type}

/-- Whether the numbers of a value are integers or finite doubles. -/
inductive Value.IsFinite : Value → Prop
  | null : IsFinite .null
  | number {n : Number} (h : n.isFinite) : IsFinite (.number n)
  | string (s : String) : IsFinite (.string s)
  | boolean (b : Bool) : IsFinite (.boolean b)
  | enum (name : String) : IsFinite (.enum name)
  | binary (bytes : List UInt8) : IsFinite (.binary bytes)
  | list {items : List Value} (h : ∀ item ∈ items, IsFinite item) : IsFinite (.list items)
  | object {members : List (String × Value)} (h : ∀ member ∈ members, IsFinite member.2) :
    IsFinite (.object members)

namespace NamedType

/-- Whether a type and its members have names of the language; the three words that are literals of
their own name no values of enums. -/
def HasNames : NamedType σ ν → Prop
  | scalar t => isName t.name.toList
  | enum e => isName e.name.toList ∧
    ∀ value ∈ e.values, isName value.toList ∧ isLiteralWord value = false
  | object o => isName o.name.toList ∧ ∀ f ∈ o.fields, isName f.name.toList ∧
    ∀ spec ∈ f.arguments, isName spec.name.toList
  | interface i => isName i.name.toList ∧ ∀ f ∈ i.fields, isName f.name.toList

/-- Whether the types of fields and arguments are not non-null twice in a row. -/
def HasWritableTypes : NamedType σ ν → Prop
  | scalar _ | enum _ => True
  | object o => ∀ f ∈ o.fields, isWritable f.type ∧ ∀ spec ∈ f.arguments, isWritable spec.type
  | interface i => ∀ f ∈ i.fields, isWritable f.type

/-- Whether the numbers in the defaults of a type are finite. -/
def HasFiniteDefaults : NamedType σ ν → Prop
  | object o => ∀ f ∈ o.fields, ∀ spec ∈ f.arguments, ∀ value ∈ spec.default, value.IsFinite
  | _ => True

theorem HasNames.name {t : NamedType σ ν} (h : t.HasNames) : isName t.name.toList := by
  cases t with
  | scalar t => exact h
  | enum e => exact h.1
  | object o => exact h.1
  | interface i => exact h.1

end NamedType

namespace Registry

/-- Whether the definition of a registry can be read: names, types and defaults have texts that
stand for them. -/
structure IsLegible (r : Registry σ ν) : Prop where
  names : ∀ t ∈ r.declaredTypes, t.HasNames
  types : ∀ t ∈ r.declaredTypes, t.HasWritableTypes
  defaults : ∀ t ∈ r.declaredTypes, t.HasFiniteDefaults

variable {r : Registry σ ν}

theorem mem_declaredTypes_iff {t : NamedType σ ν} :
    t ∈ r.declaredTypes ↔ t ∈ r.types ∧ t.isBuiltinScalar = false := by
  simp [declaredTypes]

theorem isName_of_isBuiltin {name : String} (h : isBuiltin name) : isName name.toList := by
  have hall : ∀ name ∈ builtinScalars.map ScalarType.name, isName name.toList := by decide +kernel
  exact hall name (List.contains_iff_mem.1 h)

namespace IsLegible

/-- The name of a registered type is a name, that of a built-in scalar as well. -/
theorem isName_of_mem_names (h : r.IsLegible) {name : String} (hname : name ∈ r.names) :
    isName name.toList := by
  obtain ⟨t, ht, rfl⟩ := List.mem_map.1 hname
  by_cases hbuiltin : t.isBuiltinScalar
  · cases t with
    | scalar t => exact isName_of_isBuiltin hbuiltin
    | _ => cases hbuiltin
  · exact (h.names t (mem_declaredTypes_iff.2 ⟨ht, by simpa using hbuiltin⟩)).name

theorem enum_value (h : r.IsLegible) {e : EnumType} (he : .enum e ∈ r.types) :
    ∀ value ∈ e.values, isName value.toList ∧ isLiteralWord value = false :=
  (h.names _ (mem_declaredTypes_iff.2 ⟨he, rfl⟩)).2

/-- Values that coerce to a type are literals. -/
theorem isLiteral_of_coerce (h : r.IsLegible) {type : TypeRef} {value c : Value}
    (hfinite : value.IsFinite) (hc : r.coerce type value = .ok c) : value.IsLiteral := by
  have hinput := isInput_of_coerce hc
  clear hc
  induction hinput with
  | null => exact .null
  | boolean b => exact .boolean b
  | number n =>
    cases hfinite with
    | number hn => exact .number hn
  | string s => exact .string s
  | enum hmember =>
    obtain ⟨e, he, hvalue⟩ := hmember
    obtain ⟨hname, hword⟩ := h.enum_value he _ hvalue
    exact .enum hname hword
  | list _ ih =>
    cases hfinite with
    | list hfinite => exact .list fun item hitem => ih item hitem (hfinite item hitem)

theorem isPrintable_argument (h : r.IsLegible) (hfinished : r.IsFinished) {o : ObjectType σ ν}
    (ho : .object o ∈ r.types) {f : Field σ ν} (hf : f ∈ o.fields) {spec : ArgumentSpec}
    (hspec : spec ∈ f.arguments) : spec.IsPrintable where
  name := ((h.names _ (mem_declaredTypes_iff.2 ⟨ho, rfl⟩)).2 f hf).2 spec hspec
  base := by
    obtain ⟨t, ht, hname, -⟩ := hfinished.isWellFormed.argument o ho f hf spec hspec
    exact h.isName_of_mem_names (List.mem_map.2 ⟨t, ht, hname⟩)
  type := ((h.types _ (mem_declaredTypes_iff.2 ⟨ho, rfl⟩)) f hf).2 spec hspec
  default value hvalue := by
    obtain ⟨c, hc⟩ := hfinished.isWellFormed.default o ho f hf spec hspec value hvalue
    exact h.isLiteral_of_coerce
      (h.defaults _ (mem_declaredTypes_iff.2 ⟨ho, rfl⟩) f hf spec hspec value hvalue) hc

theorem isPrintable_type (h : r.IsLegible) (hfinished : r.IsFinished) {t : NamedType σ ν}
    (ht : t ∈ r.declaredTypes) : t.IsPrintable := by
  have hnames := h.names t ht
  have htypes := h.types t ht
  have hmem : t ∈ r.types := (mem_declaredTypes_iff.1 ht).1
  refine ⟨hnames.name, ?_⟩
  cases t with
  | scalar t => trivial
  | enum e => exact hnames.2
  | object o =>
    refine ⟨fun name hname => ?_, fun f hf => ⟨(hnames.2 f hf).1, fun spec hspec => ?_, ?_, ?_⟩⟩
    · obtain ⟨i, hi, rfl, -⟩ := hfinished.isWellFormed.implements o hmem name hname
      exact h.isName_of_mem_names (List.mem_map.2 ⟨_, hi, rfl⟩)
    · exact h.isPrintable_argument hfinished hmem hf hspec
    · exact h.isName_of_mem_names (hfinished.isWellFormed.field o hmem f hf)
    · exact (htypes f hf).1
  | interface i =>
    exact fun f hf => ⟨hnames.2 f hf,
      h.isName_of_mem_names (hfinished.isWellFormed.interfaceField i hmem f hf), htypes f hf⟩

/-- A legible registry that is finished can be printed. -/
theorem isPrintable (h : r.IsLegible) (hfinished : r.IsFinished) : r.IsPrintable where
  types _ ht := h.isPrintable_type hfinished ht
  query := by
    obtain ⟨o, ho, hname⟩ := hfinished.isWellFormed.query
    exact h.isName_of_mem_names (List.mem_map.2 ⟨_, ho, hname⟩)
  mutation name hname := by
    obtain ⟨o, ho, rfl⟩ := hfinished.isWellFormed.mutation name hname
    exact h.isName_of_mem_names (List.mem_map.2 ⟨_, ho, rfl⟩)

end IsLegible

end Registry

end Gazette
