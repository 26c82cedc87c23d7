import Gazette.Schema.Definition
import Mathlib.Data.List.Basic

/-!
# Parts of a definition

The text of a registry holds the text of each declared type, field and argument, and above each the
block of its description (`Registry.Describes`).  Here it is shown that these are parts of the whole
text (`IsPart`), whatever the texts in them are.
-/

namespace Gazette

/-- Whether a text stands somewhere in another. -/
def IsPart (part text : String) : Prop := part.toList <:+: text.toList

namespace IsPart

variable {a b c : String}

theorem refl (a : String) : IsPart a a := List.infix_rfl

theorem trans (hab : IsPart a b) (hbc : IsPart b c) : IsPart a c := List.IsInfix.trans hab hbc

theorem append (h : IsPart a b) (c : String) : IsPart a (b ++ c) := by
  rw [IsPart, String.toList_append]
  exact List.IsInfix.trans h (List.prefix_append _ _).isInfix

theorem prepend (h : IsPart a b) (c : String) : IsPart a (c ++ b) := by
  rw [IsPart, String.toList_append]
  exact List.IsInfix.trans h (List.suffix_append _ _).isInfix

theorem line (h : IsPart a b) : IsPart a (line b) := h.append "\n"

theorem join {parts : List String} (ha : a ∈ parts) : IsPart a (String.join parts) := by
  rw [IsPart, String.toList_join, List.flatMap_def]
  exact List.infix_of_mem_flatten (List.mem_map_of_mem ha)

theorem braced {head : String} {body : List String} (ha : a ∈ body) : IsPart a (braced head body) :=
  ((join ha).prepend _).append _

/-- In a text with separators, each part stands before a separator or before what closes it. -/
theorem intercalate {separator : String} {parts : List String} (ha : a ∈ parts) (close : String) :
    ∃ ending ∈ [separator, close],
      IsPart (a ++ ending) (String.intercalate separator parts ++ close) := by
  induction parts with
  | nil => cases ha
  | cons first rest ih =>
    by_cases hrest : rest = []
    · obtain rfl : a = first := by simpa [hrest] using ha
      rw [hrest, String.intercalate_singleton]
      exact ⟨close, .tail _ (.head _), .refl _⟩
    · rw [String.intercalate_cons_of_ne_nil hrest]
      rcases List.mem_cons.1 ha with rfl | ha
      · exact ⟨separator, .head _, ((refl _).append _).append _⟩
      · obtain ⟨ending, hending, hpart⟩ := ih ha
        refine ⟨ending, hending, ?_⟩
        rw [String.append_assoc]
        exact hpart.prepend _

end IsPart

/-! ## Members of types -/

variable {σ ν : Type}

/-- Where one argument has a description, each stands on a line of its own below its block. -/
theorem isPart_describe_argument {specs : List ArgumentSpec} {spec : ArgumentSpec}
    (hspec : spec ∈ specs) (hany : specs.any fun spec => spec.description.isSome) :
    IsPart (describe argumentIndent spec.description ++ line (argumentIndent ++ spec.definition))
      (argumentDefinitions specs) := by
  have hempty : ¬ specs.isEmpty := fun h => List.ne_nil_of_mem hspec (List.isEmpty_iff.1 h)
  rw [argumentDefinitions, if_neg hempty, if_pos hany]
  have hjoin := IsPart.join (List.mem_map_of_mem hspec (f := fun spec =>
    describe argumentIndent spec.description ++ line (argumentIndent ++ spec.definition)))
  exact ((hjoin.prepend _).append _).append _

/-- The definition of an argument ends at a line end, a comma or the closing parenthesis. -/
theorem exists_isPart_argument {specs : List ArgumentSpec} {spec : ArgumentSpec}
    (hspec : spec ∈ specs) :
    ∃ ending ∈ ["\n", ", ", ")"],
      IsPart (spec.definition ++ ending) (argumentDefinitions specs) := by
  by_cases hany : specs.any fun spec => spec.description.isSome
  · have hline : IsPart (spec.definition ++ "\n") (line (argumentIndent ++ spec.definition)) := by
      rw [line, String.append_assoc]
      exact (IsPart.refl _).prepend _
    exact ⟨"\n", .head _, (hline.prepend _).trans (isPart_describe_argument hspec hany)⟩
  · have hempty : ¬ specs.isEmpty := fun h => List.ne_nil_of_mem hspec (List.isEmpty_iff.1 h)
    rw [argumentDefinitions, if_neg hempty, if_neg hany]
    have hmem : spec.definition ∈ specs.map ArgumentSpec.definition := List.mem_map_of_mem hspec
    obtain ⟨ending, hending, hpart⟩ :
        ∃ ending ∈ [", ", ")"], IsPart (spec.definition ++ ending)
          (String.intercalate ", " (specs.map ArgumentSpec.definition) ++ ")") :=
      IsPart.intercalate hmem ")"
    refine ⟨ending, .tail _ hending, ?_⟩
    rw [String.append_assoc]
    exact hpart.prepend _

theorem isPart_argumentDefinitions (f : Field σ ν) :
    IsPart (argumentDefinitions f.arguments) f.definition :=
  (((((IsPart.refl _).prepend _).append _).append _).line).prepend _

/-! ## Types -/

namespace Registry

variable {r : Registry σ ν}

theorem isPart_definition {t : NamedType σ ν} (ht : t ∈ r.declaredTypes) :
    IsPart t.definition r.definition := by
  have hjoin := IsPart.join (List.mem_map.2 ⟨t, ht, rfl⟩ :
    line t.definition ∈ r.declaredTypes.map fun type => line type.definition)
  rw [definition]
  exact ((IsPart.refl _).line.trans hjoin).append _

theorem isPart_body {t : NamedType σ ν} (ht : t ∈ r.types) (hscalar : t.isBuiltinScalar = false) :
    IsPart t.body r.definition := by
  have hdeclared : t ∈ r.declaredTypes := List.mem_filter.2 ⟨ht, by rw [hscalar]; rfl⟩
  exact ((IsPart.refl t.body).prepend _).trans (isPart_definition hdeclared)

theorem isPart_field {o : ObjectType σ ν} {f : Field σ ν} (ho : .object o ∈ r.types)
    (hf : f ∈ o.fields) : IsPart f.definition r.definition := by
  have hbody := isPart_body ho rfl
  rw [NamedType.body] at hbody
  exact (IsPart.braced (List.mem_map_of_mem hf)).trans hbody

theorem isPart_interfaceField {i : InterfaceType} {f : InterfaceField}
    (hi : .interface i ∈ r.types) (hf : f ∈ i.fields) : IsPart f.definition r.definition := by
  have hbody := isPart_body hi rfl
  rw [NamedType.body] at hbody
  exact (IsPart.braced (List.mem_map_of_mem hf)).trans hbody

/-- What a registry describes, at the three depths of its text: a declared type, a field or an
argument has the description `text`, its lines have the indentation `indent`, and `below` is what
stands below them. -/
inductive Describes (r : Registry σ ν) : (indent text below : String) → Prop
  | type {t : NamedType σ ν} {text : String} (ht : t ∈ r.declaredTypes)
      (htext : t.description = some text) : Describes r "" text t.body
  | field {o : ObjectType σ ν} {f : Field σ ν} {text : String} (ho : .object o ∈ r.types)
      (hf : f ∈ o.fields) (htext : f.description = some text) :
      Describes r fieldIndent text
        (line (fieldIndent ++ f.name ++ argumentDefinitions f.arguments ++ ": " ++ f.type.text))
  | interfaceField {i : InterfaceType} {f : InterfaceField} {text : String}
      (hi : .interface i ∈ r.types) (hf : f ∈ i.fields) (htext : f.description = some text) :
      Describes r fieldIndent text (line (fieldIndent ++ f.name ++ ": " ++ f.type.text))
  | argument {o : ObjectType σ ν} {f : Field σ ν} {spec : ArgumentSpec} {text : String}
      (ho : .object o ∈ r.types) (hf : f ∈ o.fields) (hspec : spec ∈ f.arguments)
      (htext : spec.description = some text) :
      Describes r argumentIndent text (line (argumentIndent ++ spec.definition))

/-- Each description stands above what it describes. -/
theorem Describes.isPart {indent text below : String} (h : r.Describes indent text below) :
    IsPart (describe indent (some text) ++ below) r.definition := by
  cases h with
  | type ht htext =>
    have hpart := isPart_definition ht
    rwa [NamedType.definition, htext] at hpart
  | field ho hf htext =>
    have hpart := isPart_field ho hf
    rwa [Field.definition, htext] at hpart
  | interfaceField hi hf htext =>
    have hpart := isPart_interfaceField hi hf
    rwa [InterfaceField.definition, htext] at hpart
  | argument ho hf hspec htext =>
    have hpart := isPart_describe_argument hspec
      (List.any_eq_true.2 ⟨_, hspec, by rw [htext]; rfl⟩)
    rw [htext] at hpart
    exact hpart.trans ((isPart_argumentDefinitions _).trans (isPart_field ho hf))

theorem Describes.isBlank_indent {indent text below : String} (h : r.Describes indent text below) :
    Text.Block.isBlank indent.toList := by
  cases h <;> decide

end Registry

end Gazette
