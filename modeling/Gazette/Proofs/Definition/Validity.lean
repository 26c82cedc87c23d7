import Gazette.Proofs.Definition.Legible
import Gazette.Proofs.Request.Failures

/-!
# Valid definitions

A text of the schema definition language is valid if it can be read, its types have members, no
object names an interface twice, and each default is a literal that fits the type of its argument
(`IsValidText`).  The definition of a registry is always read, and its types have the members that
the registry has.  Its defaults fit unless one has a string where its type asks for a value of an
enum: such a default coerces, and is written with quotes.
-/

namespace Gazette

open Sdl

/-! ## Validity -/

namespace Sdl

namespace Definition

/-- The types among definitions. -/
def types (definitions : List Definition) : List TypeDefinition :=
  definitions.filterMap fun
    | .type t => some t
    | .roots _ => none

/-- The type with a name among definitions. -/
def type? (definitions : List Definition) (name : String) : Option TypeDefinition :=
  (types definitions).find? fun t => t.name = name

end Definition

/-- The fields of an object or an interface. -/
def TypeDefinition.fields (t : TypeDefinition) : List FieldDefinition :=
  match t.body with
  | .object _ fields | .interface fields => fields
  | .scalar | .enum _ => []

/-- The interfaces that an object implements. -/
def TypeDefinition.implements (t : TypeDefinition) : List String :=
  match t.body with
  | .object implements _ => implements
  | _ => []

/-- Whether a type has the members that its kind asks for. -/
def TypeDefinition.HasMembers (t : TypeDefinition) : Prop :=
  match t.body with
  | .scalar => True
  | .enum values => values ≠ []
  | .object _ fields | .interface fields => fields ≠ []

/-- The integer that a number is written as, if it has neither point nor exponent. -/
def integer? (parts : Number.Lexeme) : Option Int :=
  if parts.fraction.isSome || parts.exponent.isSome then none
  else
    let n : Int := Number.Lexeme.natOf parts.whole
    some (if parts.negative then -n else n)

namespace Constant

/-- Whether a constant is null. -/
def isNull : Constant → Bool
  | null => true
  | _ => false

/-- Whether a literal is a value of a built-in scalar. -/
def fitsBuiltin (name : String) : Constant → Bool
  | number parts =>
    name = builtin.float || (name = builtin.id && (integer? parts).isSome) ||
      (name = builtin.int && (integer? parts).any fun n =>
        Registry.minInt32 ≤ n && n ≤ Registry.maxInt32)
  | string _ => name = builtin.string || name = builtin.id
  | boolean _ => name = builtin.boolean
  | _ => false

/-- Whether a literal is a value of a named type: a value of an enum by its bare name, any literal
for a scalar that a definition declares. -/
def fitsNamed (definitions : List Definition) (name : String) (value : Constant) : Bool :=
  match Definition.type? definitions name with
  | some t =>
    match t.body, value with
    | .enum values, enum member => (values.map ValueDefinition.name).contains member
    | .scalar, _ => true
    | _, _ => false
  | none => fitsBuiltin name value

/-- Whether a literal is a value of a type.  A literal that is no list counts as a list of one. -/
def fits (definitions : List Definition) : TypeRef → Constant → Bool
  | .nonNull inner, value => !value.isNull && fits definitions inner value
  | .list item, value =>
    match value with
    | null => true
    | list items => items.all (fits definitions item)
    | single => fits definitions item single
  | .named name, value => value.isNull || fitsNamed definitions name value

end Constant

/-- Whether definitions are those of a valid document. -/
structure IsValid (definitions : List Definition) : Prop where
  members : ∀ t ∈ Definition.types definitions, t.HasMembers
  implements : ∀ t ∈ Definition.types definitions, t.implements.Nodup
  defaults : ∀ t ∈ Definition.types definitions, ∀ f ∈ t.fields, ∀ a ∈ f.arguments,
    ∀ value ∈ a.default, value.fits definitions a.type

/-- Whether a text is a valid document of the schema definition language. -/
def IsValidText (source : String) : Prop :=
  ∃ definitions, Definition.ofText? source = some definitions ∧ IsValid definitions

end Sdl

variable {σ ν : Type}

/-! ## Trees of a registry -/

namespace Registry

theorem types_trees (r : Registry σ ν) :
    Definition.types r.trees = r.declaredTypes.map NamedType.tree := by
  simp [Definition.types, trees, List.filterMap_append, List.filterMap_map]

/-- A declared type is found among the definitions, and a built-in scalar is not. -/
theorem type?_trees {r : Registry σ ν} (h : r.IsRegular) {name : String} {t : NamedType σ ν}
    (hfind : r.find? name = some t) : Definition.type? r.trees name =
      if t.isBuiltinScalar then none else some t.tree := by
  obtain ⟨ht, hname⟩ := name_of_find? hfind
  have hnames : (r.declaredTypes.map NamedType.name).Nodup :=
    h.names.sublist (List.filter_sublist.map _)
  have hdeclared : Definition.type? r.trees name =
      (r.declaredTypes.find? fun t => t.name = name).map NamedType.tree := by
    rw [Definition.type?, types_trees, List.find?_map]
    rfl
  rw [hdeclared]
  split
  · rename_i hbuiltin
    rw [Option.map_eq_none_iff, List.find?_eq_none]
    intro u hu hsame
    obtain ⟨humem, huplain⟩ := mem_declaredTypes_iff.1 hu
    have hfindu := h.find?_of_mem humem
    rw [of_decide_eq_true hsame, hfind] at hfindu
    obtain rfl := Option.some.inj hfindu
    exact absurd hbuiltin (by simp [huplain])
  · rename_i hplain
    rw [(find?_eq_some_iff_of_nodup hnames).2
      ⟨mem_declaredTypes_iff.2 ⟨ht, by simpa using hplain⟩, hname⟩, Option.map_some]

end Registry

/-! ## Defaults -/

/-- Whether a value is a string. -/
def Value.isString : Value → Bool
  | string _ => true
  | _ => false

theorem Value.IsLiteral.isNull_constant {value : Value} (h : value.IsLiteral) :
    value.constant.isNull = value.isNull := by
  cases h <;> rfl

/-- The parts of an integer give the integer. -/
theorem Number.integer?_parts_int (n : Int) : integer? (int n).parts = some n := by
  have hwhole : Lexeme.natOf (int n).parts.whole = n.natAbs := natOf_digits _
  have hnegative : (int n).parts.negative = decide (n < 0) := rfl
  have hplain : ((int n).parts.fraction.isSome || (int n).parts.exponent.isSome) = false := rfl
  rw [integer?, hwhole, hnegative, hplain, if_neg Bool.false_ne_true]
  have habs : (if decide (n < 0) = true then -(n.natAbs : Int) else n.natAbs) = n := by
    simp only [decide_eq_true_eq]
    split <;> omega
  exact congrArg some habs

namespace Registry

variable {r : Registry σ ν}

/-- A value that coerces to a built-in scalar is written as a literal of it. -/
theorem CoercesScalar.fitsBuiltin {name : String} {value c : Value}
    (h : CoercesScalar name value c) : value.constant.fitsBuiltin name := by
  cases h with
  | string hname => simpa [Value.constant, Constant.fitsBuiltin] using hname
  | boolean hname => simpa [Value.constant, Constant.fitsBuiltin] using hname
  | float hname => simp [Value.constant, Constant.fitsBuiltin, hname]
  | id hname => simp [Value.constant, Constant.fitsBuiltin, Number.integer?_parts_int, hname]
  | int hname hlow hhigh =>
    simp [Value.constant, Constant.fitsBuiltin, Number.integer?_parts_int, hname, hlow, hhigh]

/-- Whether a value has no strings where a type asks for values of an enum. -/
def WritesEnums (r : Registry σ ν) (type : TypeRef) (value : Value) : Prop :=
  ∀ e, r.enum? type.baseName = some e → ∀ leaf ∈ value.leavesAt type, leaf.isString = false

theorem fitsNamed_constant_iff (h : r.IsRegular) {name : String} {value c : Value}
    (hc : r.coerceNamed name value = .ok c) :
    value.constant.fitsNamed r.trees name ↔
      ∀ e, r.enum? name = some e → value.isString = false := by
  cases coerceNamed_eq_ok_iff.1 hc with
  | @enum e hfind _ member hname hmember =>
    have henum : r.enum? name = some e := by rw [enum?, hfind]
    have htype : Definition.type? r.trees name = some (NamedType.enum e : NamedType σ ν).tree :=
      type?_trees h hfind
    rw [Constant.fitsNamed, htype, henum]
    cases value with
    | enum name' =>
      obtain rfl := Option.some.inj hname
      simpa [Value.constant, NamedType.tree, NamedType.bodyTree, Value.isString]
        using List.contains_iff_mem.1 hmember
    | string s => simp [Value.constant, NamedType.tree, NamedType.bodyTree, Value.isString]
    | _ => cases hname
  | @scalar t hfind _ _ hscalar =>
    have henum : ∀ e, r.enum? name ≠ some e := by
      intro e he
      rw [enum?, hfind] at he
      cases he
    have hname : t.name = name := (name_of_find? hfind).2
    have hbuiltin : isBuiltin t.name := hname ▸ hscalar.isBuiltin
    have htype : Definition.type? r.trees name = none :=
      (type?_trees h hfind).trans (if_pos hbuiltin)
    refine iff_of_true ?_ fun e he => absurd he (henum e)
    rw [Constant.fitsNamed, htype]
    exact hscalar.fitsBuiltin

/-- The literal of a value that coerces fits the type if it has no string for a value of an enum. -/
theorem fits_constant_iff (h : r.IsRegular) {type : TypeRef} {value c : Value}
    (hvalue : value.IsLiteral) (hc : r.coerce type value = .ok c) :
    value.constant.fits r.trees type ↔ r.WritesEnums type value := by
  induction type generalizing value c with
  | nonNull inner ih =>
    obtain ⟨hnull, hc⟩ := coerce_nonNull_iff.1 hc
    rw [Constant.fits, hvalue.isNull_constant, Bool.eq_false_iff.2 (hnull ∘ Value.isNull_iff.1),
      Bool.not_false, Bool.true_and]
    exact ih hvalue hc
  | list item ih =>
    cases value with
    | null =>
      refine iff_of_true rfl fun e _ leaf hleaf => ?_
      rw [Value.leavesAt_null] at hleaf
      cases hleaf
    | list items =>
      have hitems := exists_coerce_list_iff.1 ⟨c, hc⟩
      cases hvalue with
      | list hliteral =>
        rw [Value.constant, Value.constants_eq_map, Constant.fits, List.all_eq_true,
          List.forall_mem_map]
        have hall : (∀ i ∈ items, i.constant.fits r.trees item) ↔
            ∀ i ∈ items, r.WritesEnums item i :=
          forall₂_congr fun i hi => ih (hliteral i hi) (hitems i hi).choose_spec
        rw [hall, WritesEnums, Value.leavesAt]
        simp only [List.forall_mem_flatMap]
        exact ⟨fun h e he i hi => h i hi e he, fun h i hi e he => h e he i hi⟩
    | binary bytes => cases hvalue
    | object members => cases hvalue
    | _ =>
      obtain ⟨single, hs⟩ := (exists_coerce_single_iff rfl (by simp)).1 ⟨c, hc⟩
      exact ih hvalue hs
  | named name =>
    rcases coerce_named_iff.1 hc with ⟨rfl, -⟩ | ⟨hnull, hc⟩
    · exact iff_of_true rfl fun e _ => List.forall_mem_nil _
    · have hnull := Bool.eq_false_iff.2 (hnull ∘ Value.isNull_iff.1)
      rw [Constant.fits, WritesEnums, Value.leavesAt, hvalue.isNull_constant, hnull, Bool.false_or,
        if_neg Bool.false_ne_true, fitsNamed_constant_iff h hc]
      simp only [List.forall_mem_singleton, TypeRef.baseName]

end Registry

/-! ## The definition of a registry -/

/-- Whether the values of an enum and the fields of an object or an interface are not none. -/
def NamedType.HasMembers : NamedType σ ν → Prop
  | scalar _ => True
  | enum e => e.values ≠ []
  | object o => o.fields ≠ []
  | interface i => i.fields ≠ []

theorem NamedType.hasMembers_tree_iff {t : NamedType σ ν} :
    t.tree.HasMembers ↔ t.HasMembers := by
  cases t with
  | scalar t => exact Iff.rfl
  | enum e => exact not_congr List.map_eq_nil_iff
  | object o => exact not_congr List.map_eq_nil_iff
  | interface i => exact not_congr List.map_eq_nil_iff

namespace Registry

variable {r : Registry σ ν}

theorem implements_trees_iff : (∀ t ∈ Definition.types r.trees, t.implements.Nodup) ↔
    ∀ o, .object o ∈ r.types → o.implements.Nodup := by
  rw [types_trees, List.forall_mem_map]
  constructor
  · exact fun h o ho => h _ (mem_declaredTypes_iff.2 ⟨ho, rfl⟩)
  · intro h t ht
    cases t with
    | object o => exact h o (mem_declaredTypes_iff.1 ht).1
    | _ => exact List.nodup_nil

theorem defaults_trees_iff (h : r.IsFinished) (hl : r.IsLegible) :
    (∀ t ∈ Definition.types r.trees, ∀ f ∈ t.fields, ∀ a ∈ f.arguments, ∀ value ∈ a.default,
      value.fits r.trees a.type) ↔
    ∀ o, .object o ∈ r.types → ∀ f ∈ o.fields, ∀ spec ∈ f.arguments, ∀ value ∈ spec.default,
      r.WritesEnums spec.type value := by
  have hspec : ∀ o, .object o ∈ r.types → ∀ f ∈ o.fields, ∀ spec ∈ f.arguments,
      ((∀ value ∈ spec.tree.default, value.fits r.trees spec.type) ↔
        ∀ value ∈ spec.default, r.WritesEnums spec.type value) := by
    intro o ho f hf spec hspec
    have hprint := hl.isPrintable_argument h ho hf hspec
    have hdefault := h.isWellFormed.default o ho f hf spec hspec
    rw [ArgumentSpec.tree]
    cases hd : spec.default with
    | none => simp
    | some value =>
      obtain ⟨c, hc⟩ := hdefault value hd
      simpa using fits_constant_iff h.isRegular (hprint.default value hd) hc
  rw [types_trees, List.forall_mem_map]
  constructor
  · intro hall o ho f hf spec hs
    exact (hspec o ho f hf spec hs).1 (hall _ (mem_declaredTypes_iff.2 ⟨ho, rfl⟩) f.tree
      (List.mem_map_of_mem hf) spec.tree (List.mem_map_of_mem hs))
  · intro hall t ht f hf a ha
    have hmem := (mem_declaredTypes_iff.1 ht).1
    cases t with
    | scalar t => cases hf
    | enum e => cases hf
    | object o =>
      obtain ⟨own, hown, rfl⟩ := List.mem_map.1 hf
      obtain ⟨spec, hs, rfl⟩ := List.mem_map.1 ha
      exact (hspec o hmem own hown spec hs).2 (hall o hmem own hown spec hs)
    | interface i =>
      obtain ⟨own, hown, rfl⟩ := List.mem_map.1 hf
      cases ha

/-- What is valid about a text that can be read is told by its trees. -/
theorem isValidText_definition_iff (h : r.IsFinished) (hl : r.IsLegible) :
    IsValidText r.definition ↔ IsValid r.trees := by
  rw [IsValidText, ofText?_definition (hl.isPrintable h)]
  simp

/-- The definition of a legible registry whose types have members is a valid document if no object
names an interface twice, and no default has a string for a value of an enum. -/
theorem isValid_definition_iff (h : r.IsFinished) (hl : r.IsLegible)
    (hmembers : ∀ t ∈ r.declaredTypes, t.HasMembers) :
    IsValidText r.definition ↔ (∀ o, .object o ∈ r.types → o.implements.Nodup) ∧
      ∀ o, .object o ∈ r.types → ∀ f ∈ o.fields, ∀ spec ∈ f.arguments, ∀ value ∈ spec.default,
        r.WritesEnums spec.type value := by
  rw [isValidText_definition_iff h hl, ← implements_trees_iff, ← defaults_trees_iff h hl]
  constructor
  · exact fun hvalid => ⟨hvalid.implements, hvalid.defaults⟩
  · rintro ⟨himplements, hdefaults⟩
    refine ⟨?_, himplements, hdefaults⟩
    rw [types_trees, List.forall_mem_map]
    exact fun t ht => NamedType.hasMembers_tree_iff.2 (hmembers t ht)

end Registry

namespace Bookshop

/-- The enum of the orders in which titles can be sorted. -/
def order : EnumType where
  name := "Order"
  values := ["TITLE", "YEAR"]

/-- The root of a shop whose titles are listed in an order. -/
def sortedRoot (default : Value) : ObjectType Unit Thing where
  name := "Query"
  fields := [
    { name := "titles"
      type := .named builtin.string
      arguments := [{ name := "order", type := .named "Order", default := some default }] }]

/-- A shop that sorts its titles, in an order with a default. -/
def sorted (default : Value) : Registry Unit Thing :=
  (Registry.empty "Query").performAll
    [.register (.enum order), .register (.object (sortedRoot default))]

theorem declaredTypes_sorted (default : Value) :
    (sorted default).declaredTypes = [.enum order, .object (sortedRoot default)] := by
  rfl

theorem isLegible_sorted {default : Value} (h : default.IsFinite) :
    (sorted default).IsLegible := by
  refine ⟨?_, ?_, ?_⟩
  all_goals rw [declaredTypes_sorted, List.forall_mem_cons, List.forall_mem_singleton]
  · exact ⟨⟨by decide, by decide⟩, show isName "Query".toList by decide,
      List.forall_mem_singleton.2 ⟨show isName "titles".toList by decide,
        List.forall_mem_singleton.2 (show isName "order".toList by decide)⟩⟩
  · exact ⟨trivial, List.forall_mem_singleton.2 ⟨rfl, List.forall_mem_singleton.2 rfl⟩⟩
  · refine ⟨trivial, List.forall_mem_singleton.2 (List.forall_mem_singleton.2 ?_)⟩
    rintro _ ⟨⟩
    exact h

theorem hasMembers_sorted (default : Value) :
    ∀ t ∈ (sorted default).declaredTypes, t.HasMembers := by
  rw [declaredTypes_sorted, List.forall_mem_cons, List.forall_mem_singleton]
  exact ⟨List.cons_ne_nil _ _, List.cons_ne_nil _ _⟩

theorem isFinished_sorted_enum : (sorted (.enum "TITLE")).IsFinished := ⟨⟨"Query", _, rfl⟩, by rfl⟩

theorem isFinished_sorted_string : (sorted (.string "TITLE")).IsFinished :=
  ⟨⟨"Query", _, rfl⟩, by rfl⟩

/-- A default that is a bare value of its enum. -/
theorem isValid_definition_sorted :
    (sorted (.enum "TITLE")).IsFinished ∧ (sorted (.enum "TITLE")).IsLegible ∧
    (∀ t ∈ (sorted (.enum "TITLE")).declaredTypes, t.HasMembers) ∧
    IsValidText (sorted (.enum "TITLE")).definition := by
  have hobject : ∀ o, .object o ∈ (sorted (.enum "TITLE")).types →
      o = sortedRoot (.enum "TITLE") := by
    intro o ho
    have hdeclared := Registry.mem_declaredTypes_iff.2 ⟨ho, rfl⟩
    rw [declaredTypes_sorted] at hdeclared
    simpa using hdeclared
  refine ⟨isFinished_sorted_enum, isLegible_sorted (.enum _), hasMembers_sorted _, ?_⟩
  refine (Registry.isValid_definition_iff isFinished_sorted_enum (isLegible_sorted (.enum _))
    (hasMembers_sorted _)).2 ⟨fun o ho => ?_, fun o ho => ?_⟩
  · rw [hobject o ho]
    exact List.nodup_nil
  · rw [hobject o ho]
    refine List.forall_mem_singleton.2 (List.forall_mem_singleton.2 ?_)
    rintro _ ⟨⟩ e - leaf hleaf
    obtain rfl := List.mem_singleton.1 hleaf
    rfl

/-- A default that is a string coerces to its enum, and is written with quotes. -/
theorem not_isValid_definition_sorted :
    (sorted (.string "TITLE")).IsFinished ∧ (sorted (.string "TITLE")).IsLegible ∧
    (∀ t ∈ (sorted (.string "TITLE")).declaredTypes, t.HasMembers) ∧
    ¬ IsValidText (sorted (.string "TITLE")).definition := by
  refine ⟨isFinished_sorted_string, isLegible_sorted (.string _), hasMembers_sorted _, ?_⟩
  rw [Registry.isValidText_definition_iff isFinished_sorted_string (isLegible_sorted (.string _))]
  intro hvalid
  have hdefaults := (Registry.defaults_trees_iff isFinished_sorted_string
    (isLegible_sorted (.string _))).1 hvalid.defaults
  have hroot : .object (sortedRoot (.string "TITLE")) ∈ (sorted (.string "TITLE")).types :=
    (Registry.mem_declaredTypes_iff.1 (declaredTypes_sorted _ ▸ .tail _ (.head _))).1
  exact nomatch hdefaults _ hroot _ (.head _) _ (.head _) _ rfl order rfl _ (.head _)

end Bookshop

end Gazette
