import Gazette.Proofs.Request.Arguments
import Gazette.Proofs.Request.Failures
import Gazette.Proofs.Schema.Finished

/-!
# Validation and coercion

Requests are validated before they run, and arguments are coerced while they run.  The two agree on
the values of an argument but for what stands at its innermost type (`Value.leavesAt`): an `Int`
takes integers of 32 bits only, and a scalar that is not built in takes nothing but null
(`Schema.exists_coerce_iff`).
-/

namespace Gazette

/-! ## What stands at the innermost type -/

/-- The values, without nulls, that are read at the innermost type when a value is read as one of a
type. -/
def Value.leavesAt : TypeRef → Value → List Value
  | .nonNull inner, value => leavesAt inner value
  | .list item, value =>
    match value with
    | .list items => items.flatMap (leavesAt item)
    | single => leavesAt item single
  | .named _, value => if value.isNull then [] else [value]

/-- Whether a value is made of what arguments take: null, booleans, numbers, strings and enum names
of some kind, in lists of any depth. -/
inductive Value.IsInput (named : String → Prop) : Value → Prop
  | null : IsInput named .null
  | boolean (b : Bool) : IsInput named (.boolean b)
  | number (n : Number) : IsInput named (.number n)
  | string (s : String) : IsInput named (.string s)
  | enum {name : String} (h : named name) : IsInput named (.enum name)
  | list {items : List Value} (h : ∀ item ∈ items, IsInput named item) :
    IsInput named (.list items)

theorem Value.IsInput.mono {named named' : String → Prop} {value : Value} (h : value.IsInput named)
    (himp : ∀ name, named name → named' name) : value.IsInput named' := by
  induction h with
  | null => exact .null
  | boolean b => exact .boolean b
  | number n => exact .number n
  | string s => exact .string s
  | enum hname => exact .enum (himp _ hname)
  | list _ ih => exact .list ih

theorem Value.leavesAt_null (type : TypeRef) : leavesAt type .null = [] := by
  induction type with
  | nonNull inner ih => exact ih
  | list item ih => exact ih
  | named name => rfl

namespace Registry

variable {σ ν : Type} {r : Registry σ ν}

/-! ## One leaf -/

theorem CoercesScalar.isBuiltin {name : String} {value c : Value}
    (h : CoercesScalar name value c) : isBuiltin name := by
  cases h with
  | string hname => rcases hname with rfl | rfl <;> decide
  | boolean hname | float hname | id hname | int hname => subst hname; decide

theorem CoercesScalar.isWithinInt {value c : Value} (h : CoercesScalar builtin.int value c) :
    value.isWithinInt := by
  cases h with
  | string | boolean => rfl
  | float hname | id hname => exact absurd hname (by decide)
  | int _ hlow hhigh =>
    rw [Value.isWithinInt, Bool.and_eq_true, decide_eq_true_iff, decide_eq_true_iff]
    exact ⟨hlow, hhigh⟩

/-- Whether a value is a leaf that coercion takes at the type with a name, given that validation
lets it through. -/
def TakesValue (r : Registry σ ν) (name : String) (value : Value) : Prop :=
  r.takesLeaf name ∧ (name = builtin.int → value.isWithinInt)

/-- A value that validation lets through for a type coerces to it if the type takes it. -/
theorem exists_coerceNamed_iff {scope : Validation.Scope} {name : String} {t : NamedType σ ν}
    (hfind : r.find? name = some t) (hinput : t.isInput)
    (hscope : scope.find? name = some (Outline.ofType t)) {value : Value}
    (h : Validation.namedHas scope name value) :
    (∃ c, r.coerceNamed name value = .ok c) ↔ r.TakesValue name value := by
  have hname : t.name = name := (name_of_find? hfind).2
  rw [Validation.namedHas, hscope] at h
  rw [coerceNamed, TakesValue, takesLeaf, hfind]
  cases t with
  | scalar t =>
    have hhas : Validation.scalarHas name value := hname ▸ h
    constructor
    · rintro ⟨c, hc⟩
      dsimp only at hc
      split at hc
      · rename_i coerced hcoerced
        have hscalar := coerceScalar?_eq_some_iff.1 hcoerced
        exact ⟨hscalar.isBuiltin, fun hint => (hint ▸ hscalar).isWithinInt⟩
      · cases hc
    · rintro ⟨hbuiltin, hvalue⟩
      obtain ⟨c, hc⟩ := exists_coerceScalar? hbuiltin hvalue hhas
      exact ⟨c, by simp only [hc]⟩
  | enum e =>
    refine ⟨fun _ => ⟨rfl, fun hint => ?_⟩, fun _ => ?_⟩
    · cases value with
      | number n => simp [Outline.ofType, Value.name?] at h
      | _ => rfl
    · simp only [Outline.ofType] at h
      cases hmember : value.name? with
      | none => simp [hmember] at h
      | some member =>
        rw [hmember] at h
        exact ⟨.enum member, if_pos h⟩
  | object o => cases hinput
  | interface i => cases hinput

/-! ## Values of any type -/

theorem exists_coerce_list_iff {item : TypeRef} {items : List Value} :
    (∃ c, r.coerce (.list item) (.list items) = .ok c) ↔
      ∀ i ∈ items, ∃ c, r.coerce item i = .ok c := by
  simp only [coerce_items]
  constructor
  · rintro ⟨_, cs, hcs, -⟩ i hi
    obtain ⟨c, -, hc⟩ := exists_of_mem_left hcs hi
    exact ⟨c, hc⟩
  · intro h
    obtain ⟨cs, hcs⟩ := exists_forall₂ h
    exact ⟨_, cs, hcs, rfl⟩

/-- A value that is no list counts as a list of one item. -/
theorem exists_coerce_single_iff {item : TypeRef} {value : Value} (hnull : value.isNull = false)
    (hsingle : ∀ items, value ≠ .list items) :
    (∃ c, r.coerce (.list item) value = .ok c) ↔ ∃ c, r.coerce item value = .ok c := by
  have hne : value ≠ .null := by
    rintro rfl
    cases hnull
  simp only [coerce_single hne hsingle]
  constructor
  · rintro ⟨_, only, honly, -⟩
    exact ⟨only, honly⟩
  · rintro ⟨only, honly⟩
    exact ⟨_, only, honly, rfl⟩

/-- Whether a name is that of a value of an enum of the registry. -/
def IsMember (r : Registry σ ν) (name : String) : Prop :=
  ∃ e, .enum e ∈ r.types ∧ name ∈ e.values

theorem isInput_of_coerceNamed {name : String} {value c : Value}
    (h : r.coerceNamed name value = .ok c) : value.IsInput r.IsMember := by
  cases coerceNamed_eq_ok_iff.1 h with
  | @enum e hfind _ member hname hmember =>
    cases value with
    | enum name' =>
      obtain rfl := Option.some.inj hname
      exact .enum ⟨e, (name_of_find? hfind).1, List.contains_iff_mem.1 hmember⟩
    | string s => exact .string s
    | _ => cases hname
  | scalar _ h =>
    cases h with
    | string _ s => exact .string s
    | boolean _ b => exact .boolean b
    | float _ n => exact .number n
    | id | int => exact .number _

/-- What coerces to a type is made of what arguments take. -/
theorem isInput_of_coerce {type : TypeRef} {value c : Value} (h : r.coerce type value = .ok c) :
    value.IsInput r.IsMember := by
  induction type generalizing value c with
  | nonNull inner ih => exact ih (coerce_nonNull_iff.1 h).2
  | list item ih =>
    rcases coerce_list_cases h with ⟨rfl, -⟩ | ⟨items, cs, rfl, -, hcs⟩ | ⟨-, -, only, honly, -⟩
    · exact .null
    · refine .list fun i hi => ?_
      obtain ⟨c, -, hc⟩ := exists_of_mem_left hcs hi
      exact ih hc
    · exact ih honly
  | named name =>
    rcases coerce_named_iff.1 h with ⟨rfl, -⟩ | ⟨-, h⟩
    · exact .null
    · exact isInput_of_coerceNamed h

/-- A value that validation lets through for a type coerces to it if the innermost type takes all
that stands there. -/
theorem exists_coerce_iff_of_has {scope : Validation.Scope} {type : TypeRef} {t : NamedType σ ν}
    (hfind : r.find? type.baseName = some t) (hinput : t.isInput)
    (hscope : scope.find? type.baseName = some (Outline.ofType t)) {value : Value}
    (h : Validation.has scope type value) :
    (∃ c, r.coerce type value = .ok c) ↔
      ∀ leaf ∈ value.leavesAt type, r.TakesValue type.baseName leaf := by
  induction type generalizing value with
  | nonNull inner ih =>
    rw [Validation.has, Bool.and_eq_true, Bool.not_eq_true'] at h
    rw [coerce, h.1]
    exact ih hfind hscope h.2
  | list item ih =>
    cases value with
    | null =>
      refine ⟨fun _ => ?_, fun _ => ⟨.null, rfl⟩⟩
      rw [Value.leavesAt_null]
      exact List.forall_mem_nil _
    | list items =>
      rw [Validation.has, List.all_eq_true] at h
      rw [exists_coerce_list_iff, Value.leavesAt, List.forall_mem_flatMap]
      exact forall₂_congr fun i hi => ih hfind hscope (h i hi)
    | _ => exact (exists_coerce_single_iff rfl (by simp)).trans (ih hfind hscope h)
  | named name =>
    rw [coerce, Value.leavesAt]
    by_cases hnull : value.isNull
    · rw [if_pos hnull, if_pos hnull]
      exact ⟨fun _ => List.forall_mem_nil _, fun _ => ⟨.null, rfl⟩⟩
    · rw [Validation.has, Bool.or_eq_true, or_iff_right hnull] at h
      rw [if_neg hnull, if_neg hnull, List.forall_mem_singleton]
      exact exists_coerceNamed_iff hfind hinput hscope h

end Registry

namespace Schema

variable {σ ν : Type} {schema : Schema σ ν}

/-- Requests are validated against the types that arguments are coerced to. -/
theorem find?_validationScope {name : String} {t : NamedType σ ν}
    (hfind : schema.registry.find? name = some t) (hinput : t.isInput) (request : Request) :
    (schema.validationScope request).find? name = some (Outline.ofType t) := by
  have hlifted := Registry.find?_withIntrospection_of_some hfind schema.root
  have hscope : (schema.validationScope request).find? name =
      (schema.executable.find? name).map Outline.ofType := Outline.find?_ofRegistry _ _
  rw [hscope, executable, hlifted]
  cases t with
  | scalar t => rfl
  | enum e => rfl
  | object o => cases hinput
  | interface i => cases hinput

/-- In a schema of a finished registry, a value that validation accepts for an argument type coerces
to it if what stands at the innermost type is no integer out of the range of an `Int`, and that type
is no scalar of the registry's own. -/
theorem exists_coerce_iff (h : schema.registry.IsFinished) {type : TypeRef} {t : NamedType σ ν}
    (ht : t ∈ schema.registry.types) (hname : t.name = type.baseName) (hinput : t.isInput)
    (request : Request) {value : Value}
    (hvalue : Validation.has (schema.validationScope request) type value) :
    (∃ c, schema.registry.coerce type value = .ok c) ↔ ∀ leaf ∈ value.leavesAt type,
      ((∃ e, t = .enum e) ∨ Registry.isBuiltin t.name) ∧
        (t.name = builtin.int → leaf.isWithinInt) := by
  have hfind : schema.registry.find? type.baseName = some t :=
    hname ▸ h.isRegular.find?_of_mem ht
  rw [Registry.exists_coerce_iff_of_has hfind hinput (find?_validationScope hfind hinput request)
    hvalue]
  refine forall₂_congr fun leaf _ => ?_
  rw [Registry.TakesValue, Registry.takesLeaf, hfind, hname]
  cases t with
  | scalar t => simp
  | enum e => simp
  | object o => cases hinput
  | interface i => cases hinput

end Schema

namespace Bookshop

/-- The root of a shop that tells whether it is open on a day, at some hours. -/
def calendarRoot : ObjectType Unit Thing where
  name := "Query"
  fields := [
    { name := "opening"
      type := .named builtin.string
      arguments := [{ name := "on", type := .named "Date" },
        { name := "hours", type := .namedList builtin.int }] }]

/-- A shop with days as a scalar of its own. -/
def calendar : Schema Unit Thing where
  registry := (Registry.empty "Query").performAll [.register (.scalar { name := "Date" }),
    .register (.object calendarRoot)]
  root := .shop
  depthLimit := Schema.defaultDepthLimit

theorem types_calendar : calendar.registry.types = Registry.builtinScalars.map .scalar ++
    [.scalar { name := "Date" }, .object calendarRoot] := rfl

theorem isFinished_calendar : calendar.registry.IsFinished :=
  ⟨⟨"Query", _, rfl⟩, by rfl⟩

/-- A request with a date, which is a scalar that is not built in. -/
def openingQuery : Request where
  query := "\x7b opening(on: \"2026-01-01\") \x7d"

/-- Hours with a null among them coerce, and a single hour of more than 32 bits does not. -/
theorem exists_coerce_iff_hours :
    calendar.registry.IsFinished ∧
    Validation.has (calendar.validationScope openingQuery) (.namedList builtin.int)
      (.list [.int 9, .null, .int 17]) ∧
    (∃ c, calendar.registry.coerce (.namedList builtin.int)
      (.list [.int 9, .null, .int 17]) = .ok c) ∧
    Validation.has (calendar.validationScope openingQuery) (.namedList builtin.int)
      (.int 2147483648) ∧
    ¬ ∃ c, calendar.registry.coerce (.namedList builtin.int) (.int 2147483648) = .ok c := by
  have ht : .scalar ⟨builtin.int, some "A signed 32-bit integer."⟩ ∈ calendar.registry.types :=
    .tail _ (.head _)
  have hlist : Validation.has (calendar.validationScope openingQuery) (.namedList builtin.int)
      (.list [.int 9, .null, .int 17]) := by decide +kernel
  have hlarge : Validation.has (calendar.validationScope openingQuery) (.namedList builtin.int)
      (.int 2147483648) := by decide +kernel
  refine ⟨isFinished_calendar, hlist, ?_, hlarge, ?_⟩
  · refine (Schema.exists_coerce_iff isFinished_calendar ht rfl rfl openingQuery hlist).2 ?_
    intro leaf hleaf
    rcases List.mem_cons.1 hleaf with rfl | hleaf
    · exact ⟨.inr rfl, fun _ => rfl⟩
    · obtain rfl := List.mem_singleton.1 hleaf
      exact ⟨.inr rfl, fun _ => rfl⟩
  · rw [Schema.exists_coerce_iff isFinished_calendar ht rfl rfl openingQuery hlarge]
    intro hall
    exact absurd ((hall (.int 2147483648) (.head _)).2 rfl) (by decide)

/-- A day passes validation, as any value does for a scalar that is not built in, and is refused
when it is coerced. -/
theorem not_coerces_date :
    calendar.registry.IsFinished ∧
    (.scalar { name := "Date" } : NamedType Unit Thing) ∈ calendar.registry.types ∧
    (.scalar { name := "Date" } : NamedType Unit Thing).isInput ∧
    Validation.has (calendar.validationScope openingQuery) (.named "Date") (.string "2026-01-01") ∧
    calendar.registry.coerce (.named "Date") (.string "2026-01-01") =
      .error (.mismatch "Date" "\"2026-01-01\"") :=
  ⟨isFinished_calendar, types_calendar ▸ List.mem_append_right _ (.head _), rfl,
    by decide +kernel, by rfl⟩

end Bookshop

end Gazette
