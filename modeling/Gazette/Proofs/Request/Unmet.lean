import Gazette.Proofs.Request.Causes

/-!
# Arguments that interfaces leave out

The fields of an interface have no arguments, and the check of a registry compares them with those
of its objects by name and type only.  So a field that is selected through an interface has to bind
without arguments, which it does if every argument that it requires has a default (`Field.unmet?`).
Elsewhere validation asks for the arguments; so a response misses an argument only of fields that
an interface has, too (`Schema.misses_through_interface`).
-/

namespace Gazette

variable {σ ν : Type}

/-- The first argument of a field that is required and has no default. -/
def Field.unmet? (f : Field σ ν) : Option ArgumentSpec :=
  f.arguments.find? fun spec => spec.isRequired && spec.default.isNone

namespace Registry

variable {r : Registry σ ν}

/-! ## Binding to defaults only -/

/-- Whether given values are no others than the defaults of declarations. -/
def GivesDefaults (specs : List ArgumentSpec) (raw : Entries Value) : Prop :=
  ∀ spec ∈ specs, (raw.lookup spec.name).or spec.default = spec.default

theorem argumentValue_eq_missing_iff {field object name : String} {raw : Entries Value}
    {spec : ArgumentSpec} :
    r.argumentValue field raw spec = .error (.missingArgument object name) ↔
      (raw.lookup spec.name).or spec.default = none ∧ spec.isRequired ∧
        object = field ∧ name = spec.name := by
  unfold argumentValue
  split
  · rename_i value hvalue
    refine ⟨fun h => ?_, fun h => by rw [hvalue] at h; cases h.1⟩
    split at h
    · cases h
    · rename_i reason _
      cases reason <;> cases h
  · rename_i hnone
    split
    · rename_i hrequired
      simp [hnone, hrequired, eq_comm]
    · rename_i hrequired
      simp [hrequired]

/-- A required declaration without a default, before which all have values, is the first unmet
one. -/
theorem unmet?_of_missing {f : Field σ ν} {raw : Entries Value}
    (hraw : GivesDefaults f.arguments raw) {before after : List ArgumentSpec} {spec : ArgumentSpec}
    (hsplit : f.arguments = before ++ spec :: after)
    (hbefore : ∀ other ∈ before, ∃ found, r.argumentValue f.name raw other = .ok found)
    (hrequired : spec.isRequired) (hdefault : spec.default = none) : f.unmet? = some spec := by
  have hmet : before.find? (fun spec => spec.isRequired && spec.default.isNone) = none := by
    refine List.find?_eq_none.2 fun other hother hunmet => ?_
    simp only [Bool.and_eq_true, Option.isNone_iff_eq_none] at hunmet
    obtain ⟨found, hfound⟩ := hbefore other hother
    have hlookup := hraw other (hsplit ▸ List.mem_append_left _ hother)
    have hmissing : r.argumentValue f.name raw other =
        .error (.missingArgument f.name other.name) :=
      argumentValue_eq_missing_iff.2 ⟨hlookup.trans hunmet.2, hunmet.1, rfl, rfl⟩
    cases hfound.symm.trans hmissing
  rw [Field.unmet?, hsplit, List.find?_append, hmet, Option.none_or, List.find?_cons_of_pos]
  simp [hrequired, hdefault]

theorem exists_unmet?_of_bind {f : Field σ ν} {raw : Entries Value}
    (hnodup : (f.arguments.map ArgumentSpec.name).Nodup)
    (hknown : ∀ name ∈ raw.names, name ∈ f.arguments.map ArgumentSpec.name)
    (hraw : GivesDefaults f.arguments raw) {field argument : String}
    (h : r.bind f.name f.arguments raw = .error (.missingArgument field argument)) :
    f.name = field ∧ ∃ spec, f.unmet? = some spec ∧ spec.name = argument := by
  obtain ⟨before, spec, after, hsplit, hbefore, hvalue⟩ :=
    exists_of_bind_eq_error hnodup hknown h
  obtain ⟨hlookup, hrequired, rfl, rfl⟩ := argumentValue_eq_missing_iff.1 hvalue
  have hdefault : spec.default = none :=
    (hraw spec (hsplit ▸ List.mem_append_right _ (.head _))).symm.trans hlookup
  exact ⟨rfl, spec, unmet?_of_missing hraw hsplit hbefore hrequired hdefault, rfl⟩

/-- A field whose defaults coerce binds without arguments unless one of them is unmet; then it
misses the first such one. -/
theorem bind_nil {f : Field σ ν} (hnodup : (f.arguments.map ArgumentSpec.name).Nodup)
    (hcoerces : ∀ spec ∈ f.arguments, ∀ value ∈ spec.default,
      ∃ coerced, r.coerce spec.type value = .ok coerced) :
    match f.unmet? with
    | none => ∃ b, r.bind f.name f.arguments [] = .ok b
    | some spec => r.bind f.name f.arguments [] = .error (.missingArgument f.name spec.name) := by
  have hraw : GivesDefaults f.arguments [] := fun _ _ => rfl
  cases hbind : r.bind f.name f.arguments [] with
  | ok b =>
    have hmet : f.unmet? = none := by
      refine List.find?_eq_none.2 fun spec hspec hunmet => ?_
      simp only [Bool.and_eq_true, Option.isNone_iff_eq_none] at hunmet
      have hmissing : r.argumentValue f.name [] spec =
          .error (.missingArgument f.name spec.name) :=
        argumentValue_eq_missing_iff.2 ⟨hunmet.2, hunmet.1, rfl, rfl⟩
      cases hmissing.symm.trans (argumentValue_of_bind hnodup hbind spec hspec)
    rw [hmet]
    exact ⟨b, rfl⟩
  | error e =>
    obtain ⟨before, spec, after, hsplit, hbefore, hvalue⟩ :=
      exists_of_bind_eq_error hnodup (List.forall_mem_nil _) hbind
    have hspec : spec ∈ f.arguments := hsplit ▸ List.mem_append_right _ (.head _)
    simp only [argumentValue, List.lookup_nil, Option.none_or] at hvalue
    cases hdefault : spec.default with
    | some value =>
      obtain ⟨coerced, hcoerced⟩ := hcoerces spec hspec value hdefault
      simp only [hdefault, hcoerced] at hvalue
      cases hvalue
    | none =>
      simp only [hdefault] at hvalue
      split at hvalue
      · rename_i hrequired
        rw [unmet?_of_missing hraw hsplit hbefore hrequired hdefault]
        exact congrArg Except.error (Except.error.inj hvalue).symm
      · cases hvalue

/-- Whether an object has a field of a name that an interface of the object has, too. -/
def Shares (r : Registry σ ν) (o : ObjectType σ ν) (name : String) : Prop :=
  ∃ i f, r.find? i.name = some (.interface i) ∧ o.isA i.name ∧ f ∈ i.fields ∧ f.name = name

end Registry

namespace Execution

/-! ## Arguments where fields are selected -/

/-- Whether an outline is that of an object, or of an interface of the object. -/
inductive Tells (r : Registry σ ν) : Outline → ObjectType σ ν → Prop
  | object (o : ObjectType σ ν) : Tells r (Outline.ofType (.object o)) o
  | interface {i : InterfaceType} {o : ObjectType σ ν} (hi : r.find? i.name = some (.interface i))
    (hisA : o.isA i.name) : Tells r (Outline.ofType (.interface i : NamedType σ ν)) o

/-- Whether a field is selected with declared arguments, among them all that it needs, or without
arguments where an interface of its object has it. -/
def Supplies (r : Registry σ ν) (o : ObjectType σ ν) (field : Field σ ν) (head : FieldHead) :
    Prop :=
  DeclaresWritten o field head ∧
    ((∀ spec ∈ field.arguments, spec.isRequired → spec.default = none →
        spec.name ∈ head.arguments.map Prod.fst) ∨
      head.arguments = [] ∧ r.Shares o field.name)

variable {scope : Scope σ ν}

theorem needed_of_argumentIssues {specs : List ArgumentSpec} {arguments : Arguments}
    {scope : Validation.Scope} (h : Validation.argumentIssues scope specs arguments = []) :
    ∀ spec ∈ specs, spec.isRequired → spec.default = none →
      spec.name ∈ arguments.map Prod.fst := by
  intro spec hspec hrequired hdefault
  simp only [Validation.argumentIssues, List.append_eq_nil_iff, List.flatMap_eq_nil_iff] at h
  have hspec := h.2 spec hspec
  simp only [hrequired, hdefault, Option.isNone_none, true_and, ite_eq_right_iff,
    List.cons_ne_nil, imp_false] at hspec
  rw [Option.isNone_iff_eq_none, Entries.lookup_eq_none_iff, not_not] at hspec
  exact hspec

theorem tells_of_isA (hkeeps : scope.registry.KeepsInterfaces) {o : ObjectType σ ν} {name : String}
    {t : NamedType σ ν} (ho : scope.registry.object? o.name = some o)
    (hfind : scope.registry.find? name = some t) (h : t = .object o ∨ o.isA name) :
    Tells scope.registry (Outline.ofType t) o := by
  rcases h with rfl | hisA
  · exact .object o
  · obtain ⟨i, hi, -⟩ := hkeeps o ho name hisA
    obtain rfl := Option.some.inj (hi.symm.trans hfind)
    have hname : i.name = name := (Registry.name_of_find? hi).2
    exact .interface (hname ▸ hi) (hname ▸ hisA)

/-- Validation asks for the arguments that a field needs, unless it is selected through an
interface. -/
theorem grants_supplies (hkeeps : scope.registry.KeepsInterfaces) :
    Grants scope (Tells scope.registry) (Supplies scope.registry) where
  inside name o t ho hfind :=
    tells_of_isA hkeeps ho.object?_eq hfind (ho.eq_object_or_isA hfind)
  fragment name o t ho happlies hfind :=
    tells_of_isA hkeeps ho hfind (Registry.eq_object_or_isA_of_applies ho happlies hfind)
  field t o outline head ht ho hfind hissues := by
    cases ht with
    | object =>
      obtain ⟨own, hown, htype, harguments⟩ := Outline.represents_object o _ _ hfind
      rw [← harguments] at hissues
      refine ⟨own, hown, htype, fun e he => ?_, .inl (needed_of_argumentIssues hissues)⟩
      obtain ⟨spec, hspec, hname⟩ := names_of_argumentIssues hissues e he
      exact hname ▸ List.mem_map_of_mem hspec
    | @interface i _ hi hisA =>
      obtain ⟨i', hi', hcovers⟩ := hkeeps o ho i.name hisA
      obtain rfl := NamedType.interface.inj (Option.some.inj (hi'.symm.trans hi))
      obtain ⟨own, hown, htype, -⟩ := hcovers _ _ hfind
      simp only [Outline.ofType, List.find?_map, Function.comp_def] at hfind
      obtain ⟨f, hf, rfl⟩ := Option.map_eq_some_iff.1 hfind
      have hnone : head.arguments = [] := by
        refine List.eq_nil_iff_forall_not_mem.2 fun e he => ?_
        obtain ⟨spec, hspec, -⟩ := names_of_argumentIssues hissues e he
        cases hspec
      have hname : own.name = head.name := key_of_find? hown
      have hshared : f.name = own.name := by
        rw [hname]
        simpa using List.find?_some hf
      refine ⟨own, hown, htype, ?_, .inr ⟨hnone, i', f, hi', hisA, List.mem_of_find?_eq_some hf,
        hshared⟩⟩
      rw [DeclaresWritten, hnone]
      exact List.forall_mem_nil _

/-- Whether an error that an argument is missing is one that a resolver returns, or is about the
first unmet argument of a field that an interface of the object has, too. -/
def MissesShared (r : Registry σ ν) (e : FieldError) : Prop :=
  ∀ field argument, e = .missingArgument field argument →
    ∃ o, r.object? o.name = some o ∧ ∃ own ∈ o.fields, own.role = .ordinary ∧
      (own.Returns e ∨ own.name = field ∧ r.Shares o field ∧
        ∃ spec, own.unmet? = some spec ∧ spec.name = argument)

variable [Node ν]

/-- An argument that is missing was missed by the resolver, or where arguments are bound. -/
theorem returns_or_bind_of_missing {r : Registry σ ν} {object : String} {f : Field σ ν}
    {parent : ν} {raw : Entries Value} {s s' : σ} {t : NamedType σ ν}
    (hfind : r.find? f.type.baseName = some t) {field argument : String}
    (h : resolveField r object f parent raw s = (.error (.missingArgument field argument), s')) :
    f.Returns (.missingArgument field argument) ∨
      r.bind f.name f.arguments raw = .error (.missingArgument field argument) := by
  unfold resolveField at h
  split at h
  · rename_i hbind
    exact .inr (Except.error.inj (congrArg Prod.fst h) ▸ hbind)
  · split at h
    · rename_i hresult
      obtain rfl := Except.error.inj (congrArg Prod.fst h)
      rcases fieldResult_eq_error hresult with hreturns | ⟨-, he⟩
      · exact .inl hreturns
      · cases he
    · rcases Registry.complete_eq_error hfind (congrArg Prod.fst h) with hunfit | hmisfit
      · cases hunfit
      · obtain ⟨expected, found, he⟩ := hmisfit.exists_typeMismatch
        cases he

omit [Node ν] in
theorem givesDefaults_withDefaults {specs : List ArgumentSpec}
    (hnodup : (specs.map ArgumentSpec.name).Nodup) :
    Registry.GivesDefaults specs (withDefaults specs []) :=
  fun _ hspec => lookup_withDefaults hnodup [] hspec

/-- Fields that are selected with what they need miss no argument but an unmet one that an
interface leaves out. -/
theorem failsAs_missesShared (hclosed : scope.registry.IsClosed)
    (hnodup : ∀ o, scope.registry.object? o.name = some o → ∀ f ∈ o.fields, f.role = .ordinary →
      (f.arguments.map ArgumentSpec.name).Nodup) :
    FailsAs scope (Supplies scope.registry) (MissesShared scope.registry) := by
  rintro o own head values parent s s' - ho hown hrole ⟨hdeclares, hsupplies⟩ hwritten hresolve
    field argument rfl
  obtain ⟨t, ht⟩ := hclosed.field o.name o ho own hown
  have hmissing := returns_or_bind_of_missing ht hresolve
  refine ⟨o, ho, own, hown, hrole, hmissing.imp_right fun hbind => ?_⟩
  have hnodup := hnodup o ho own hown hrole
  have hknown := names_of_declaresWritten hdeclares hwritten
  rcases hsupplies with hneeded | ⟨hnone, hshared⟩
  · -- the argument is written, so it is not missing
    obtain ⟨before, spec, after, hsplit, -, hvalue⟩ :=
      Registry.exists_of_bind_eq_error hnodup hknown hbind
    obtain ⟨hlookup, hrequired, -⟩ := Registry.argumentValue_eq_missing_iff.1 hvalue
    have hspec : spec ∈ own.arguments := hsplit ▸ List.mem_append_right _ (.head _)
    rw [lookup_withDefaults hnodup values hspec, Option.or_eq_none_iff] at hlookup
    have hmem := hneeded spec hspec hrequired hlookup.2
    rw [← names_of_written hwritten, ← Entries.isSome_lookup_iff, hlookup.1] at hmem
    cases hmem
  · rw [hnone] at hwritten
    obtain rfl := Except.ok.inj hwritten
    obtain ⟨rfl, hunmet⟩ := Registry.exists_unmet?_of_bind hnodup hknown
      (givesDefaults_withDefaults hnodup) hbind
    exact ⟨rfl, hshared, hunmet⟩

end Execution

namespace Schema

open Execution

variable [Node ν] {schema : Schema σ ν}

omit [Node ν] in
theorem shares_of_shares_executable (hfinished : schema.registry.IsFinished) {o : ObjectType σ ν}
    (ho : .object o ∈ schema.registry.types) {name : String}
    (h : schema.executable.Shares (schema.registry.lifted schema.root o) name) :
    schema.registry.Shares o name := by
  obtain ⟨i, f, hi, hisA, hf, hname⟩ := h
  obtain ⟨i', hi', heq, -⟩ :=
    hfinished.isWellFormed.implements o ho i.name (List.contains_iff_mem.1 hisA)
  have hfind : schema.registry.find? i.name = some (.interface i') :=
    heq ▸ hfinished.isRegular.find?_of_mem hi'
  have hlifted := Registry.find?_withIntrospection_of_some hfind schema.root
  obtain rfl : i = i' := NamedType.interface.inj (Option.some.inj (hi.symm.trans hlifted))
  exact ⟨i, f, hfind, hisA, hf, hname⟩

/-- Each object declares the fields of its interfaces with the same types, and each of them binds
without arguments if it has no unmet one.  In a response an argument is missing only for such a
field, and it is the first unmet one, unless a resolver says so itself. -/
theorem misses_through_interface (hfinished : schema.registry.IsFinished) :
    (∀ o i f, .object o ∈ schema.registry.types → .interface i ∈ schema.registry.types →
      o.isA i.name → f ∈ i.fields →
      ∃ own, o.field? f.name = some own ∧ own.type = f.type ∧
        match own.unmet? with
        | none => ∃ b, schema.registry.bind own.name own.arguments [] = .ok b
        | some spec => schema.registry.bind own.name own.arguments [] =
            .error (.missingArgument own.name spec.name)) ∧
    ∀ request s, ∀ e ∈ (schema.respond request s).1.errors, ∀ field argument location,
      e.cause = .field (.missingArgument field argument) location →
      ∃ o own, .object o ∈ schema.registry.types ∧ own ∈ o.fields ∧
        (own.Returns (.missingArgument field argument) ∨
          own.name = field ∧ schema.registry.Shares o field ∧
            ∃ spec, own.unmet? = some spec ∧ spec.name = argument) := by
  have hregular := hfinished.isRegular
  have hwell := hfinished.isWellFormed
  refine ⟨fun o i f ho hi hisA hf => ?_, fun request s e he field argument location hcause => ?_⟩
  · obtain ⟨i', hi', hname, hfields⟩ := hwell.implements o ho i.name (List.contains_iff_mem.1 hisA)
    have hfind : schema.registry.find? i.name = some (.interface i') :=
      hname ▸ hregular.find?_of_mem hi'
    obtain rfl : i = i' := NamedType.interface.inj
      (Option.some.inj ((hregular.find?_of_mem hi).symm.trans hfind))
    obtain ⟨own, hown, hownname, htype⟩ := hfields f hf
    exact ⟨own, hownname ▸ hregular.field?_of_mem ho hown, htype,
      Registry.bind_nil (hregular.arguments ho hown) (hwell.default o ho own hown)⟩
  · have hkeeps := hfinished.keepsInterfaces_withIntrospection schema.root
    have hclosed := hfinished.isClosed_withIntrospection schema.root
    have hnodup : ∀ O, schema.executable.object? O.name = some O → ∀ F ∈ O.fields,
        F.role = .ordinary → (F.arguments.map ArgumentSpec.name).Nodup := by
      intro O hO F hF hrole
      obtain ⟨o, f, ho, hf, rfl, rfl⟩ := Registry.exists_of_ordinary hO hF hrole
      exact hregular.arguments ho hf
    have hmisses : MissesShared schema.executable (.missingArgument field argument) :=
      property_of_mem_errors (P := Supplies schema.executable) (fun _ => grants_supplies hkeeps)
        Tells.object (fun _ => failsAs_missesShared hclosed hnodup) he hcause
    obtain ⟨O, hO, F, hF, hrole, hcases⟩ := hmisses field argument rfl
    obtain ⟨o, own, ho, hown, rfl, rfl⟩ := Registry.exists_of_ordinary hO hF hrole
    refine ⟨o, own, ho, hown, hcases.imp Field.Returns.of_liftField ?_⟩
    rintro ⟨hname, hshares, hunmet⟩
    exact ⟨hname, shares_of_shares_executable hfinished ho hshares, hunmet⟩

end Schema

namespace Bookshop

/-- A book whose title is asked for in some language. -/
def translatedBook : ObjectType Unit Thing where
  name := "Book"
  implements := ["Titled"]
  fields := [{ constant "title" (.namedNonNull builtin.string) (.string "Emma") with
    arguments := [{ name := "language", type := .namedNonNull builtin.string }] }]

/-- The root offers a book as something with a title. -/
def translatedRoot : ObjectType Unit Thing where
  name := "Query"
  fields := [constant "item" (.named "Titled") (.node (.book "Emma"))]

/-- Whatever has a title that takes no language. -/
def translatedTitled : InterfaceType where
  name := "Titled"
  fields := [{ name := "title", type := .namedNonNull builtin.string }]

/-- A shop with a book whose title takes a language. -/
def translatedShop : Schema Unit Thing where
  registry := (Registry.empty "Query").performAll [.register (.interface translatedTitled),
    .register (.object translatedBook), .register (.object translatedRoot)]
  root := .shop
  depthLimit := Schema.defaultDepthLimit

theorem types_translatedShop : translatedShop.registry.types =
    Registry.builtinScalars.map .scalar ++
      [.interface translatedTitled, .object translatedBook, .object translatedRoot] := rfl

theorem isFinished_translatedShop : translatedShop.registry.IsFinished :=
  ⟨⟨"Query", _, rfl⟩, by rfl⟩

/-- A request for the title through the interface. -/
def itemQuery : Request where
  query := "\x7b item \x7b title \x7d \x7d"

theorem exists_error_title : ∃ e ∈ (translatedShop.respond itemQuery ()).1.errors, ∃ location,
    e.cause = .field (.missingArgument "title" "language") location := by
  have herrors : (((translatedShop.respond itemQuery ()).1.errors.filterMap
      (ResponseError.failure? [])).any fun failure =>
        failure.error = .missingArgument "title" "language") = true := by decide +kernel
  obtain ⟨failure, hfailure, herror⟩ := List.any_eq_true.1 herrors
  obtain ⟨e, he, hsome⟩ := List.mem_filterMap.1 hfailure
  have herror : failure.error = .missingArgument "title" "language" := of_decide_eq_true herror
  exact ⟨e, he, _, herror ▸ ResponseError.cause_of_failure? hsome⟩

/-- The title of what has a title needs a language that cannot be given, so it is missing. -/
theorem not_bound_title :
    translatedShop.registry.IsFinished ∧
    (.interface translatedTitled : NamedType Unit Thing) ∈ translatedShop.registry.types ∧
    (.object translatedBook : NamedType Unit Thing) ∈ translatedShop.registry.types ∧
    translatedBook.isA translatedTitled.name ∧
    (∃ f ∈ translatedTitled.fields, ∃ own, translatedBook.field? f.name = some own ∧
      translatedShop.registry.bind own.name own.arguments [] =
        .error (.missingArgument "title" "language")) ∧
    (translatedShop.respond itemQuery ()).1.data.text = (Value.object [("item", .null)]).text ∧
    ∃ e ∈ (translatedShop.respond itemQuery ()).1.errors, ∃ location,
      e.cause = .field (.missingArgument "title" "language") location :=
  ⟨isFinished_translatedShop, types_translatedShop ▸ List.mem_append_right _ (.head _),
    types_translatedShop ▸ List.mem_append_right _ (.tail _ (.head _)), rfl,
    ⟨_, .head _, _, rfl, rfl⟩, by decide +kernel, exists_error_title⟩

/-- The title binds with a language only, and it is what the response misses. -/
theorem misses_through_interface_title :
    translatedShop.registry.IsFinished ∧
    (∃ own, translatedBook.field? "title" = some own ∧ own.unmet?.map ArgumentSpec.name =
      some "language" ∧ match own.unmet? with
        | none => ∃ b, translatedShop.registry.bind own.name own.arguments [] = .ok b
        | some spec => translatedShop.registry.bind own.name own.arguments [] =
            .error (.missingArgument own.name spec.name)) ∧
    ∃ e ∈ (translatedShop.respond itemQuery ()).1.errors, ∃ location,
      e.cause = .field (.missingArgument "title" "language") location ∧
      ∃ o own, .object o ∈ translatedShop.registry.types ∧ own ∈ o.fields ∧
        (own.Returns (.missingArgument "title" "language") ∨
          own.name = "title" ∧ translatedShop.registry.Shares o "title" ∧
            ∃ spec, own.unmet? = some spec ∧ spec.name = "language") := by
  obtain ⟨hbind, herrors⟩ := Schema.misses_through_interface isFinished_translatedShop
  obtain ⟨e, he, location, hcause⟩ := exists_error_title
  obtain ⟨own, hown, -, hmatch⟩ := hbind translatedBook translatedTitled _
    (types_translatedShop ▸ List.mem_append_right _ (.tail _ (.head _)))
    (types_translatedShop ▸ List.mem_append_right _ (.head _)) rfl (.head _)
  refine ⟨isFinished_translatedShop, ⟨own, hown, ?_, hmatch⟩, e, he, location, hcause,
    herrors itemQuery () e he "title" "language" location hcause⟩
  rw [← Option.some.inj hown]
  rfl

end Bookshop

end Gazette
