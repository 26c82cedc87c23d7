import Gazette.Proofs.Schema.Canonical

/-!
# Reading bound arguments

In a finished registry the defaults of arguments coerce, so that binding fails for what is given or
for what is missing only.  What binding gives is canonical (`IsCanonical`), and resolvers read it as
the types of the arguments promise (`BoundArguments.Reads`): `Registry.arguments_are_readable`.
-/

namespace Gazette

/-- Whether a type is the one with a name, whether or not null is a value of it. -/
def TypeRef.isNamed (name : String) : TypeRef → Bool
  | named n => n = name
  | nonNull inner => inner.isNamed name
  | list _ => false

variable {σ ν : Type}

/-- What resolvers read of an argument, by its type. -/
structure BoundArguments.Reads (r : Registry σ ν) (b : BoundArguments) (spec : ArgumentSpec) :
    Prop where
  string : spec.type.isNamed builtin.string ∨ spec.type.isNamed builtin.id →
    spec.type.isNonNull → ∃ s, b.string spec.name = .ok s
  int : spec.type.isNamed builtin.int → spec.type.isNonNull →
    ∃ i, b.int spec.name = .ok i ∧ Registry.minInt32 ≤ i ∧ i ≤ Registry.maxInt32
  optionalString : spec.type.isNamed builtin.string ∨ spec.type.isNamed builtin.id →
    (b.optionalString spec.name = none ↔
      b.get? spec.name = none ∨ b.get? spec.name = some .null)
  enumName : ∀ e, .enum e ∈ r.types → spec.type.isNamed e.name →
    (b.get? spec.name = none ∨ b.get? spec.name = some .null) ∧ b.enumName spec.name = none ∨
      ∃ member, e.contains member ∧ b.get? spec.name = some (.enum member) ∧
        b.enumName spec.name = some member
  /-- Strings are read as names, too, and values of further types are none. -/
  enumName_other : (∀ e, .enum e ∈ r.types → ¬ spec.type.isNamed e.name) →
    b.enumName spec.name =
      if spec.type.isNamed builtin.string ∨ spec.type.isNamed builtin.id
      then b.optionalString spec.name else none

namespace Registry

/-- Whether an error of binding is about what is given, or about an argument that is left out,
required and without a default. -/
inductive Blames (r : Registry σ ν) (field : String) (specs : List ArgumentSpec)
    (raw : Entries Value) : FieldError → Prop
  | undeclared {name : String} (hraw : name ∈ raw.names)
    (hname : name ∉ specs.map ArgumentSpec.name) :
    Blames r field specs raw (.unknownArgument field name)
  | uncoerced {spec : ArgumentSpec} (hspec : spec ∈ specs) {value : Value} {reason : CoercionError}
    (hraw : (spec.name, value) ∈ raw) (hreason : r.coerce spec.type value = .error reason) :
    Blames r field specs raw (argumentError field spec reason)
  | missing {spec : ArgumentSpec} (hspec : spec ∈ specs) (hraw : spec.name ∉ raw.names)
    (hrequired : spec.isRequired) (hdefault : spec.default = none) :
    Blames r field specs raw (.missingArgument field spec.name)

variable {r : Registry σ ν} {type : TypeRef} {name : String} {c : Value}

/-! ## Canonical values of single types -/

theorem IsCanonical.ne_null (h : r.IsCanonical type c) (hnonNull : type.isNonNull) : c ≠ .null := by
  cases type with
  | nonNull inner => exact h.1
  | list item => cases hnonNull
  | named name => cases hnonNull

theorem IsCanonical.isCanonicalLeaf (h : r.IsCanonical type c) (hname : type.isNamed name) :
    c = .null ∨ r.IsCanonicalLeaf name c := by
  induction type with
  | nonNull inner ih => exact ih h.2 hname
  | list item ih => cases hname
  | named n =>
    obtain rfl : n = name := of_decide_eq_true hname
    exact h

theorem IsRegular.find?_scalar (h : r.IsRegular) (hname : isBuiltin name) :
    ∃ t, r.find? name = some (.scalar t) := by
  obtain ⟨t, ht, rfl⟩ := List.mem_map.1 (List.contains_iff_mem.1 hname)
  exact ⟨t, h.find?_of_mem (h.builtins t ht)⟩

theorem IsCanonicalLeaf.string (h : r.IsCanonicalLeaf name c) (hregular : r.IsRegular)
    (hname : name = builtin.string ∨ name = builtin.id) : ∃ s, c = .string s := by
  have hbuiltin : isBuiltin name := by rcases hname with rfl | rfl <;> decide
  obtain ⟨t, ht⟩ := hregular.find?_scalar hbuiltin
  rw [IsCanonicalLeaf, ht] at h
  rcases hname with rfl | rfl <;> simpa [builtin] using h

theorem IsCanonicalLeaf.int (h : r.IsCanonicalLeaf builtin.int c) (hregular : r.IsRegular) :
    ∃ i, c = .int i ∧ minInt32 ≤ i ∧ i ≤ maxInt32 := by
  have hbuiltin : isBuiltin builtin.int := by decide
  obtain ⟨t, ht⟩ := hregular.find?_scalar hbuiltin
  rw [IsCanonicalLeaf, ht] at h
  simpa [builtin] using h

theorem IsCanonicalLeaf.enum (h : r.IsCanonicalLeaf name c) {e : EnumType}
    (hfind : r.find? name = some (.enum e)) : ∃ member, c = .enum member ∧ e.contains member := by
  rwa [IsCanonicalLeaf, hfind] at h

/-- A canonical value of `String` or `ID` is a string, or null. -/
theorem IsCanonical.eq_null_or_string (h : r.IsCanonical type c) (hregular : r.IsRegular)
    (hname : type.isNamed builtin.string ∨ type.isNamed builtin.id) :
    c = .null ∨ ∃ s, c = .string s := by
  rcases hname with hname | hname
  · exact (h.isCanonicalLeaf hname).imp_right fun h => h.string hregular (.inl rfl)
  · exact (h.isCanonicalLeaf hname).imp_right fun h => h.string hregular (.inr rfl)

/-- A canonical value has a name only if its type is an enum, `String` or `ID`. -/
theorem IsCanonical.name?_eq_none (h : r.IsCanonical type c)
    (henum : ∀ e, .enum e ∈ r.types → ¬ type.isNamed e.name)
    (hstring : ¬ (type.isNamed builtin.string ∨ type.isNamed builtin.id)) : c.name? = none := by
  induction type with
  | nonNull inner ih => exact ih h.2 henum hstring
  | list item ih =>
    rcases h with rfl | ⟨items, rfl, -⟩
    · rfl
    · rfl
  | named n =>
    rcases h with rfl | hleaf
    · rfl
    · unfold IsCanonicalLeaf at hleaf
      split at hleaf
      · rename_i e hfind
        obtain ⟨hmem, hname⟩ := name_of_find? hfind
        exact absurd (decide_eq_true hname.symm) (henum e hmem)
      · rcases hleaf with ⟨hname, -⟩ | ⟨-, i, rfl, -⟩ | ⟨-, n, rfl⟩ | ⟨-, b, rfl⟩
        · exact absurd (hname.imp decide_eq_true decide_eq_true) hstring
        · rfl
        · rfl
        · rfl
      · exact hleaf.elim

/-! ## Reading -/

/-- A canonical value, or none where none is required, is read as its type promises. -/
theorem reads_of_isCanonical (hregular : r.IsRegular) {b : BoundArguments} {spec : ArgumentSpec}
    (hcanonical : ∀ c, b.get? spec.name = some c → r.IsCanonical spec.type c)
    (hrequired : spec.type.isNonNull → b.get? spec.name ≠ none) : b.Reads r spec := by
  have hpresent (h : spec.type.isNonNull) :
      ∃ c, b.get? spec.name = some c ∧ r.IsCanonical spec.type c ∧ c ≠ .null := by
    obtain ⟨c, hc⟩ := Option.ne_none_iff_exists'.1 (hrequired h)
    exact ⟨c, hc, hcanonical c hc, (hcanonical c hc).ne_null h⟩
  have hstring (hname : spec.type.isNamed builtin.string ∨ spec.type.isNamed builtin.id) {c : Value}
      (hc : b.get? spec.name = some c) : c = .null ∨ ∃ s, c = .string s :=
    (hcanonical c hc).eq_null_or_string hregular hname
  constructor
  case string =>
    intro hname hnonNull
    obtain ⟨c, hc, -, hnull⟩ := hpresent hnonNull
    obtain ⟨s, rfl⟩ := (hstring hname hc).resolve_left hnull
    exact ⟨s, by simp only [BoundArguments.string, BoundArguments.optionalString, hc]⟩
  case int =>
    intro hname hnonNull
    obtain ⟨c, hc, hcanonical, hnull⟩ := hpresent hnonNull
    have hleaf := (hcanonical.isCanonicalLeaf hname).resolve_left hnull
    obtain ⟨i, rfl, hlow, hhigh⟩ := hleaf.int hregular
    have hfits := toInt64?_of_isInt32 hlow hhigh
    exact ⟨i, by simp only [BoundArguments.int, hc, Value.int, hfits], hlow, hhigh⟩
  case optionalString =>
    intro hname
    cases hc : b.get? spec.name with
    | none => simp [BoundArguments.optionalString, hc]
    | some c =>
      rcases hstring hname hc with rfl | ⟨s, rfl⟩
      · simp [BoundArguments.optionalString, hc]
      · simp [BoundArguments.optionalString, hc]
  case enumName =>
    intro e he hname
    cases hc : b.get? spec.name with
    | none => exact .inl ⟨.inl rfl, by rw [BoundArguments.enumName, hc]; rfl⟩
    | some c =>
      rcases (hcanonical c hc).isCanonicalLeaf hname with rfl | hleaf
      · exact .inl ⟨.inr rfl, by rw [BoundArguments.enumName, hc]; rfl⟩
      · obtain ⟨member, rfl, hmember⟩ := hleaf.enum (hregular.find?_of_mem he)
        exact .inr ⟨member, hmember, rfl, by rw [BoundArguments.enumName, hc]; rfl⟩
  case enumName_other =>
    intro henum
    cases hc : b.get? spec.name with
    | none => simp [BoundArguments.enumName, BoundArguments.optionalString, hc]
    | some c =>
      split
      · rename_i hname
        rcases hstring hname hc with rfl | ⟨s, rfl⟩
        · simp [BoundArguments.enumName, BoundArguments.optionalString, hc, Value.name?]
        · simp [BoundArguments.enumName, BoundArguments.optionalString, hc, Value.name?]
      · rename_i hname
        rw [BoundArguments.enumName, hc]
        exact (hcanonical c hc).name?_eq_none henum hname

/-- No error of binding is about a default, where defaults coerce. -/
theorem blames_of_bind {field : String} {specs : List ArgumentSpec} {raw : Entries Value}
    (hnodup : (specs.map ArgumentSpec.name).Nodup)
    (hdefaults : ∀ spec ∈ specs, ∀ value ∈ spec.default, ∃ c, r.coerce spec.type value = .ok c)
    {e : FieldError} (h : r.bind field specs raw = .error e) : r.Blames field specs raw e := by
  rw [bind_eq_head?] at h
  split at h
  · rename_i name hhead
    obtain ⟨hname, hnot⟩ := List.mem_filter.1 (List.mem_of_mem_head? hhead)
    exact Except.error.inj h ▸ .undeclared hname (by simpa using hnot)
  · obtain ⟨before, spec, after, rfl, -, hspec⟩ := (bindFrom_eq_error_iff hnodup).1 h
    have hmem : spec ∈ before ++ spec :: after := List.mem_append_right _ (.head _)
    rcases argumentValue_eq_error hspec with
      ⟨hnone, hrequired, rfl⟩ | ⟨value, reason, hvalue, hreason, rfl⟩
    · obtain ⟨hlookup, hdefault⟩ := Option.or_eq_none_iff.1 hnone
      exact .missing hmem (Entries.lookup_eq_none_iff.1 hlookup) hrequired hdefault
    · rcases Option.or_eq_some_iff.1 hvalue with hlookup | ⟨-, hdefault⟩
      · exact .uncoerced hmem (Entries.mem_of_lookup hlookup) hreason
      · obtain ⟨c, hc⟩ := hdefaults spec hmem value hdefault
        cases hc.symm.trans hreason

/-- In a finished registry, no default is the reason why the arguments of a field do not bind, and
the record of arguments that do reads as their types promise. -/
theorem arguments_are_readable (h : r.IsFinished) {o : ObjectType σ ν} (ho : .object o ∈ r.types)
    {f : Field σ ν} (hf : f ∈ o.fields) (field : String) (raw : Entries Value) :
    (∀ e, r.bind field f.arguments raw = .error e → r.Blames field f.arguments raw e) ∧
    ∀ b, r.bind field f.arguments raw = .ok b → ∀ spec ∈ f.arguments, b.Reads r spec := by
  have hnodup := h.isRegular.arguments ho hf
  refine ⟨fun e he => blames_of_bind hnodup (h.isWellFormed.default o ho f hf) he,
    fun b hb spec hspec => ?_⟩
  refine reads_of_isCanonical h.isRegular (fun c => isCanonical_of_bind hnodup hb hspec) ?_
  intro hrequired hnone
  rcases argumentValue_eq_ok (argumentValue_of_bind hnodup hb spec hspec) with
    ⟨value, c, -, hc⟩ | ⟨-, hoptional⟩
  · cases hc.symm.trans hnone
  · cases hrequired.symm.trans hoptional

end Registry

namespace Bookshop

/-- A shelf is chosen by its label; the order of its books has a default. -/
def shelfField : Field Unit Unit where
  name := "shelf"
  type := .named builtin.string
  arguments := [{ name := "label", type := .namedNonNull builtin.string },
    { name := "order", type := .namedNonNull "Order", default := some (.string "TITLE") },
    { name := "limit", type := .namedNonNull builtin.int }]

/-- The root of a shop with a labelled shelf. -/
def labelledRoot : ObjectType Unit Unit where
  name := "Query"
  fields := [shelfField]

/-- A shop with a labelled shelf. -/
def labelled : Registry Unit Unit := (Registry.empty "Query").performAll
  [.register (.enum { name := "Order", values := ["TITLE", "YEAR"] }),
    .register (.object labelledRoot)]

theorem isFinished_labelled : labelled.IsFinished := ⟨⟨"Query", _, rfl⟩, by rfl⟩

theorem types_labelled : labelled.types = Registry.builtinScalars.map .scalar ++
    [.enum { name := "Order", values := ["TITLE", "YEAR"] }, .object labelledRoot] := rfl

theorem mem_types_labelled : (.object labelledRoot : NamedType Unit Unit) ∈ labelled.types :=
  types_labelled ▸ List.mem_append_right _ (.tail _ (.head _))

/-- The record of a label and a limit has the default order as a name; without a limit, the limit
is to blame. -/
theorem arguments_are_readable_shelf :
    labelled.IsFinished ∧
    (.object labelledRoot : NamedType Unit Unit) ∈ labelled.types ∧
    shelfField ∈ labelledRoot.fields ∧
    (∃ b, labelled.bind "shelf" shelfField.arguments
        [("limit", .int 3), ("label", .string "novels")] = .ok b ∧
      b.enumName "order" = some "TITLE" ∧ ∀ spec ∈ shelfField.arguments, b.Reads labelled spec) ∧
    ∃ e, labelled.bind "shelf" shelfField.arguments [("label", .string "novels")] = .error e ∧
      labelled.Blames "shelf" shelfField.arguments [("label", .string "novels")] e := by
  have hfield : shelfField ∈ labelledRoot.fields := .head _
  have hreadable := Registry.arguments_are_readable isFinished_labelled mem_types_labelled hfield
  refine ⟨isFinished_labelled, mem_types_labelled, hfield, ⟨_, rfl, rfl, ?_⟩, _, rfl, ?_⟩
  · exact (hreadable "shelf" [("limit", .int 3), ("label", .string "novels")]).2 _ rfl
  · exact (hreadable "shelf" [("label", .string "novels")]).1 _ rfl

/-- A string is read as the name of an enum member though its type is no enum. -/
theorem enumName_label :
    labelled.IsFinished ∧
    (.object labelledRoot : NamedType Unit Unit) ∈ labelled.types ∧
    shelfField ∈ labelledRoot.fields ∧
    ∃ spec ∈ shelfField.arguments, (∀ e, .enum e ∈ labelled.types → ¬ spec.type.isNamed e.name) ∧
      ∃ b, labelled.bind "shelf" shelfField.arguments
          [("limit", .int 3), ("label", .string "novels")] = .ok b ∧
        b.enumName spec.name = some "novels" := by
  refine ⟨isFinished_labelled, mem_types_labelled, .head _, _, .head _, fun e he => ?_, _, rfl, rfl⟩
  rw [types_labelled] at he
  simp only [Registry.builtinScalars, List.map_cons, List.map_nil, List.cons_append,
    List.nil_append, List.mem_cons, reduceCtorEq, NamedType.enum.injEq, List.not_mem_nil,
    false_or, or_false] at he
  subst he
  decide

end Bookshop

end Gazette
