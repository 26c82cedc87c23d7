import Gazette.Proofs.Request.Selection
import Gazette.Proofs.Schema.Binding
import Gazette.Proofs.Schema.Lookup

/-!
# Arguments that bind

Written arguments that pass validation get values and bind (`exists_boundArguments`).  Three things
do not follow from validation and are asked for: a variable that is not given stands as a whole
argument, it does not fall back to null where null is no value, and integers are in the range of an
`Int` (`Scope.Admits`).
-/

namespace Gazette

/-! ## Literals -/

namespace Literal

variable {given values : String → Option Value}

mutual

/-- A literal has a value if its variables have, and it is the one that it has for fewer
variables. -/
theorem exists_eval? : (l : Literal) →
    (∀ name ∈ l.references, ∃ x, values name = some x ∧ ∀ y, given name = some y → y = x) →
    ∃ v, l.eval? values = some v ∧ ∀ w, l.eval? given = some w → w = v
  | .reference name, h => h name (by simp [references])
  | .null, _ => ⟨.null, rfl, fun _ hw => (Option.some.inj hw).symm⟩
  | .number n, _ => ⟨.number n, rfl, fun _ hw => (Option.some.inj hw).symm⟩
  | .string s, _ => ⟨.string s, rfl, fun _ hw => (Option.some.inj hw).symm⟩
  | .boolean b, _ => ⟨.boolean b, rfl, fun _ hw => (Option.some.inj hw).symm⟩
  | .enum name, _ => ⟨.enum name, rfl, fun _ hw => (Option.some.inj hw).symm⟩
  | .list items, h => by
    obtain ⟨vs, hvs, hall⟩ := exists_evalItems? items (by simpa only [references] using h)
    refine ⟨.list vs, by rw [eval?, hvs, Option.map_some], fun w hw => ?_⟩
    rw [eval?] at hw
    obtain ⟨ws, hws, rfl⟩ := Option.map_eq_some_iff.1 hw
    rw [hall ws hws]
  | .object members, h => by
    obtain ⟨vs, hvs, hall⟩ := exists_evalMembers? members (by simpa only [references] using h)
    refine ⟨.object vs, by rw [eval?, hvs, Option.map_some], fun w hw => ?_⟩
    rw [eval?] at hw
    obtain ⟨ws, hws, rfl⟩ := Option.map_eq_some_iff.1 hw
    rw [hall ws hws]

theorem exists_evalItems? : (items : List Literal) →
    (∀ name ∈ referencesOfItems items,
      ∃ x, values name = some x ∧ ∀ y, given name = some y → y = x) →
    ∃ vs, evalItems? values items = some vs ∧ ∀ ws, evalItems? given items = some ws → ws = vs
  | [], _ => ⟨[], rfl, fun _ hw => (Option.some.inj hw).symm⟩
  | l :: rest, h => by
    rw [referencesOfItems] at h
    obtain ⟨v, hv, hw⟩ := exists_eval? l fun name hname => h name (by simp [hname])
    obtain ⟨vs, hvs, hws⟩ := exists_evalItems? rest fun name hname => h name (by simp [hname])
    refine ⟨v :: vs, by rw [evalItems?, hv, hvs]; rfl, fun all hall => ?_⟩
    rw [evalItems?] at hall
    obtain ⟨w, hl, hall⟩ := Option.bind_eq_some_iff.1 hall
    obtain ⟨ws, hrest, hall⟩ := Option.bind_eq_some_iff.1 hall
    rw [← Option.some.inj hall, hw w hl, hws ws hrest]

theorem exists_evalMembers? : (members : List (String × Literal)) →
    (∀ name ∈ referencesOfMembers members,
      ∃ x, values name = some x ∧ ∀ y, given name = some y → y = x) →
    ∃ vs, evalMembers? values members = some vs ∧
      ∀ ws, evalMembers? given members = some ws → ws = vs
  | [], _ => ⟨[], rfl, fun _ hw => (Option.some.inj hw).symm⟩
  | (key, l) :: rest, h => by
    rw [referencesOfMembers] at h
    obtain ⟨v, hv, hw⟩ := exists_eval? l fun name hname => h name (by simp [hname])
    obtain ⟨vs, hvs, hws⟩ := exists_evalMembers? rest fun name hname => h name (by simp [hname])
    refine ⟨(key, v) :: vs, by rw [evalMembers?, hv, hvs]; rfl, fun all hall => ?_⟩
    rw [evalMembers?] at hall
    obtain ⟨w, hl, hall⟩ := Option.bind_eq_some_iff.1 hall
    obtain ⟨ws, hrest, hall⟩ := Option.bind_eq_some_iff.1 hall
    rw [← Option.some.inj hall, hw w hl, hws ws hrest]

end

end Literal

/-! ## Values that validation lets through -/

/-- Whether a value is no integer outside the range of an `Int`. -/
def Value.isWithinInt : Value → Bool
  | .number (.int n) => Registry.minInt32 ≤ n && n ≤ Registry.maxInt32
  | _ => true

namespace Validation

theorem has_of_fits {scope : Scope} {expected actual : TypeRef} {value : Value}
    (hfits : fits expected actual) (h : has scope actual value) : has scope expected value := by
  induction expected, actual using fits.induct generalizing value with
  | case1 a b ih =>
    rw [fits] at hfits
    rw [has, Bool.and_eq_true] at h ⊢
    exact ⟨h.1, ih hfits h.2⟩
  | case2 a b ih =>
    rw [fits] at hfits
    rw [has, Bool.and_eq_true] at h
    exact ih hfits h.2
  | case3 a b =>
    rw [fits, decide_eq_true_iff] at hfits
    rwa [hfits]
  | case4 a b ih =>
    rw [fits] at hfits
    unfold has at h ⊢
    cases value with
    | null => rfl
    | list items =>
      rw [List.all_eq_true] at h ⊢
      exact fun item hitem => ih hfits (h item hitem)
    | _ => exact ih hfits h
  | case5 a b _ _ _ _ => simp_all [fits]

theorem has_null {scope : Scope} {type : TypeRef} (h : type.isNonNull = false) :
    has scope type .null := by
  cases type with
  | nonNull inner => cases h
  | list item => simp [has]
  | named name => simp [has, Value.isNull]

end Validation

/-! ## Values that coerce -/

variable {σ ν : Type}

/-- What validation sees of the scope of a run. -/
def Execution.Scope.validation (scope : Execution.Scope σ ν) : Validation.Scope :=
  ⟨Outline.ofRegistry scope.registry, scope.registry.query, scope.registry.mutation, scope.given⟩

namespace Registry

/-- Whether the values of a type are leaves that arguments can be: those of a built-in scalar, or
the members of an enum. -/
def takesLeaf (r : Registry σ ν) (name : String) : Bool :=
  match r.find? name with
  | some (.scalar _) => isBuiltin name
  | some (.enum _) => true
  | _ => false

theorem exists_coerceScalar? {name : String} {value : Value} (hbuiltin : isBuiltin name)
    (hvalue : name = builtin.int → value.isWithinInt) (h : Validation.scalarHas name value) :
    ∃ c, coerceScalar? name value = some c := by
  simp only [isBuiltin, builtinScalars, List.map_cons, List.map_nil, List.contains_iff_mem,
    List.mem_cons, List.not_mem_nil, or_false] at hbuiltin
  rcases hbuiltin with rfl | rfl | rfl | rfl | rfl
  · cases value <;> simp_all [Validation.scalarHas, coerceScalar?, builtin]
  · cases value with
    | number n =>
      cases n with
      | int i =>
        have hrange := hvalue rfl
        rw [Value.isWithinInt, Bool.and_eq_true, decide_eq_true_iff, decide_eq_true_iff] at hrange
        simp_all [Validation.scalarHas, coerceScalar?, builtin, Option.isSome_iff_exists,
          Number.toInt64?]
      | float x => simp [Validation.scalarHas, builtin, Number.toInt64?] at h
    | _ => simp [Validation.scalarHas, builtin] at h
  · cases value <;> simp_all [Validation.scalarHas, coerceScalar?, builtin]
  · cases value <;> simp_all [Validation.scalarHas, coerceScalar?, builtin]
  · cases value with
    | number n =>
      cases n with
      | int i => exact ⟨_, by simp [coerceScalar?, builtin]; rfl⟩
      | float x => simp [Validation.scalarHas, builtin, Number.toInt64?] at h
    | string s => exact ⟨_, by simp [coerceScalar?, builtin]; rfl⟩
    | _ => simp [Validation.scalarHas, builtin] at h

end Registry

namespace Execution.Scope

variable {scope : Scope σ ν}

theorem find?_validation (name : String) :
    scope.validation.find? name = (scope.registry.find? name).map Outline.ofType :=
  Outline.find?_ofRegistry scope.registry name

/-- A value that validation lets through coerces to a type that is no list. -/
theorem exists_coerce {type : TypeRef} {value : Value} (hflat : Validation.itemType? type = none)
    (hleaf : scope.registry.takesLeaf type.baseName)
    (hvalue : type.baseName = builtin.int → value.isWithinInt)
    (h : Validation.has scope.validation type value) :
    ∃ c, scope.registry.coerce type value = .ok c := by
  induction type with
  | nonNull inner ih =>
    rw [Validation.has, Bool.and_eq_true, Bool.not_eq_true'] at h
    obtain ⟨c, hc⟩ := ih hflat hleaf hvalue h.2
    exact ⟨c, by rw [Registry.coerce, h.1]; exact hc⟩
  | list item ih => cases hflat
  | named name =>
    rw [Registry.coerce]
    by_cases hnull : value.isNull
    · exact ⟨.null, if_pos hnull⟩
    · rw [Validation.has, Bool.or_eq_true, or_iff_right hnull, Validation.namedHas,
        find?_validation] at h
      rw [if_neg hnull, Registry.coerceNamed]
      rw [TypeRef.baseName, Registry.takesLeaf] at hleaf
      split at hleaf
      · rename_i t hfind
        rw [hfind] at h ⊢
        have hname : t.name = name := (Registry.name_of_find? hfind).2
        obtain ⟨c, hc⟩ := Registry.exists_coerceScalar? hleaf hvalue (hname ▸ h)
        exact ⟨c, by simp only [hc]⟩
      · rename_i e hfind
        rw [hfind] at h ⊢
        simp only [Option.map_some, Outline.ofType] at h
        cases hmember : value.name? with
        | none => simp [hmember] at h
        | some member =>
          rw [hmember] at h
          exact ⟨.enum member, if_pos h⟩
      · cases hleaf

/-! ## Variables -/

/-- Whether variables have values: what cannot be null is given, and defaults have their types. -/
structure Supplied (scope : Execution.Scope σ ν) : Prop where
  given : ∀ v ∈ scope.declarations, v.type.isNonNull → (scope.given v.name).isSome
  default : ∀ v ∈ scope.declarations, ∀ value, v.default = some value →
    v.type.isNonNull = false ∧ Validation.has scope.validation v.type value

/-- Whether all variables of a literal are given, unless it is a variable as a whole. -/
def isWhole (scope : Execution.Scope σ ν) : Literal → Bool
  | .reference _ => true
  | literal => (literal.eval? scope.given).isSome

/-- Whether a literal is a variable that is not given and falls back to null. -/
def fallsBackToNull (scope : Execution.Scope σ ν) : Literal → Bool
  | .reference name => (scope.given name).isNone && (scope.valueOf? name).any Value.isNull
  | _ => false

/-- What is asked of an argument of a type beyond validation: a variable that is not given is all of
it and does not fall back to null if the type has no null, and integers are in the range of an
`Int`. -/
structure Admits (scope : Execution.Scope σ ν) (type : TypeRef) (literal : Literal) : Prop where
  whole : scope.isWhole literal
  nullable : scope.fallsBackToNull literal → type.isNonNull = false
  range : type.baseName = builtin.int → (literal.eval? scope.valueOf?).all Value.isWithinInt

/-- A declared variable has its given value, or else falls back. -/
theorem Supplied.exists_valueOf? (h : scope.Supplied) {name : String}
    (hname : name ∈ scope.declarations.map VariableDeclaration.name) :
    ∃ v ∈ scope.declarations, scope.declarations.find? (fun v => v.name = name) = some v ∧
      v.name = name ∧ ∃ x, scope.valueOf? name = some x ∧
        (scope.given name).or v.fallback? = some x := by
  obtain ⟨w, hw, hwname⟩ := List.mem_map.1 hname
  obtain ⟨v, hv⟩ := Option.isSome_iff_exists.1
    (List.find?_isSome (p := fun v : VariableDeclaration => v.name = name)|>.2
      ⟨w, hw, by simpa using hwname⟩)
  have hmem := List.mem_of_find?_eq_some hv
  have hvname : v.name = name := key_of_find? hv
  have hvalue : scope.valueOf? name = (scope.given name).or v.fallback? := by
    rw [valueOf?, hv, Option.bind_some, hvname]
  refine ⟨v, hmem, hv, hvname, ?_⟩
  rw [hvalue]
  have hsome : ((scope.given name).or v.fallback?).isSome := by
    rw [Option.isSome_or, Bool.or_eq_true]
    by_cases hnull : v.type.isNonNull
    · exact .inl (hvname ▸ h.given v hmem hnull)
    · refine .inr ?_
      unfold VariableDeclaration.fallback?
      cases v.default <;> simp [hnull]
  obtain ⟨x, hx⟩ := Option.isSome_iff_exists.1 hsome
  exact ⟨x, hx, hx⟩

/-- What a variable falls back to has the types that the variable may stand for. -/
theorem Supplied.has_fallback (h : scope.Supplied) {v : VariableDeclaration}
    (hv : v ∈ scope.declarations) {expected : TypeRef}
    (hfits : Validation.fits expected v.effectiveType) {value : Value}
    (hvalue : v.fallback? = some value) (hnull : value = .null → expected.isNonNull = false) :
    Validation.has scope.validation expected value := by
  by_cases hisNull : value.isNull
  · cases value with
    | null => exact Validation.has_null (hnull rfl)
    | _ => cases hisNull
  · refine Validation.has_of_fits hfits ?_
    unfold VariableDeclaration.fallback? at hvalue
    unfold VariableDeclaration.effectiveType
    cases hdefault : v.default with
    | none =>
      rw [hdefault] at hvalue
      dsimp only at hvalue
      split at hvalue
      · cases hvalue
      · exact absurd (Option.some.inj hvalue ▸ rfl) hisNull
    | some d =>
      rw [hdefault] at hvalue
      obtain rfl := Option.some.inj hvalue
      obtain ⟨htype, hhas⟩ := h.default v hv _ hdefault
      simp only [Option.isSome_some, if_true]
      cases hv : v.type with
      | nonNull inner => rw [hv] at htype; cases htype
      | _ => rw [hv] at hhas; simpa [TypeRef.required, Validation.has, hisNull] using hhas

/-- A written argument that validation lets through has a value of its type. -/
theorem Supplied.exists_value (h : scope.Supplied) {spec : ArgumentSpec} {literal : Literal}
    (hreferences : ∀ name ∈ literal.references,
      name ∈ scope.declarations.map VariableDeclaration.name)
    (hvalue : Validation.valueIssues scope.validation spec literal = [])
    (huses : Validation.useIssues scope.declarations (Validation.uses spec.type literal) = [])
    (hadmits : scope.Admits spec.type literal) :
    ∃ value, literal.eval? scope.valueOf? = some value ∧
      Validation.has scope.validation spec.type value := by
  have hvalues : ∀ name ∈ literal.references,
      ∃ x, scope.valueOf? name = some x ∧ ∀ y, scope.given name = some y → y = x := by
    intro name hname
    obtain ⟨v, -, -, -, x, hx, hor⟩ := h.exists_valueOf? (hreferences name hname)
    refine ⟨x, hx, fun y hy => ?_⟩
    rw [hy, Option.some_or] at hor
    exact Option.some.inj hor
  obtain ⟨value, heval, hgiven⟩ := literal.exists_eval? hvalues
  refine ⟨value, heval, ?_⟩
  by_cases hsome : (literal.eval? scope.given).isSome
  · obtain ⟨w, hw⟩ := Option.isSome_iff_exists.1 hsome
    obtain rfl := hgiven w hw
    have hw' : literal.eval? scope.validation.given = some w := hw
    rw [Validation.valueIssues, hw'] at hvalue
    by_contra hhas
    simp [hhas] at hvalue
  · -- a variable that is not given
    cases literal with
    | reference name =>
      obtain ⟨v, hv, hfind, -, x, hx, hor⟩ :=
        h.exists_valueOf? (hreferences name (by simp [Literal.references]))
      rw [Literal.eval?, hx] at heval
      obtain rfl := Option.some.inj heval
      have hnone : scope.given name = none := by simpa [Literal.eval?] using hsome
      rw [hnone, Option.none_or] at hor
      have hfits : Validation.fits spec.type v.effectiveType := by
        by_contra hfits
        simp [Validation.useIssues, Validation.uses, hfind, hfits] at huses
      refine h.has_fallback hv hfits hor fun heq => hadmits.nullable ?_
      simp [fallsBackToNull, hnone, hx, heq, Value.isNull]
    | _ => exact absurd hadmits.whole hsome

/-! ## Written arguments -/

/-- Arguments whose literals have values are written with these. -/
theorem exists_written {arguments : Arguments}
    (h : ∀ e ∈ arguments, ∃ value, e.2.eval? scope.valueOf? = some value) :
    ∃ values, scope.written arguments = .ok values ∧ values.names = arguments.map Prod.fst ∧
      ∀ name, values.lookup name = (arguments.lookup name).bind (Literal.eval? scope.valueOf?) := by
  induction arguments with
  | nil => exact ⟨[], rfl, rfl, fun _ => rfl⟩
  | cons e rest ih =>
    obtain ⟨key, literal⟩ := e
    obtain ⟨value, hvalue⟩ := h (key, literal) (by simp)
    obtain ⟨values, hvalues, hnames, hlookup⟩ := ih fun e he => h e (by simp [he])
    refine ⟨(key, value) :: values, ?_, ?_, fun name => ?_⟩
    · rw [written]
      simp only [hvalue, hvalues]
      rfl
    · rw [Entries.names] at hnames ⊢
      rw [List.map_cons, List.map_cons, hnames]
    · rw [List.lookup_cons, List.lookup_cons]
      split
      · exact hvalue.symm
      · exact hlookup name

end Execution.Scope

namespace Execution

/-- An argument that is not written has its default. -/
theorem lookup_withDefaults {specs : List ArgumentSpec}
    (hnodup : (specs.map ArgumentSpec.name).Nodup) (values : Entries Value) {spec : ArgumentSpec}
    (hspec : spec ∈ specs) :
    ((withDefaults specs values).lookup spec.name).or spec.default =
      (values.lookup spec.name).or spec.default := by
  rw [withDefaults, List.lookup_append]
  cases hvalue : values.lookup spec.name with
  | some value => rfl
  | none =>
    rw [Option.none_or]
    cases hdefault : List.lookup spec.name _ with
    | none => rfl
    | some value =>
      -- the default is that of the declaration, since names are different
      obtain ⟨other, hother, hsome⟩ := List.mem_filterMap.1 (Entries.mem_of_lookup hdefault)
      split at hsome
      · rename_i d hd
        split at hsome
        · cases hsome
        · obtain ⟨hname, rfl⟩ := Prod.mk.inj (Option.some.inj hsome)
          obtain rfl := List.inj_on_of_nodup_map hnodup hother hspec hname
          rw [hd, Option.some_or, Option.none_or]
      · cases hsome

theorem names_withDefaults {specs : List ArgumentSpec} {values : Entries Value}
    (h : ∀ name ∈ values.names, name ∈ specs.map ArgumentSpec.name) :
    ∀ name ∈ Entries.names (withDefaults specs values), name ∈ specs.map ArgumentSpec.name := by
  intro name hname
  rw [withDefaults, Entries.names, List.map_append, List.mem_append] at hname
  rcases hname with hname | hname
  · exact h name hname
  · obtain ⟨e, he, rfl⟩ := List.mem_map.1 hname
    obtain ⟨spec, hspec, hsome⟩ := List.mem_filterMap.1 he
    split at hsome
    · split at hsome
      · cases hsome
      · obtain rfl := Option.some.inj hsome
        exact List.mem_map_of_mem hspec
    · cases hsome

end Execution

/-! ## Fields -/

namespace Registry

/-- Whether the arguments of a field have different names, and leaves as values. -/
structure TakesLeaves (r : Registry σ ν) (field : Field σ ν) : Prop where
  names_nodup : (field.arguments.map ArgumentSpec.name).Nodup
  flat : ∀ spec ∈ field.arguments, Validation.itemType? spec.type = none
  leaf : ∀ spec ∈ field.arguments, r.takesLeaf spec.type.baseName
  default : ∀ spec ∈ field.arguments, ∀ value, spec.default = some value →
    ∃ c, r.coerce spec.type value = .ok c

/-- Whether a record holds the values of the arguments of a field. -/
def Binds (r : Registry σ ν) (field : Field σ ν) (b : BoundArguments) : Prop :=
  ∃ raw, ∀ spec ∈ field.arguments, r.argumentValue field.name raw spec = .ok (b.get? spec.name)

namespace Binds

variable {r : Registry σ ν} {field : Field σ ν} {b : BoundArguments} {spec : ArgumentSpec}

theorem of_bind (hnodup : (field.arguments.map ArgumentSpec.name).Nodup) {raw : Entries Value}
    (h : r.bind field.name field.arguments raw = .ok b) : r.Binds field b :=
  ⟨raw, argumentValue_of_bind hnodup h⟩

/-- What is bound is what is left of a value, unless the argument can be left out. -/
theorem get?_eq (h : r.Binds field b) (hspec : spec ∈ field.arguments) :
    (∃ value c, r.coerce spec.type value = .ok c ∧ b.get? spec.name = some c) ∨
      (b.get? spec.name = none ∧ spec.isRequired = false) := by
  obtain ⟨raw, hraw⟩ := h
  exact argumentValue_eq_ok (hraw spec hspec)

theorem get?_eq_of_isRequired (h : r.Binds field b) (hspec : spec ∈ field.arguments)
    (hrequired : spec.isRequired) :
    ∃ value c, r.coerce spec.type value = .ok c ∧ b.get? spec.name = some c :=
  (h.get?_eq hspec).resolve_right fun hnone => by simp [hrequired] at hnone

theorem string_eq (h : r.Binds field b) (hspec : spec ∈ field.arguments)
    (htype : spec.type = .namedNonNull builtin.string) {t : ScalarType}
    (hfind : r.find? builtin.string = some (.scalar t)) : ∃ s, b.string spec.name = .ok s := by
  have hrequired : spec.isRequired := by rw [ArgumentSpec.isRequired, htype]; rfl
  obtain ⟨value, c, hc, hget⟩ := h.get?_eq_of_isRequired hspec hrequired
  obtain ⟨s, rfl⟩ := coerce_requiredString hfind (htype ▸ hc)
  exact ⟨s, by simp only [BoundArguments.string, BoundArguments.optionalString, hget]⟩

theorem int_eq (h : r.Binds field b) (hspec : spec ∈ field.arguments)
    (htype : spec.type = .namedNonNull builtin.int) {t : ScalarType}
    (hfind : r.find? builtin.int = some (.scalar t)) : ∃ i, b.int spec.name = .ok i := by
  have hrequired : spec.isRequired := by rw [ArgumentSpec.isRequired, htype]; rfl
  obtain ⟨value, c, hc, hget⟩ := h.get?_eq_of_isRequired hspec hrequired
  obtain ⟨n, i, rfl, hi⟩ := coerce_requiredInt hfind (htype ▸ hc)
  exact ⟨i, by simp only [BoundArguments.int, hget, hi]⟩

theorem enumName_eq (h : r.Binds field b) (hspec : spec ∈ field.arguments) {name : String}
    (htype : spec.type = .named name) {e : EnumType} (hfind : r.find? name = some (.enum e)) :
    b.enumName spec.name = none ∨
      ∃ member, b.enumName spec.name = some member ∧ e.contains member := by
  rcases h.get?_eq hspec with ⟨value, c, hc, hget⟩ | ⟨hget, -⟩
  · rw [BoundArguments.enumName, hget]
    rcases coerce_enum hfind (htype ▸ hc) with rfl | ⟨member, rfl, hmember⟩
    · exact .inl rfl
    · exact .inr ⟨member, rfl, hmember⟩
  · exact .inl (by rw [BoundArguments.enumName, hget, Option.bind_none])

end Binds

end Registry

namespace Execution.Scope

variable {scope : Scope σ ν}

/-- Whether a value is what a written literal stands for, and one of the type of an argument. -/
structure Suits (scope : Scope σ ν) (spec : ArgumentSpec) (literal : Literal) (value : Value) :
    Prop where
  eval_eq : literal.eval? scope.valueOf? = some value
  range : spec.type.baseName = builtin.int → value.isWithinInt
  has : Validation.has scope.validation spec.type value

section

variable {field : Field σ ν} {arguments : Arguments}

/-- An argument that validation lets through has a declaration, and a value that suits it. -/
theorem Supplied.exists_suits (h : scope.Supplied)
    (hreferences : ∀ e ∈ arguments, ∀ name ∈ e.2.references,
      name ∈ scope.declarations.map VariableDeclaration.name)
    (hissues : Validation.argumentIssues scope.validation field.arguments arguments = [])
    (huses : Validation.useIssues scope.declarations
      (Validation.usesOfArguments field.arguments arguments) = [])
    (hadmits : ∀ spec ∈ field.arguments, ∀ literal, (spec.name, literal) ∈ arguments →
      scope.Admits spec.type literal) {e : String × Literal} (he : e ∈ arguments) :
    ∃ spec ∈ field.arguments, spec.name = e.1 ∧ ∃ value, scope.Suits spec e.2 value := by
  obtain ⟨key, literal⟩ := e
  simp only [Validation.argumentIssues, List.append_eq_nil_iff, List.flatMap_eq_nil_iff] at hissues
  obtain ⟨⟨-, hvalues⟩, -⟩ := hissues
  have hvalue := hvalues _ he
  cases hfind : field.arguments.find? fun spec => spec.name = key with
  | none => simp [hfind] at hvalue
  | some spec =>
    have hmem : spec ∈ field.arguments := List.mem_of_find?_eq_some hfind
    have hname : spec.name = key := key_of_find? hfind
    simp only [hfind] at hvalue
    have hadmitted : scope.Admits spec.type literal := hadmits spec hmem literal (hname ▸ he)
    have huse :
        Validation.useIssues scope.declarations (Validation.uses spec.type literal) = [] := by
      simp only [Validation.useIssues, Validation.usesOfArguments, List.flatMap_eq_nil_iff,
        List.mem_flatMap] at huses ⊢
      exact fun use huse => huses use ⟨(key, literal), he, by simpa only [hfind] using huse⟩
    obtain ⟨value, heval, hhas⟩ := h.exists_value (hreferences _ he) hvalue huse hadmitted
    have hrange (hint : spec.type.baseName = builtin.int) : value.isWithinInt := by
      simpa [heval] using hadmitted.range hint
    exact ⟨spec, hmem, hname, value, heval, hrange, hhas⟩

/-- An argument of a field coerces from its value or its default, or it can be left out. -/
theorem exists_argumentValue (hfield : scope.registry.TakesLeaves field)
    (hissues : Validation.argumentIssues scope.validation field.arguments arguments = [])
    (hsuits : ∀ e ∈ arguments, ∃ spec ∈ field.arguments, spec.name = e.1 ∧
      ∃ value, scope.Suits spec e.2 value)
    {values : Entries Value} (hlookup : ∀ name,
      values.lookup name = (arguments.lookup name).bind (Literal.eval? scope.valueOf?))
    {spec : ArgumentSpec} (hmem : spec ∈ field.arguments) :
    ∃ found, scope.registry.argumentValue field.name (withDefaults field.arguments values) spec =
      .ok found := by
  rw [Registry.argumentValue, lookup_withDefaults hfield.names_nodup values hmem, hlookup]
  cases hliteral : arguments.lookup spec.name with
  | some literal =>
    obtain ⟨other, hother, hname, value, hvalue⟩ := hsuits _ (Entries.mem_of_lookup hliteral)
    obtain rfl := List.inj_on_of_nodup_map hfield.names_nodup hother hmem hname
    obtain ⟨c, hc⟩ :=
      exists_coerce (hfield.flat _ hother) (hfield.leaf _ hother) hvalue.range hvalue.has
    exact ⟨some c, by simp only [Option.bind_some, hvalue.eval_eq, Option.some_or, hc]⟩
  | none =>
    rw [Option.bind_none, Option.none_or]
    cases hdefault : spec.default with
    | some value =>
      obtain ⟨c, hc⟩ := hfield.default spec hmem value hdefault
      exact ⟨some c, by simp only [hc]⟩
    | none =>
      simp only [Validation.argumentIssues, List.append_eq_nil_iff,
        List.flatMap_eq_nil_iff] at hissues
      have hrequired := hissues.2 spec hmem
      rw [hdefault, hliteral] at hrequired
      exact ⟨none, by simp_all⟩

/-- The arguments of a field bind if validation lets them through. -/
theorem Supplied.exists_boundArguments (h : scope.Supplied)
    (hfield : scope.registry.TakesLeaves field)
    (hreferences : ∀ e ∈ arguments, ∀ name ∈ e.2.references,
      name ∈ scope.declarations.map VariableDeclaration.name)
    (hissues : Validation.argumentIssues scope.validation field.arguments arguments = [])
    (huses : Validation.useIssues scope.declarations
      (Validation.usesOfArguments field.arguments arguments) = [])
    (hadmits : ∀ spec ∈ field.arguments, ∀ literal, (spec.name, literal) ∈ arguments →
      scope.Admits spec.type literal) :
    ∃ b, scope.boundArguments? field arguments = some b ∧ scope.registry.Binds field b := by
  have hsuits : ∀ e ∈ arguments, ∃ spec ∈ field.arguments, spec.name = e.1 ∧
      ∃ value, scope.Suits spec e.2 value :=
    fun e he => h.exists_suits hreferences hissues huses hadmits he
  obtain ⟨values, hwritten, hnames, hlookup⟩ := exists_written fun e he => by
    obtain ⟨_, -, -, value, hvalue⟩ := hsuits e he
    exact ⟨value, hvalue.eval_eq⟩
  have hknown : ∀ name ∈ values.names, name ∈ field.arguments.map ArgumentSpec.name := by
    intro name hname
    rw [hnames] at hname
    obtain ⟨e, he, rfl⟩ := List.mem_map.1 hname
    obtain ⟨spec, hmem, hspecname, -⟩ := hsuits e he
    exact hspecname ▸ List.mem_map_of_mem hmem
  have hfound : ∀ spec ∈ field.arguments, ∃ found, scope.registry.argumentValue field.name
      (withDefaults field.arguments values) spec = .ok found :=
    fun spec hmem => exists_argumentValue hfield hissues hsuits hlookup hmem
  obtain ⟨b, hb, hbound⟩ := Registry.exists_bind hfield.names_nodup
    (names_withDefaults hknown) hfound
  exact ⟨b, boundArguments?_eq_some_iff.2 ⟨values, hwritten, hb⟩, _, hbound⟩

end

end Execution.Scope

end Gazette
