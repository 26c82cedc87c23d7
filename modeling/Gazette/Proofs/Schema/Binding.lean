import Gazette.Proofs.Lists
import Gazette.Schema.Binding

/-!
# What binding gives

For declarations of different names, a record is bound by finding the value of each argument and
then adding all of them (`bindFrom_eq_map`), so that each argument has the value that its
declaration asks for (`exists_bind`).  What coercion makes of a value is told form by form: of a
leaf by `CoercesNamed`, of a list by `coerce_list_cases`.  An error of binding is never one of the
store (`ne_store_of_bind`).
-/

namespace Gazette

theorem Value.isNull_iff {value : Value} : value.isNull ↔ value = .null := by
  cases value <;> simp [isNull]

/-! ## Records with more arguments -/

namespace BoundArguments

variable {b : BoundArguments} {name other : String} {specs : List ArgumentSpec}

/-- A record with one more argument, if there is a value for it. -/
def supply (b : BoundArguments) (name : String) : Option Value → BoundArguments
  | some value => b.insert name value
  | none => b

/-- A record with the values that were found for declarations, in order. -/
def supplyAll (b : BoundArguments) : List ArgumentSpec → List (Option Value) → BoundArguments
  | spec :: specs, found :: more => (b.supply spec.name found).supplyAll specs more
  | _, _ => b

@[simp]
theorem field_supply (b : BoundArguments) (name : String) (found : Option Value) :
    (b.supply name found).field = b.field := by
  cases found <;> rfl

theorem get?_supply_self (h : b.get? name = none) (found : Option Value) :
    (b.supply name found).get? name = found := by
  cases found with
  | none => exact h
  | some value => exact Entries.lookup_put_self ..

theorem get?_supply_of_ne (h : other ≠ name) (found : Option Value) :
    (b.supply name found).get? other = b.get? other := by
  cases found with
  | none => rfl
  | some value => exact Entries.lookup_put_of_ne h ..

theorem mem_names_supply {found : Option Value} (h : other ∈ (b.supply name found).values.names) :
    other ∈ b.values.names ∨ other = name := by
  cases found with
  | none => exact .inl h
  | some value => exact Entries.mem_names_put.1 h

theorem values_supply (h : name ∉ b.values.names) (found : Option Value) :
    (b.supply name found).values = b.values ++ (found.map (name, ·)).toList := by
  cases found with
  | none => exact (List.append_nil _).symm
  | some value => exact Entries.put_of_not_mem h value

@[simp]
theorem field_supplyAll (b : BoundArguments) (specs : List ArgumentSpec)
    (found : List (Option Value)) : (b.supplyAll specs found).field = b.field := by
  induction specs generalizing b found with
  | nil => rfl
  | cons spec rest ih =>
    cases found with
    | nil => rfl
    | cons first more => rw [supplyAll, ih, field_supply]

theorem get?_supplyAll_of_not_mem (h : other ∉ specs.map ArgumentSpec.name)
    (found : List (Option Value)) : (b.supplyAll specs found).get? other = b.get? other := by
  induction specs generalizing b found with
  | nil => rfl
  | cons spec rest ih =>
    rw [List.map_cons, List.mem_cons, not_or] at h
    cases found with
    | nil => rfl
    | cons first more => rw [supplyAll, ih h.2, get?_supply_of_ne h.1]

/-- Under the names of the declarations are the values that were found for them. -/
theorem get?_supplyAll (hnodup : (specs.map ArgumentSpec.name).Nodup)
    (hfresh : ∀ spec ∈ specs, b.get? spec.name = none) {p : ArgumentSpec → Option Value → Prop}
    {found : List (Option Value)} (h : List.Forall₂ p specs found) :
    ∀ spec ∈ specs, p spec ((b.supplyAll specs found).get? spec.name) := by
  induction h generalizing b with
  | nil => exact List.forall_mem_nil _
  | @cons spec first rest more hfirst h ih =>
    obtain ⟨hspec, hnodup⟩ := List.nodup_cons.1 hnodup
    refine List.forall_mem_cons.2 ⟨?_, ih hnodup fun other hother => ?_⟩
    · rw [supplyAll, get?_supplyAll_of_not_mem hspec, get?_supply_self (hfresh spec (.head _))]
      exact hfirst
    · have hne : other.name ≠ spec.name := fun heq => hspec (heq ▸ List.mem_map_of_mem hother)
      rw [get?_supply_of_ne hne]
      exact hfresh other (.tail _ hother)

theorem values_supplyAll (hnodup : (specs.map ArgumentSpec.name).Nodup)
    (hfresh : ∀ spec ∈ specs, spec.name ∉ b.values.names)
    {entry : ArgumentSpec → Option (String × Value)} {found : List (Option Value)}
    (h : List.Forall₂ (fun spec found => entry spec = found.map (spec.name, ·)) specs found) :
    (b.supplyAll specs found).values = b.values ++ specs.filterMap entry := by
  induction h generalizing b with
  | nil => exact (List.append_nil _).symm
  | @cons spec first rest more hfirst h ih =>
    obtain ⟨hspec, hnodup⟩ := List.nodup_cons.1 hnodup
    have hnext : ∀ other ∈ rest, other.name ∉ (b.supply spec.name first).values.names := by
      intro other hother hmem
      rcases mem_names_supply hmem with hmem | heq
      · exact hfresh other (.tail _ hother) hmem
      · exact hspec (heq ▸ List.mem_map_of_mem hother)
    rw [supplyAll, ih hnodup hnext, values_supply (hfresh spec (.head _)), ← hfirst,
      List.append_assoc]
    cases hentry : entry spec with
    | none => rw [List.filterMap_cons_none hentry]; rfl
    | some e => rw [List.filterMap_cons_some hentry]; rfl

end BoundArguments

namespace Registry

variable {σ ν : Type} {r : Registry σ ν}

/-! ## Errors -/

theorem argumentError_ne_store (field : String) (spec : ArgumentSpec) (e : CoercionError)
    (error : StoreError) : argumentError field spec e ≠ .store error := by
  cases e <;> exact nofun

/-- An argument fails if it is required and there is no value for it, or if its value does not
coerce. -/
theorem argumentValue_eq_error {field : String} {raw : Entries Value} {spec : ArgumentSpec}
    {e : FieldError} (h : r.argumentValue field raw spec = .error e) :
    ((raw.lookup spec.name).or spec.default = none ∧ spec.isRequired ∧
        e = .missingArgument field spec.name) ∨
      ∃ value reason, (raw.lookup spec.name).or spec.default = some value ∧
        r.coerce spec.type value = .error reason ∧ e = argumentError field spec reason := by
  unfold argumentValue at h
  split at h
  · rename_i value hvalue
    split at h
    · cases h
    · rename_i reason hreason
      exact .inr ⟨value, reason, hvalue, hreason, (Except.error.inj h).symm⟩
  · rename_i hnone
    split at h
    · rename_i hrequired
      exact .inl ⟨hnone, hrequired, (Except.error.inj h).symm⟩
    · cases h

theorem ne_store_of_argumentValue {field : String} {raw : Entries Value} {spec : ArgumentSpec}
    {e : FieldError} (h : r.argumentValue field raw spec = .error e) (error : StoreError) :
    e ≠ .store error := by
  rcases argumentValue_eq_error h with ⟨-, -, rfl⟩ | ⟨value, reason, -, -, rfl⟩
  · exact nofun
  · exact argumentError_ne_store field spec reason error

theorem bindFrom_cons (raw : Entries Value) (bound : BoundArguments) (spec : ArgumentSpec)
    (rest : List ArgumentSpec) : r.bindFrom raw bound (spec :: rest) =
      (r.argumentValue bound.field raw spec >>= fun found =>
        r.bindFrom (raw.erase spec.name) (bound.supply spec.name found) rest) := by
  rw [bindFrom]
  rcases r.argumentValue bound.field raw spec with e | _ | value <;> rfl

theorem exists_of_bindFrom_error {specs : List ArgumentSpec} {raw : Entries Value}
    {bound : BoundArguments} {e : FieldError} (h : r.bindFrom raw bound specs = .error e) :
    ∃ spec ∈ specs, ∃ raw', r.argumentValue bound.field raw' spec = .error e := by
  induction specs generalizing raw bound with
  | nil => cases h
  | cons spec rest ih =>
    rw [bindFrom_cons] at h
    rcases bind_eq_error_iff.1 h with he | ⟨found, -, h⟩
    · exact ⟨spec, .head _, raw, he⟩
    · obtain ⟨other, hother, raw', he⟩ := ih h
      exact ⟨other, .tail _ hother, raw', BoundArguments.field_supply .. ▸ he⟩

/-- An error of binding is never one of the store. -/
theorem ne_store_of_bind {field : String} {specs : List ArgumentSpec} {raw : Entries Value}
    {e : FieldError} (h : r.bind field specs raw = .error e) (error : StoreError) :
    e ≠ .store error := by
  unfold bind at h
  split at h
  · exact Except.error.inj h ▸ nofun
  · obtain ⟨spec, -, raw', he⟩ := exists_of_bindFrom_error h
    exact ne_store_of_argumentValue he error

/-! ## Values -/

/-- The value of an argument is one that coerces, or the argument is not required. -/
theorem argumentValue_eq_ok {field : String} {raw : Entries Value} {spec : ArgumentSpec}
    {found : Option Value} (h : r.argumentValue field raw spec = .ok found) :
    (∃ value c, r.coerce spec.type value = .ok c ∧ found = some c) ∨
      (found = none ∧ spec.isRequired = false) := by
  unfold argumentValue at h
  split at h
  · split at h
    · rename_i value _ _ c hc
      exact .inl ⟨value, c, hc, (Except.ok.inj h).symm⟩
    · cases h
  · split at h
    · cases h
    · rename_i hrequired
      exact .inr ⟨(Except.ok.inj h).symm, by simpa using hrequired⟩

theorem argumentValue_erase {spec : ArgumentSpec} {name : String} (h : spec.name ≠ name)
    (field : String) (raw : Entries Value) :
    r.argumentValue field (raw.erase name) spec = r.argumentValue field raw spec := by
  rw [argumentValue, argumentValue, Entries.lookup_erase_of_ne h]

/-- For declarations of different names, nothing depends on what is bound before. -/
theorem bindFrom_eq_map {specs : List ArgumentSpec} (hnodup : (specs.map ArgumentSpec.name).Nodup)
    (raw : Entries Value) (bound : BoundArguments) : r.bindFrom raw bound specs =
      (specs.mapM (r.argumentValue bound.field raw)).map (bound.supplyAll specs) := by
  induction specs generalizing raw bound with
  | nil => rfl
  | cons spec rest ih =>
    obtain ⟨hspec, hnodup⟩ := List.nodup_cons.1 hnodup
    have hrest : rest.mapM (r.argumentValue bound.field (raw.erase spec.name)) =
        rest.mapM (r.argumentValue bound.field raw) := mapM_congr fun other hother => by
      have hne : other.name ≠ spec.name := fun heq => hspec (heq ▸ List.mem_map_of_mem hother)
      exact argumentValue_erase hne bound.field raw
    rw [bindFrom_cons, List.mapM_cons]
    simp only [ih hnodup, BoundArguments.field_supply, hrest]
    rcases r.argumentValue bound.field raw spec with e | found
    · rfl
    · rcases rest.mapM (r.argumentValue bound.field raw) with e | more <;> rfl

theorem argumentValue_of_bindFrom {specs : List ArgumentSpec} {raw : Entries Value}
    {bound b : BoundArguments} (hnodup : (specs.map ArgumentSpec.name).Nodup)
    (hfresh : ∀ spec ∈ specs, bound.get? spec.name = none)
    (h : r.bindFrom raw bound specs = .ok b) :
    ∀ spec ∈ specs, r.argumentValue bound.field raw spec = .ok (b.get? spec.name) := by
  rw [bindFrom_eq_map hnodup, map_eq_ok_iff] at h
  obtain ⟨found, hfound, rfl⟩ := h
  exact BoundArguments.get?_supplyAll hnodup hfresh
    (p := fun spec found => r.argumentValue bound.field raw spec = .ok found)
    (mapM_eq_ok_iff.1 hfound)

theorem bindFrom_of_bind {field : String} {specs : List ArgumentSpec} {raw : Entries Value}
    {b : BoundArguments} (h : r.bind field specs raw = .ok b) :
    r.bindFrom raw (.empty field) specs = .ok b := by
  unfold bind at h
  split at h
  · cases h
  · exact h

theorem bind_eq_bindFrom {field : String} {specs : List ArgumentSpec} {raw : Entries Value}
    (hknown : ∀ name ∈ raw.names, name ∈ specs.map ArgumentSpec.name) :
    r.bind field specs raw = r.bindFrom raw (.empty field) specs := by
  rw [bind, List.find?_eq_none.2 (by simpa using hknown)]

/-- What binding gives holds the value of each argument. -/
theorem argumentValue_of_bind {field : String} {specs : List ArgumentSpec} {raw : Entries Value}
    {b : BoundArguments} (hnodup : (specs.map ArgumentSpec.name).Nodup)
    (h : r.bind field specs raw = .ok b) :
    ∀ spec ∈ specs, r.argumentValue field raw spec = .ok (b.get? spec.name) :=
  argumentValue_of_bindFrom hnodup (fun _ _ => rfl) (bindFrom_of_bind h)

theorem exists_bind {field : String} {specs : List ArgumentSpec} {raw : Entries Value}
    (hnodup : (specs.map ArgumentSpec.name).Nodup)
    (hknown : ∀ name ∈ raw.names, name ∈ specs.map ArgumentSpec.name)
    (h : ∀ spec ∈ specs, ∃ found, r.argumentValue field raw spec = .ok found) :
    ∃ b, r.bind field specs raw = .ok b ∧
      ∀ spec ∈ specs, r.argumentValue field raw spec = .ok (b.get? spec.name) := by
  obtain ⟨found, hfound⟩ := exists_forall₂ h
  have hb : r.bind field specs raw = .ok ((BoundArguments.empty field).supplyAll specs found) := by
    rw [bind_eq_bindFrom hknown, bindFrom_eq_map hnodup, map_eq_ok_iff]
    exact ⟨found, mapM_eq_ok_iff.2 hfound, rfl⟩
  exact ⟨_, hb, argumentValue_of_bind hnodup hb⟩

/-- Declarations of different names fail to bind for the first of them that has no value. -/
theorem bindFrom_eq_error_iff {specs : List ArgumentSpec} {raw : Entries Value}
    {bound : BoundArguments} {e : FieldError} (hnodup : (specs.map ArgumentSpec.name).Nodup) :
    r.bindFrom raw bound specs = .error e ↔ ∃ before spec after, specs = before ++ spec :: after ∧
      (∀ other ∈ before, ∃ found, r.argumentValue bound.field raw other = .ok found) ∧
      r.argumentValue bound.field raw spec = .error e := by
  rw [bindFrom_eq_map hnodup, map_eq_error_iff, mapM_eq_error_iff]

/-- Given names that are declared, binding fails for the first declaration that has no value. -/
theorem exists_of_bind_eq_error {field : String} {specs : List ArgumentSpec} {raw : Entries Value}
    {e : FieldError} (hnodup : (specs.map ArgumentSpec.name).Nodup)
    (hknown : ∀ name ∈ raw.names, name ∈ specs.map ArgumentSpec.name)
    (h : r.bind field specs raw = .error e) :
    ∃ before spec after, specs = before ++ spec :: after ∧
      (∀ other ∈ before, ∃ found, r.argumentValue field raw other = .ok found) ∧
      r.argumentValue field raw spec = .error e := by
  rw [bind_eq_bindFrom hknown] at h
  exact (bindFrom_eq_error_iff hnodup).1 h

/-! ## Coercion of leaves -/

/-- What a value of a built-in scalar type is coerced to. -/
inductive CoercesScalar (name : String) : Value → Value → Prop
  | string (hname : name = builtin.string ∨ name = builtin.id) (s : String) :
    CoercesScalar name (.string s) (.string s)
  | boolean (hname : name = builtin.boolean) (b : Bool) :
    CoercesScalar name (.boolean b) (.boolean b)
  | float (hname : name = builtin.float) (n : Number) : CoercesScalar name (.number n) (.number n)
  | id (hname : name = builtin.id) (i : Int) :
    CoercesScalar name (.number (.int i)) (.string (Number.int i).text)
  | int (hname : name = builtin.int) {i : Int} (hlow : minInt32 ≤ i) (hhigh : i ≤ maxInt32) :
    CoercesScalar name (.number (.int i)) (.number (.int i))

theorem toInt64?_of_isInt32 {i : Int} (hlow : minInt32 ≤ i) (hhigh : i ≤ maxInt32) :
    (Number.int i).toInt64? = some i :=
  if_pos ⟨Int.le_trans (by decide) hlow, Int.le_trans hhigh (by decide)⟩

theorem eq_int_of_toInt64? {n : Number} {i : Int} (h : n.toInt64? = some i) : n = .int i := by
  cases n with
  | int j =>
    rw [Number.toInt64?] at h
    split at h
    · rw [Option.some.inj h]
    · cases h
  | float x => cases h

theorem coercesScalar_of_number {name : String} {n : Number} {c : Value}
    (h : coerceScalar? name (.number n) = some c) : CoercesScalar name (.number n) c := by
  simp only [coerceScalar?] at h
  by_cases hfloat : name = builtin.float
  · rw [if_pos hfloat] at h
    exact Option.some.inj h ▸ .float hfloat n
  rw [if_neg hfloat] at h
  by_cases hid : name = builtin.id
  · rw [if_pos hid] at h
    cases n with
    | int i => exact Option.some.inj h ▸ .id hid i
    | float x => cases h
  rw [if_neg hid] at h
  split at h
  · rename_i hint
    split at h
    · rename_i i hi
      split at h
      · rename_i hrange
        obtain rfl := eq_int_of_toInt64? hi
        exact Option.some.inj h ▸ .int hint hrange.1 hrange.2
      · cases h
    · cases h
  · cases h

theorem coerceScalar?_eq_some_iff {name : String} {value c : Value} :
    coerceScalar? name value = some c ↔ CoercesScalar name value c := by
  constructor
  · intro h
    cases value with
    | string s =>
      obtain ⟨hname, h⟩ := Option.ite_none_right_eq_some.1 h
      exact Option.some.inj h ▸ .string hname s
    | boolean b =>
      obtain ⟨hname, h⟩ := Option.ite_none_right_eq_some.1 h
      exact Option.some.inj h ▸ .boolean hname b
    | number n => exact coercesScalar_of_number h
    | _ => cases h
  · intro h
    cases h with
    | string hname => exact if_pos hname
    | boolean hname => exact if_pos hname
    | float hname => exact if_pos hname
    | id hname => subst hname; rfl
    | int hname hlow hhigh =>
      subst hname
      simp [coerceScalar?, builtin, toInt64?_of_isInt32 hlow hhigh, hlow, hhigh]

/-- What a value that is not null is coerced to at the type with a name. -/
inductive CoercesNamed (r : Registry σ ν) (name : String) : Value → Value → Prop
  | enum {e : EnumType} (hfind : r.find? name = some (.enum e)) {value : Value} {member : String}
    (hname : value.name? = some member) (hmember : e.contains member) :
    CoercesNamed r name value (.enum member)
  | scalar {t : ScalarType} (hfind : r.find? name = some (.scalar t)) {value c : Value}
    (h : CoercesScalar name value c) : CoercesNamed r name value c

theorem coerceNamed_eq_ok_iff {name : String} {value c : Value} :
    r.coerceNamed name value = .ok c ↔ r.CoercesNamed name value c := by
  constructor
  · intro h
    rw [coerceNamed] at h
    split at h
    · rename_i hfind
      split at h
      · rename_i hname
        split at h
        · rename_i hmember
          exact Except.ok.inj h ▸ .enum hfind hname hmember
        · cases h
      · cases h
    · rename_i hfind
      split at h
      · rename_i hscalar
        exact Except.ok.inj h ▸ .scalar hfind (coerceScalar?_eq_some_iff.1 hscalar)
      · cases h
    · cases h
  · intro h
    cases h with
    | enum hfind hname hmember => simp only [coerceNamed, hfind, hname, hmember, if_true]
    | scalar hfind h => simp only [coerceNamed, hfind, coerceScalar?_eq_some_iff.2 h]

/-! ## Coercion at each form of a type -/

section Steps

variable {inner item : TypeRef} {name : String} {value c : Value}

theorem coerce_null {type : TypeRef} (h : type.isNonNull = false) :
    r.coerce type .null = .ok .null := by
  cases type with
  | nonNull inner => cases h
  | list item => unfold coerce; rfl
  | named name => rw [coerce]; rfl

theorem coerce_nonNull_iff : r.coerce (.nonNull inner) value = .ok c ↔
    value ≠ .null ∧ r.coerce inner value = .ok c := by
  rw [coerce, ne_eq, ← Value.isNull_iff]
  split
  · rename_i hnull
    exact ⟨nofun, fun h => absurd hnull h.1⟩
  · rename_i hnull
    rw [and_iff_right hnull]

/-- A value that is no list is coerced to the type of the items. -/
theorem coerce_single (hnull : value ≠ .null) (hlist : ∀ items, value ≠ .list items) :
    r.coerce (.list item) value = .ok c ↔
      ∃ only, r.coerce item value = .ok only ∧ c = .list [only] := by
  have hcoerce : r.coerce (.list item) value =
      (r.coerce item value >>= fun only => Except.ok (Value.list [only])) := by
    cases value with
    | null => exact absurd rfl hnull
    | list items => exact absurd rfl (hlist items)
    | _ => rfl
  rw [hcoerce, bind_eq_ok_iff]
  simp only [Except.ok.injEq, eq_comm]

theorem coerce_items {items : List Value} : r.coerce (.list item) (.list items) = .ok c ↔
    ∃ cs, List.Forall₂ (fun i c => r.coerce item i = .ok c) items cs ∧ c = .list cs := by
  rw [coerce, bind_eq_ok_iff]
  refine exists_congr fun cs => and_congr mapM_eq_ok_iff ?_
  exact ⟨fun h => (Except.ok.inj h).symm, fun h => h ▸ rfl⟩

/-- What is left of a value for a list: null, its coerced items, or the value as the only item. -/
theorem coerce_list_cases (h : r.coerce (.list item) value = .ok c) :
    (value = .null ∧ c = .null) ∨
      (∃ items cs, value = .list items ∧ c = .list cs ∧
        List.Forall₂ (fun i c => r.coerce item i = .ok c) items cs) ∨
      value ≠ .null ∧ (∀ items, value ≠ .list items) ∧
        ∃ only, r.coerce item value = .ok only ∧ c = .list [only] := by
  by_cases hnull : value = .null
  · subst hnull
    exact .inl ⟨rfl, (Except.ok.inj h).symm⟩
  by_cases hlist : ∃ items, value = .list items
  · obtain ⟨items, rfl⟩ := hlist
    obtain ⟨cs, hcs, rfl⟩ := coerce_items.1 h
    exact .inr (.inl ⟨items, cs, rfl, rfl, hcs⟩)
  · have hsingle := not_exists.1 hlist
    exact .inr (.inr ⟨hnull, hsingle, (coerce_single hnull hsingle).1 h⟩)

theorem coerce_named_iff : r.coerce (.named name) value = .ok c ↔
    (value = .null ∧ c = .null) ∨ value ≠ .null ∧ r.coerceNamed name value = .ok c := by
  rw [coerce, ne_eq, ← Value.isNull_iff]
  split
  · rename_i hnull
    simp [hnull, eq_comm]
  · rename_i hnull
    simp [hnull]

end Steps

/-! ## Forms of coerced values -/

theorem coerce_namedNonNull {name : String} {value c : Value}
    (h : r.coerce (.namedNonNull name) value = .ok c) : r.coerceNamed name value = .ok c := by
  obtain ⟨hnull, h⟩ := coerce_nonNull_iff.1 h
  exact ((coerce_named_iff.1 h).resolve_left fun h => hnull h.1).2

theorem coerceNamed_string {t : ScalarType} (hfind : r.find? builtin.string = some (.scalar t))
    {value c : Value} (h : r.coerceNamed builtin.string value = .ok c) : ∃ s, c = .string s := by
  cases coerceNamed_eq_ok_iff.1 h with
  | enum hfind' => cases hfind'.symm.trans hfind
  | scalar _ h =>
    cases h with
    | string _ s => exact ⟨s, rfl⟩
    | id => exact ⟨_, rfl⟩
    | boolean hname | float hname | int hname => exact absurd hname (by decide)

theorem coerceNamed_enum {name : String} {e : EnumType} (hfind : r.find? name = some (.enum e))
    {value c : Value} (h : r.coerceNamed name value = .ok c) :
    ∃ member, value.name? = some member ∧ c = .enum member ∧ e.contains member := by
  cases coerceNamed_eq_ok_iff.1 h with
  | @enum e' hfind' _ member hname hmember =>
    obtain rfl := NamedType.enum.inj (Option.some.inj (hfind'.symm.trans hfind))
    exact ⟨member, hname, rfl, hmember⟩
  | scalar hfind' => cases hfind'.symm.trans hfind

/-- Null or a string is what is left of a value for `String`. -/
theorem coerce_string {t : ScalarType} (hfind : r.find? builtin.string = some (.scalar t))
    {value c : Value} (h : r.coerce (.named builtin.string) value = .ok c) :
    c = .null ∨ ∃ s, c = .string s := by
  rcases coerce_named_iff.1 h with ⟨-, hc⟩ | ⟨-, h⟩
  · exact .inl hc
  · exact .inr (coerceNamed_string hfind h)

/-- A string is what is left of a value for `String!`. -/
theorem coerce_requiredString {t : ScalarType} (hfind : r.find? builtin.string = some (.scalar t))
    {value c : Value} (h : r.coerce (.namedNonNull builtin.string) value = .ok c) :
    ∃ s, c = .string s :=
  coerceNamed_string hfind (coerce_namedNonNull h)

/-- An integer is what is left of a value for `Int!`. -/
theorem coerce_requiredInt {t : ScalarType} (hfind : r.find? builtin.int = some (.scalar t))
    {value c : Value} (h : r.coerce (.namedNonNull builtin.int) value = .ok c) :
    ∃ n i, c = .number n ∧ n.toInt64? = some i := by
  cases coerceNamed_eq_ok_iff.1 (coerce_namedNonNull h) with
  | enum hfind' => cases hfind'.symm.trans hfind
  | scalar _ h =>
    cases h with
    | @int _ i hlow hhigh => exact ⟨_, i, rfl, toInt64?_of_isInt32 hlow hhigh⟩
    | string hname => exact absurd hname (by decide)
    | boolean hname | float hname | id hname => exact absurd hname (by decide)

/-- Null or a member is what is left of a value for an enum. -/
theorem coerce_enum {name : String} {e : EnumType} (hfind : r.find? name = some (.enum e))
    {value c : Value} (h : r.coerce (.named name) value = .ok c) :
    c = .null ∨ ∃ member, c = .enum member ∧ e.contains member := by
  rcases coerce_named_iff.1 h with ⟨-, hc⟩ | ⟨-, h⟩
  · exact .inl hc
  · obtain ⟨member, -, hc, hmember⟩ := coerceNamed_enum hfind h
    exact .inr ⟨member, hc, hmember⟩

end Registry

end Gazette
