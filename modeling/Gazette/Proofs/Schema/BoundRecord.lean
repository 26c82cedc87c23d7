import Gazette.Proofs.Schema.Binding
import Mathlib.Data.List.Nodup

/-!
# Records of bound arguments

Binding follows the declarations: a declaration takes the value that is given under its name, or
else its default (`Registry.Takes`), and fails if it needs a value and takes none, or if the value
does not coerce (`Registry.Fails`).  `Registry.bind_follows_declarations` tells from these when
binding succeeds, which record it gives, which error it reports, and which changes of the given
values it does not notice.
-/

namespace Gazette.Registry

variable {σ ν : Type} {r : Registry σ ν} {field : String} {raw raw' : Entries Value}
  {spec : ArgumentSpec} {specs : List ArgumentSpec}

/-! ## One declaration -/

/-- Whether a value is the one that a declaration takes: it is given under the name of the
declaration, or it is the default of one whose name is not given. -/
inductive Takes (raw : Entries Value) (spec : ArgumentSpec) : Value → Prop
  | given {value : Value} (h : (spec.name, value) ∈ raw) : Takes raw spec value
  | default {value : Value} (hraw : spec.name ∉ raw.names) (h : spec.default = some value) :
    Takes raw spec value

/-- Whether an error is that of a declaration: it requires a value and there is none, or the value
that it takes does not coerce. -/
inductive Fails (r : Registry σ ν) (field : String) (raw : Entries Value) (spec : ArgumentSpec) :
    FieldError → Prop
  | missing (hraw : spec.name ∉ raw.names) (hdefault : spec.default = none)
    (hrequired : spec.isRequired) : Fails r field raw spec (.missingArgument field spec.name)
  | uncoerced {value : Value} {reason : CoercionError} (h : Takes raw spec value)
    (hreason : r.coerce spec.type value = .error reason) :
    Fails r field raw spec (argumentError field spec reason)

/-- Whether a declaration takes a value at all. -/
def isSupplied (raw : Entries Value) (spec : ArgumentSpec) : Bool :=
  raw.has spec.name || spec.default.isSome

theorem takes_iff (hraw : raw.names.Nodup) {value : Value} :
    Takes raw spec value ↔ (raw.lookup spec.name).or spec.default = some value := by
  constructor
  · rintro (hmem | ⟨hnot, hdefault⟩)
    · have hcount : raw.names.count spec.name ≤ 1 := List.nodup_iff_count_le_one.1 hraw spec.name
      rw [Entries.lookup_of_mem hmem hcount, Option.some_or]
    · rw [Entries.lookup_eq_none_iff.2 hnot, Option.none_or, hdefault]
  · intro h
    rcases Option.or_eq_some_iff.1 h with hlookup | ⟨hnone, hdefault⟩
    · exact .given (Entries.mem_of_lookup hlookup)
    · exact .default (Entries.lookup_eq_none_iff.1 hnone) hdefault

theorem isSupplied_eq (raw : Entries Value) (spec : ArgumentSpec) :
    isSupplied raw spec = ((raw.lookup spec.name).or spec.default).isSome := by
  rw [isSupplied, Entries.has, Option.isSome_or]

theorem argumentValue_of_or_eq_some {value : Value}
    (h : (raw.lookup spec.name).or spec.default = some value) :
    r.argumentValue field raw spec =
      match r.coerce spec.type value with
      | .ok c => .ok (some c)
      | .error reason => .error (argumentError field spec reason) := by
  cases hc : r.coerce spec.type value <;> simp [argumentValue, h, hc]

theorem argumentValue_of_or_eq_none (h : (raw.lookup spec.name).or spec.default = none) :
    r.argumentValue field raw spec =
      if spec.isRequired then .error (.missingArgument field spec.name) else .ok none := by
  simp only [argumentValue, h]

/-- A declaration has a value exactly if it takes one that coerces to it. -/
theorem argumentValue_eq_some_iff (hraw : raw.names.Nodup) {c : Value} :
    r.argumentValue field raw spec = .ok (some c) ↔
      ∃ value, Takes raw spec value ∧ r.coerce spec.type value = .ok c := by
  simp only [takes_iff hraw]
  cases h : (raw.lookup spec.name).or spec.default with
  | none =>
    rw [argumentValue_of_or_eq_none h]
    split <;> simp
  | some value =>
    rw [argumentValue_of_or_eq_some h]
    cases hc : r.coerce spec.type value <;> simp [hc]

/-- A declaration has no value exactly if it takes none and requires none. -/
theorem argumentValue_eq_none_iff :
    r.argumentValue field raw spec = .ok none ↔
      isSupplied raw spec = false ∧ spec.isRequired = false := by
  rw [isSupplied_eq]
  cases h : (raw.lookup spec.name).or spec.default with
  | none =>
    rw [argumentValue_of_or_eq_none h]
    cases spec.isRequired <;> simp
  | some value =>
    rw [argumentValue_of_or_eq_some h]
    cases r.coerce spec.type value <;> simp

theorem argumentValue_eq_error_iff (hraw : raw.names.Nodup) {e : FieldError} :
    r.argumentValue field raw spec = .error e ↔ Fails r field raw spec e := by
  constructor
  · intro h
    rcases argumentValue_eq_error h with
      ⟨hnone, hrequired, rfl⟩ | ⟨value, reason, hvalue, hreason, rfl⟩
    · obtain ⟨hlookup, hdefault⟩ := Option.or_eq_none_iff.1 hnone
      exact .missing (Entries.lookup_eq_none_iff.1 hlookup) hdefault hrequired
    · exact .uncoerced ((takes_iff hraw).2 hvalue) hreason
  · rintro (⟨hnot, hdefault, hrequired⟩ | ⟨htakes, hreason⟩)
    · have hnone : (raw.lookup spec.name).or spec.default = none :=
        Option.or_eq_none_iff.2 ⟨Entries.lookup_eq_none_iff.2 hnot, hdefault⟩
      rw [argumentValue_of_or_eq_none hnone, if_pos hrequired]
    · rw [argumentValue_of_or_eq_some ((takes_iff hraw).1 htakes), hreason]

/-- A declaration that does not fail has a value, or does without. -/
theorem exists_argumentValue_iff (hraw : raw.names.Nodup) :
    (∃ found, r.argumentValue field raw spec = .ok found) ↔ ∀ e, ¬ Fails r field raw spec e := by
  simp only [← argumentValue_eq_error_iff hraw]
  cases r.argumentValue field raw spec <;> simp

theorem not_fails_iff : (∀ e, ¬ Fails r field raw spec e) ↔
    (spec.isRequired → spec.default = none → spec.name ∈ raw.names) ∧
      ∀ value, Takes raw spec value → ∃ c, r.coerce spec.type value = .ok c := by
  constructor
  · intro h
    refine ⟨fun hrequired hdefault => ?_, fun value htakes => ?_⟩
    · by_contra hnot
      exact h _ (.missing hnot hdefault hrequired)
    · cases hc : r.coerce spec.type value with
      | ok c => exact ⟨c, rfl⟩
      | error reason => exact absurd (.uncoerced htakes hc) (h _)
  · rintro ⟨hneeded, hcoerces⟩ _ (⟨hnot, hdefault, hrequired⟩ | ⟨htakes, hreason⟩)
    · exact hnot (hneeded hrequired hdefault)
    · obtain ⟨c, hc⟩ := hcoerces _ htakes
      cases hc.symm.trans hreason

/-! ## The record -/

/-- The entry of a declaration in the record, if it has a value. -/
def entryOf? (r : Registry σ ν) (field : String) (raw : Entries Value) (spec : ArgumentSpec) :
    Option (String × Value) :=
  match r.argumentValue field raw spec with
  | .ok (some value) => some (spec.name, value)
  | _ => none

theorem entryOf?_eq_some_iff {e : String × Value} :
    r.entryOf? field raw spec = some e ↔
      e.1 = spec.name ∧ r.argumentValue field raw spec = .ok (some e.2) := by
  obtain ⟨name, value⟩ := e
  unfold entryOf?
  split
  · rename_i found hfound
    simp only [hfound, Option.some.injEq, Prod.mk.injEq, Except.ok.injEq, eq_comm]
  · rename_i hnot
    exact ⟨nofun, fun h => absurd h.2 (hnot value)⟩

theorem entryOf?_eq_map {found : Option Value} (h : r.argumentValue field raw spec = .ok found) :
    r.entryOf? field raw spec = found.map (spec.name, ·) := by
  rw [entryOf?, h]
  cases found <;> rfl

/-- Binding adds the entries of the declarations in their order. -/
theorem values_of_bindFrom {bound b : BoundArguments}
    (hnodup : (specs.map ArgumentSpec.name).Nodup)
    (hfresh : ∀ spec ∈ specs, spec.name ∉ bound.values.names)
    (h : r.bindFrom raw bound specs = .ok b) :
    b.field = bound.field ∧
      b.values = bound.values ++ specs.filterMap (r.entryOf? bound.field raw) := by
  rw [bindFrom_eq_map hnodup, map_eq_ok_iff] at h
  obtain ⟨found, hfound, rfl⟩ := h
  exact ⟨BoundArguments.field_supplyAll .., BoundArguments.values_supplyAll hnodup hfresh
    ((mapM_eq_ok_iff.1 hfound).imp fun _ _ => entryOf?_eq_map)⟩

theorem values_of_bind {b : BoundArguments} (hnodup : (specs.map ArgumentSpec.name).Nodup)
    (h : r.bind field specs raw = .ok b) :
    b.field = field ∧ b.values = specs.filterMap (r.entryOf? field raw) :=
  values_of_bindFrom hnodup (fun _ _ => List.not_mem_nil) (bindFrom_of_bind h)

/-- Item by item, the record has the entries of the declarations that take a value. -/
theorem forall₂_values {b : BoundArguments} (hnodup : (specs.map ArgumentSpec.name).Nodup)
    (hraw : raw.names.Nodup) (h : r.bind field specs raw = .ok b) :
    List.Forall₂ (fun spec e => e.1 = spec.name ∧
        ∃ value, Takes raw spec value ∧ r.coerce spec.type value = .ok e.2)
      (specs.filter (isSupplied raw)) b.values := by
  have hsupplied : ∀ spec ∈ specs, isSupplied raw spec = (r.entryOf? field raw spec).isSome := by
    intro spec hspec
    have hvalue := argumentValue_of_bind hnodup h spec hspec
    cases hfound : b.get? spec.name with
    | none =>
      rw [hfound] at hvalue
      rw [(argumentValue_eq_none_iff.1 hvalue).1, entryOf?, hvalue]
      rfl
    | some c =>
      rw [hfound] at hvalue
      obtain ⟨value, htakes, -⟩ := (argumentValue_eq_some_iff hraw).1 hvalue
      rw [isSupplied_eq, (takes_iff hraw).1 htakes, entryOf?, hvalue]
      rfl
  rw [(values_of_bind hnodup h).2]
  refine (forall₂_filterMap hsupplied).imp fun spec e he => ?_
  obtain ⟨hname, hvalue⟩ := entryOf?_eq_some_iff.1 he
  exact ⟨hname, (argumentValue_eq_some_iff hraw).1 hvalue⟩

/-! ## Failures -/

/-- The given names that are not declared, in the order in which they are given. -/
def undeclared (specs : List ArgumentSpec) (raw : Entries Value) : List String :=
  raw.names.filter fun name => !(specs.map ArgumentSpec.name).contains name

theorem undeclared_eq_nil_iff :
    undeclared specs raw = [] ↔ ∀ name ∈ raw.names, name ∈ specs.map ArgumentSpec.name := by
  simp only [undeclared, List.filter_eq_nil_iff, Bool.not_eq_true', List.contains_eq_mem,
    decide_eq_false_iff_not, not_not]

/-- Of the given names, binding asks for the first one only that is not declared. -/
theorem bind_eq_head? (r : Registry σ ν) (field : String) (specs : List ArgumentSpec)
    (raw : Entries Value) : r.bind field specs raw =
      match (undeclared specs raw).head? with
      | some name => .error (.unknownArgument field name)
      | none => r.bindFrom raw (.empty field) specs := by
  rw [undeclared, List.head?_filter]
  rfl

theorem names_of_bind {b : BoundArguments} (h : r.bind field specs raw = .ok b) :
    ∀ name ∈ raw.names, name ∈ specs.map ArgumentSpec.name := by
  rw [bind_eq_head?] at h
  split at h
  · cases h
  · rename_i hhead
    exact undeclared_eq_nil_iff.1 (List.head?_eq_none_iff.1 hhead)

/-- Binding fails for the first given name that is not declared. -/
theorem bind_eq_unknown {before after : List String} {name : String}
    (hsplit : raw.names = before ++ name :: after)
    (hbefore : ∀ other ∈ before, other ∈ specs.map ArgumentSpec.name)
    (hname : name ∉ specs.map ArgumentSpec.name) :
    r.bind field specs raw = .error (.unknownArgument field name) := by
  have hfilter : (before.filter fun name => !(specs.map ArgumentSpec.name).contains name) = [] :=
    List.filter_eq_nil_iff.2 (by simpa using hbefore)
  rw [bind_eq_head?, undeclared, hsplit, List.filter_append, hfilter, List.nil_append,
    List.filter_cons_of_pos (by simpa using hname)]
  rfl

/-- Whether an error is the one that binding reports: that of the first given name that is not
declared, or, if all are, that of the first declaration that fails. -/
def FirstFailure (r : Registry σ ν) (field : String) (specs : List ArgumentSpec)
    (raw : Entries Value) (e : FieldError) : Prop :=
  (∃ before name after, raw.names = before ++ name :: after ∧
      (∀ other ∈ before, other ∈ specs.map ArgumentSpec.name) ∧
      name ∉ specs.map ArgumentSpec.name ∧ e = .unknownArgument field name) ∨
    (∀ name ∈ raw.names, name ∈ specs.map ArgumentSpec.name) ∧
      ∃ before spec after, specs = before ++ spec :: after ∧
        (∀ other ∈ before, ∀ e, ¬ Fails r field raw other e) ∧ Fails r field raw spec e

theorem bind_fails_iff (hnodup : (specs.map ArgumentSpec.name).Nodup) (hraw : raw.names.Nodup)
    {e : FieldError} : r.bind field specs raw = .error e ↔ FirstFailure r field specs raw e := by
  constructor
  · intro h
    rw [bind_eq_head?] at h
    split at h
    · rename_i name hhead
      rw [undeclared, List.head?_filter] at hhead
      obtain ⟨hname, before, after, hsplit, hbefore⟩ := List.find?_eq_some_iff_append.1 hhead
      exact .inl ⟨before, name, after, hsplit, by simpa using hbefore, by simpa using hname,
        (Except.error.inj h).symm⟩
    · rename_i hhead
      have hknown := undeclared_eq_nil_iff.1 (List.head?_eq_none_iff.1 hhead)
      obtain ⟨before, spec, after, hsplit, hbefore, hspec⟩ := (bindFrom_eq_error_iff hnodup).1 h
      exact .inr ⟨hknown, before, spec, after, hsplit,
        fun other hother => (exists_argumentValue_iff hraw).1 (hbefore other hother),
        (argumentValue_eq_error_iff hraw).1 hspec⟩
  · rintro (⟨before, name, after, hsplit, hbefore, hname, rfl⟩ |
      ⟨hknown, before, spec, after, rfl, hbefore, hspec⟩)
    · exact bind_eq_unknown hsplit hbefore hname
    · rw [bind_eq_bindFrom hknown, bindFrom_eq_error_iff hnodup]
      exact ⟨before, spec, after, rfl,
        fun other hother => (exists_argumentValue_iff hraw).2 (hbefore other hother),
        (argumentValue_eq_error_iff hraw).2 hspec⟩

/-! ## What binding does not notice -/

theorem bindFrom_congr {bound : BoundArguments} (hnodup : (specs.map ArgumentSpec.name).Nodup)
    (h : ∀ spec ∈ specs,
      r.argumentValue bound.field raw' spec = r.argumentValue bound.field raw spec) :
    r.bindFrom raw' bound specs = r.bindFrom raw bound specs := by
  rw [bindFrom_eq_map hnodup, bindFrom_eq_map hnodup, mapM_congr h]

/-- Given values that are the same to each declaration bind in the same way. -/
theorem bind_congr (hnodup : (specs.map ArgumentSpec.name).Nodup)
    (hunknown : undeclared specs raw' = undeclared specs raw)
    (h : ∀ spec ∈ specs, (raw'.lookup spec.name).or spec.default =
      (raw.lookup spec.name).or spec.default) :
    r.bind field specs raw' = r.bind field specs raw := by
  have hvalues : ∀ spec ∈ specs, r.argumentValue field raw' spec = r.argumentValue field raw spec :=
    fun spec hspec => by rw [argumentValue, argumentValue, h spec hspec]
  rw [bind_eq_head?, bind_eq_head?, hunknown]
  split
  · rfl
  · exact bindFrom_congr hnodup hvalues

/-- Whether given values are others in any order, with defaults added of declarations whose names
are not given; names that are not declared stay in their order. -/
structure Restates (specs : List ArgumentSpec) (raw' raw : Entries Value) : Prop where
  nodup : raw'.names.Nodup
  perm : ∃ added : Entries Value, raw'.Perm (raw ++ added) ∧
    ∀ e ∈ added, ∃ spec ∈ specs, spec.name = e.1 ∧ spec.name ∉ raw.names ∧ spec.default = some e.2
  undeclared : undeclared specs raw' = undeclared specs raw

/-- A declaration takes the same value from given values that are restated. -/
theorem Restates.takes_iff (h : Restates specs raw' raw)
    (hnodup : (specs.map ArgumentSpec.name).Nodup) (hspec : spec ∈ specs) {value : Value} :
    Takes raw' spec value ↔ Takes raw spec value := by
  obtain ⟨added, hperm, hadded⟩ := h.perm
  have hmem {e : String × Value} : e ∈ raw' ↔ e ∈ raw ∨ e ∈ added := by
    rw [hperm.mem_iff, List.mem_append]
  have hown {value : Value} (he : (spec.name, value) ∈ added) :
      spec.name ∉ raw.names ∧ spec.default = some value := by
    obtain ⟨other, hother, hname, hraw, hdefault⟩ := hadded _ he
    obtain rfl := List.inj_on_of_nodup_map hnodup hother hspec hname
    exact ⟨hraw, hdefault⟩
  constructor
  · rintro (hgiven | ⟨hraw, hdefault⟩)
    · rcases hmem.1 hgiven with hgiven | hgiven
      · exact .given hgiven
      · exact .default (hown hgiven).1 (hown hgiven).2
    · refine .default (fun hname => hraw ?_) hdefault
      obtain ⟨e, he, hname⟩ := List.mem_map.1 hname
      exact List.mem_map.2 ⟨e, hmem.2 (.inl he), hname⟩
  · rintro (hgiven | ⟨hraw, hdefault⟩)
    · exact .given (hmem.2 (.inl hgiven))
    · by_cases hname : spec.name ∈ raw'.names
      · obtain ⟨⟨name, other⟩, he, rfl⟩ := List.mem_map.1 hname
        rcases hmem.1 he with he' | he'
        · exact absurd (List.mem_map_of_mem he') hraw
        · obtain rfl := Option.some.inj ((hown he').2.symm.trans hdefault)
          exact .given he
      · exact .default hname hdefault

theorem Restates.bind_eq (h : Restates specs raw' raw)
    (hnodup : (specs.map ArgumentSpec.name).Nodup) (hraw : raw.names.Nodup) :
    r.bind field specs raw' = r.bind field specs raw := by
  refine bind_congr hnodup h.undeclared fun spec hspec => Option.ext fun value => ?_
  rw [← Registry.takes_iff h.nodup, ← Registry.takes_iff hraw]
  exact h.takes_iff hnodup hspec

/-! ## Binding -/

/-- Binding succeeds if all given names are declared, all required arguments are given or have
defaults, and what the declarations take coerces.  The record then has an entry for each declaration
that takes a value, in the order of the declarations; else the first failure is reported.  The order
of what is given does not matter, nor whether a default is given, too. -/
theorem bind_follows_declarations (r : Registry σ ν) (field : String) {specs : List ArgumentSpec}
    {raw : Entries Value} (hnodup : (specs.map ArgumentSpec.name).Nodup)
    (hraw : raw.names.Nodup) :
    ((∃ b, r.bind field specs raw = .ok b) ↔
      (∀ name ∈ raw.names, name ∈ specs.map ArgumentSpec.name) ∧
      (∀ spec ∈ specs, spec.isRequired → spec.default = none → spec.name ∈ raw.names) ∧
      ∀ spec ∈ specs, ∀ value, Takes raw spec value →
        ∃ c, r.coerce spec.type value = .ok c) ∧
    (∀ b, r.bind field specs raw = .ok b → b.field = field ∧
      List.Forall₂ (fun spec e => e.1 = spec.name ∧
          ∃ value, Takes raw spec value ∧ r.coerce spec.type value = .ok e.2)
        (specs.filter (isSupplied raw)) b.values) ∧
    (∀ e, r.bind field specs raw = .error e ↔ FirstFailure r field specs raw e) ∧
    ∀ raw', Restates specs raw' raw → r.bind field specs raw' = r.bind field specs raw := by
  refine ⟨?_, fun b hb => ⟨(values_of_bind hnodup hb).1, forall₂_values hnodup hraw hb⟩,
    fun e => bind_fails_iff hnodup hraw, fun raw' h => h.bind_eq hnodup hraw⟩
  have hspecs : (∀ spec ∈ specs, ∃ found, r.argumentValue field raw spec = .ok found) ↔
      (∀ spec ∈ specs, spec.isRequired → spec.default = none → spec.name ∈ raw.names) ∧
        ∀ spec ∈ specs, ∀ value, Takes raw spec value →
          ∃ c, r.coerce spec.type value = .ok c := by
    rw [← forall₂_and]
    exact forall₂_congr fun spec _ => (exists_argumentValue_iff hraw).trans not_fails_iff
  rw [← hspecs]
  constructor
  · rintro ⟨b, hb⟩
    exact ⟨names_of_bind hb, fun spec hspec => ⟨_, argumentValue_of_bind hnodup hb spec hspec⟩⟩
  · rintro ⟨hknown, hvalues⟩
    obtain ⟨b, hb, -⟩ := exists_bind hnodup hknown hvalues
    exact ⟨b, hb⟩

/-! ## A search for books -/

/-- The arguments of a search, of which one has a default. -/
def searchArguments : List ArgumentSpec :=
  [{ name := "author", type := .namedNonNull builtin.string },
    { name := "limit", type := .namedNonNull builtin.int, default := some (.int 10) },
    { name := "titles", type := .namedList builtin.string }]

/-- A search leaves out the limit, and one title stands for a list of them. -/
def searchValues : Entries Value := [("titles", .string "Emma"), ("author", .string "Austen")]

/-- The search binds, whether or not the limit is written out; without the author it does not. -/
theorem bind_follows_declarations_search :
    (searchArguments.map ArgumentSpec.name).Nodup ∧ searchValues.names.Nodup ∧
    (∃ b, (empty "Query" : Registry Unit Unit).bind "search" searchArguments searchValues = .ok b ∧
      b.values.map Prod.fst = ["author", "limit", "titles"]) ∧
    (empty "Query" : Registry Unit Unit).bind "search" searchArguments
        [("limit", .int 10), ("author", .string "Austen"), ("titles", .string "Emma")] =
      (empty "Query" : Registry Unit Unit).bind "search" searchArguments searchValues ∧
    (empty "Query" : Registry Unit Unit).bind "search" searchArguments
      [("titles", .string "Emma"), ("limit", .string "all")] =
        .error (.missingArgument "search" "author") := by
  have hnodup : (searchArguments.map ArgumentSpec.name).Nodup := by decide
  have hraw : searchValues.names.Nodup := by decide
  obtain ⟨hok, hvalues, -, hrestates⟩ :=
    bind_follows_declarations (empty "Query" : Registry Unit Unit) "search" hnodup hraw
  have hcoerces : ∀ spec ∈ searchArguments, ∀ value, Takes searchValues spec value →
      ∃ c, (empty "Query" : Registry Unit Unit).coerce spec.type value = .ok c := by
    refine List.forall_mem_cons.2 ⟨?_, List.forall_mem_cons.2 ⟨?_, List.forall_mem_singleton.2 ?_⟩⟩
    all_goals
      intro value htakes
      obtain rfl := Option.some.inj ((takes_iff hraw).1 htakes)
      exact ⟨_, rfl⟩
  obtain ⟨b, hb⟩ := hok.2 ⟨by decide, by decide, hcoerces⟩
  have hnames : searchArguments.map ArgumentSpec.name = b.values.map Prod.fst :=
    map_eq_of_forall₂ (hvalues b hb).2 fun _ _ he => he.1.symm
  refine ⟨hnodup, hraw, ⟨b, hb, hnames.symm⟩, hrestates _ ⟨by decide, ?_, rfl⟩, rfl⟩
  refine ⟨[("limit", .int 10)], ?_, ?_⟩
  · exact List.reverse_perm (searchValues ++ [("limit", .int 10)])
  · exact List.forall_mem_singleton.2 ⟨_, .tail _ (.head _), rfl, by decide, rfl⟩

end Gazette.Registry
