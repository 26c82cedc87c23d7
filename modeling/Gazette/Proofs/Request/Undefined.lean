import Gazette.Proofs.Lists
import Gazette.Proofs.Request.Failures
import Gazette.Proofs.Request.Places

/-!
# Undefined variables

A variable is undefined if it can be null, has no default and is not given.  An argument written as
such a variable is not left out but null (`Bookshop.not_left_out_remark`).  So a request has the
response and the effect of one with null in its place, and of one that leaves the argument out only
where null means nothing: the argument has no default, and the resolver does not tell null from a
missing argument (`Field.Neutral`, `Schema.respond_of_omits`).
-/

namespace Gazette

/-! ## Entries without some nulls -/

namespace Entries

/-- Whether entries are the same, but for nulls under names of `out` that are dropped. -/
inductive DropsNulls (out : String → Prop) : Entries Value → Entries Value → Prop
  | nil : DropsNulls out [] []
  | keep (e : String × Value) {rest rest' : Entries Value} (h : DropsNulls out rest rest') :
    DropsNulls out (e :: rest) (e :: rest')
  | drop {name : String} {rest rest' : Entries Value} (hout : out name)
    (hfresh : name ∉ rest'.names) (h : DropsNulls out rest rest') :
    DropsNulls out ((name, .null) :: rest) rest'

/-- Whether look-ups agree, but for names of `out` where the first one finds null and the second
nothing. -/
def LacksNulls (out : String → Prop) (raw raw' : Entries Value) : Prop :=
  ∀ name, raw.lookup name = raw'.lookup name ∨
    out name ∧ raw.lookup name = some .null ∧ raw'.lookup name = none

theorem LacksNulls.erase {out : String → Prop} {raw raw' : Entries Value}
    (h : raw.LacksNulls out raw') (name : String) :
    (Entries.erase name raw).LacksNulls out (Entries.erase name raw') := by
  intro other
  by_cases hother : other = name
  · exact .inl (by rw [hother, lookup_erase_self, lookup_erase_self])
  · rw [lookup_erase_of_ne hother, lookup_erase_of_ne hother]
    exact h other

namespace DropsNulls

variable {out : String → Prop} {raw raw' : Entries Value} {name : String}

theorem refl (out : String → Prop) : (entries : Entries Value) → entries.DropsNulls out entries
  | [] => .nil
  | e :: rest => .keep e (refl out rest)

theorem lacksNulls (h : DropsNulls out raw raw') : raw.LacksNulls out raw' := by
  intro name
  induction h with
  | nil => exact .inl rfl
  | keep e h ih =>
    rw [List.lookup_cons, List.lookup_cons]
    split
    · exact .inl rfl
    · exact ih
  | @drop key rest rest' hout hfresh h ih =>
    rw [List.lookup_cons]
    by_cases hname : name = key
    · subst hname
      rw [beq_self_eq_true]
      exact .inr ⟨hout, rfl, Entries.lookup_eq_none_iff.2 hfresh⟩
    · rw [beq_eq_false_iff_ne.2 hname]
      exact ih

theorem mem_names (h : DropsNulls out raw raw') (hname : name ∈ raw'.names) : name ∈ raw.names := by
  induction h with
  | nil => exact hname
  | keep e h ih => exact (List.mem_cons.1 hname).elim (· ▸ .head _) fun hname => .tail _ (ih hname)
  | drop hout hfresh h ih => exact .tail _ (ih hname)

theorem find?_names (h : DropsNulls out raw raw') {p : String → Bool}
    (hp : ∀ name, out name → p name = false) : raw.names.find? p = raw'.names.find? p := by
  induction h with
  | nil => rfl
  | keep e h ih =>
    rw [Entries.names, List.map_cons, List.find?_cons, Entries.names, List.map_cons,
      List.find?_cons]
    split
    · rfl
    · exact ih
  | drop hout hfresh h ih =>
    rw [Entries.names, List.map_cons, List.find?_cons, hp _ hout]
    exact ih

theorem append (h : DropsNulls out raw raw') {more : Entries Value}
    (hmore : ∀ name ∈ raw.names, out name → name ∉ more.names) :
    DropsNulls out (raw ++ more) (raw' ++ more) := by
  induction h with
  | nil => exact refl out more
  | keep e h ih => exact .keep e (ih fun name hname => hmore name (.tail _ hname))
  | drop hout hfresh h ih =>
    refine .drop hout (fun hmem => ?_) (ih fun name hname => hmore name (.tail _ hname))
    rw [Entries.names, List.map_append, List.mem_append] at hmem
    exact hmem.elim hfresh (hmore _ (.head _) hout)

theorem append_null (h : DropsNulls out raw raw') (hout : out name) (hname : name ∉ raw'.names) :
    DropsNulls out (raw ++ [(name, .null)]) raw' := by
  induction h with
  | nil => exact .drop hout hname .nil
  | keep e h ih => exact .keep e (ih fun hmem => hname (.tail _ hmem))
  | drop hout' hfresh h ih => exact .drop hout' hfresh (ih hname)

theorem put (h : DropsNulls out raw raw') (hname : ¬ out name) (value : Value) :
    DropsNulls out (Entries.put name value raw) (Entries.put name value raw') := by
  induction h with
  | nil => exact .keep _ .nil
  | keep e h ih =>
    rw [Entries.put, Entries.put]
    split
    · exact .keep _ h
    · exact .keep _ ih
  | @drop key rest rest' hout hfresh h ih =>
    have hne : key ≠ name := fun heq => hname (heq ▸ hout)
    rw [Entries.put, if_neg hne]
    exact .drop hout (fun hmem => (Entries.mem_names_put.1 hmem).elim hfresh hne) ih

end DropsNulls

end Entries

/-- Whether records have the same arguments, but for some of `out` that are null in the first and
missing in the second. -/
structure BoundArguments.DropsNulls (out : String → Prop) (b b' : BoundArguments) : Prop where
  field_eq : b.field = b'.field
  values : b.values.DropsNulls out b'.values

namespace BoundArguments.DropsNulls

variable {out : String → Prop} {b b' : BoundArguments} {name : String}

theorem supply (h : b.DropsNulls out b') {found : Option Value}
    (hfresh : out name → found = none ∨ name ∉ b.values.names) :
    (b.supply name found).DropsNulls out (b'.supply name found) := by
  cases found with
  | none => exact h
  | some value =>
    refine ⟨h.field_eq, ?_⟩
    show Entries.DropsNulls out (Entries.put ..) (Entries.put ..)
    by_cases hout : out name
    · have hfresh := (hfresh hout).resolve_left nofun
      rw [Entries.put_of_not_mem hfresh,
        Entries.put_of_not_mem fun hmem => hfresh (h.values.mem_names hmem)]
      refine h.values.append fun other hother _ hmem => hfresh ?_
      obtain rfl : other = name := List.mem_singleton.1 hmem
      exact hother
    · exact h.values.put hout value

theorem supply_null (h : b.DropsNulls out b') (hout : out name)
    (hfresh : name ∉ b.values.names) : (b.supply name (some .null)).DropsNulls out b' := by
  refine ⟨h.field_eq, ?_⟩
  show Entries.DropsNulls out (Entries.put ..) _
  rw [Entries.put_of_not_mem hfresh]
  exact h.values.append_null hout fun hmem => hfresh (h.values.mem_names hmem)

end BoundArguments.DropsNulls

/-- Whether the arguments `out` of a field mean the same when they are null as when they are left
out: they can be null and have no default, and the resolver does not tell the one from the other. -/
structure Field.Neutral {σ ν : Type} (f : Field σ ν) (out : String → Prop) : Prop where
  declared : ∀ name, out name → name ∈ f.arguments.map ArgumentSpec.name
  nullable : ∀ spec ∈ f.arguments, out spec.name →
    spec.type.isNonNull = false ∧ spec.default = none
  resolver : ∀ resolve, f.resolver = some resolve → ∀ parent b b' s, b.DropsNulls out b' →
    resolve parent b s = resolve parent b' s

variable {σ ν : Type} {out : String → Prop}

theorem Field.Neutral.lift {f : Field σ ν} (h : f.Neutral out) (root : ν) :
    (Registry.liftField root f).Neutral out where
  declared := h.declared
  nullable := h.nullable
  resolver resolve hresolve parent b b' s hdrops := by
    obtain ⟨resolve', hresolve', rfl⟩ := Option.map_eq_some_iff.1 hresolve
    simp only [Registry.liftResolver, h.resolver resolve' hresolve' _ b b' s hdrops]

/-! ## Binding -/

namespace Registry

variable {r : Registry σ ν}

theorem argumentValue_of_null {field : String} {raw : Entries Value} {spec : ArgumentSpec}
    (hraw : raw.lookup spec.name = some .null) (htype : spec.type.isNonNull = false) :
    r.argumentValue field raw spec = .ok (some .null) := by
  rw [argumentValue, hraw]
  simp only [Option.some_or, coerce_null htype]

/-- An argument that is neither given nor has a default has no value. -/
theorem eq_none_of_argumentValue {field : String} {raw : Entries Value} {spec : ArgumentSpec}
    {found : Option Value} (hraw : raw.lookup spec.name = none) (hdefault : spec.default = none)
    (h : r.argumentValue field raw spec = .ok found) : found = none := by
  rw [argumentValue, hraw, hdefault] at h
  dsimp only [Option.or] at h
  split at h
  · cases h
  · exact (Except.ok.inj h).symm

theorem argumentValue_of_missing {field : String} {raw : Entries Value} {spec : ArgumentSpec}
    (hraw : raw.lookup spec.name = none) (htype : spec.type.isNonNull = false)
    (hdefault : spec.default = none) : r.argumentValue field raw spec = .ok none := by
  rw [argumentValue, hraw, hdefault]
  simp [ArgumentSpec.isRequired, htype]

/-- Binding ends with the same error, or in records of which one lacks some nulls. -/
theorem bindFrom_dropsNulls {specs : List ArgumentSpec}
    (hnullable : ∀ spec ∈ specs, out spec.name →
      spec.type.isNonNull = false ∧ spec.default = none) {raw raw' : Entries Value}
    (hraw : raw.LacksNulls out raw') {bound bound' : BoundArguments}
    (hbound : bound.DropsNulls out bound')
    (hdone : ∀ name ∈ bound.values.names, raw.lookup name = none) :
    (∃ e, r.bindFrom raw bound specs = .error e ∧ r.bindFrom raw' bound' specs = .error e) ∨
      ∃ b b', r.bindFrom raw bound specs = .ok b ∧ r.bindFrom raw' bound' specs = .ok b' ∧
        b.DropsNulls out b' := by
  induction specs generalizing raw raw' bound bound' with
  | nil => exact .inr ⟨bound, bound', rfl, rfl, hbound⟩
  | cons spec rest ih =>
    -- the other declarations, whatever is bound to this one
    have hnext {found found' : Option Value}
        (h : (bound.supply spec.name found).DropsNulls out (bound'.supply spec.name found')) :=
      ih (fun other hother => hnullable other (.tail _ hother)) (hraw.erase spec.name) h
        fun name hname => by
        by_cases heq : name = spec.name
        · rw [heq, Entries.lookup_erase_self]
        · rw [Entries.lookup_erase_of_ne heq]
          exact hdone name ((BoundArguments.mem_names_supply hname).resolve_right heq)
    rw [bindFrom_cons, bindFrom_cons]
    rcases hraw spec.name with hlookup | ⟨hout, hnull, hnone⟩
    · have hsame : r.argumentValue bound'.field raw' spec =
          r.argumentValue bound.field raw spec := by
        rw [argumentValue, argumentValue, hlookup, hbound.field_eq]
      rw [hsame]
      cases hvalue : r.argumentValue bound.field raw spec with
      | error e => exact .inl ⟨e, rfl, rfl⟩
      | ok found =>
        -- a value for such an argument is a given one, so nothing is bound under its name yet
        refine hnext (hbound.supply fun hout => or_iff_not_imp_right.2 fun hmem => ?_)
        have hgiven := hdone spec.name (not_not.1 hmem)
        exact eq_none_of_argumentValue hgiven (hnullable spec (.head _) hout).2 hvalue
    · obtain ⟨htype, hdefault⟩ := hnullable spec (.head _) hout
      have hfresh : spec.name ∉ bound.values.names := fun hmem => by
        rw [hdone _ hmem] at hnull
        cases hnull
      rw [argumentValue_of_null hnull htype, argumentValue_of_missing hnone htype hdefault]
      have hsupply : (bound.supply spec.name (some .null)).DropsNulls out
          (bound'.supply spec.name none) := hbound.supply_null hout hfresh
      exact hnext hsupply

theorem bind_dropsNulls {f : Field σ ν} (hf : f.Neutral out) {raw raw' : Entries Value}
    (h : raw.DropsNulls out raw') :
    (∃ e, r.bind f.name f.arguments raw = .error e ∧ r.bind f.name f.arguments raw' = .error e) ∨
      ∃ b b', r.bind f.name f.arguments raw = .ok b ∧ r.bind f.name f.arguments raw' = .ok b' ∧
        b.DropsNulls out b' := by
  have hnames := h.find?_names (p := fun name =>
    !(f.arguments.map ArgumentSpec.name).contains name) fun name hname => by
      simpa using hf.declared name hname
  rw [bind, bind, hnames]
  split
  · exact .inl ⟨_, rfl, rfl⟩
  · exact bindFrom_dropsNulls hf.nullable h.lacksNulls ⟨rfl, .nil⟩ (List.forall_mem_nil _)

end Registry

namespace Execution

variable {raw raw' : Entries Value} {field : Field σ ν}

/-- Defaults are added in the same way, as a dropped argument has none. -/
theorem dropsNulls_withDefaults (hfield : field.Neutral out) (h : raw.DropsNulls out raw') :
    Entries.DropsNulls out (withDefaults field.arguments raw)
      (withDefaults field.arguments raw') := by
  obtain ⟨more, hmore, hmore', hnames⟩ : ∃ more : Entries Value,
      withDefaults field.arguments raw = raw ++ more ∧
      withDefaults field.arguments raw' = raw' ++ more ∧ ∀ name ∈ more.names, ¬ out name := by
    refine ⟨_, rfl, congrArg (raw' ++ ·) (List.filterMap_congr fun spec hspec => ?_),
      fun name hname hout => ?_⟩
    · cases hdefault : spec.default with
      | none => rfl
      | some value =>
        rcases h.lacksNulls spec.name with hlookup | ⟨hout, -, -⟩
        · have hhas : raw.has spec.name = raw'.has spec.name := congrArg Option.isSome hlookup
          simp only [hhas]
        · rw [(hfield.nullable spec hspec hout).2] at hdefault
          cases hdefault
    · obtain ⟨e, he, rfl⟩ := List.mem_map.1 hname
      obtain ⟨spec, hspec, hsome⟩ := List.mem_filterMap.1 he
      split at hsome
      · rename_i hdefault
        split at hsome
        · cases hsome
        · obtain rfl := Option.some.inj hsome
          rw [(hfield.nullable spec hspec hout).2] at hdefault
          cases hdefault
      · cases hsome
  rw [hmore, hmore']
  exact h.append fun name _ hout hmem => hnames name hmem hout

/-- A field resolves to the same without some nulls. -/
theorem resolveField_of_dropsNulls [Node ν] (hfield : field.Neutral out)
    (h : raw.DropsNulls out raw') (r : Registry σ ν) (object : String) (parent : ν) (s : σ) :
    resolveField r object field parent (withDefaults field.arguments raw) s =
      resolveField r object field parent (withDefaults field.arguments raw') s := by
  rw [resolveField, resolveField]
  rcases Registry.bind_dropsNulls (r := r) hfield (dropsNulls_withDefaults hfield h) with
    ⟨e, herror, herror'⟩ | ⟨b, b', hok, hok', hdrops⟩
  · rw [herror, herror']
  · have hresult : fieldResult object field parent b s = fieldResult object field parent b' s := by
      cases hresolver : field.resolver with
      | some resolve =>
        simp only [fieldResult, hresolver]
        exact hfield.resolver resolve hresolver parent b b' s hdrops
      | none => simp only [fieldResult, hresolver]
    rw [hok, hok']
    dsimp only
    rw [hresult]

/-! ## Written arguments -/

namespace Scope

/-- Whether a variable can be null, has no default and is not given. -/
def IsUndefined (scope : Scope σ ν) (name : String) : Prop :=
  ∃ v, scope.declarations.find? (fun v => v.name = name) = some v ∧ v.type.isNonNull = false ∧
    v.default = none ∧ scope.given name = none

/-- Whether arguments are written the same, with the same values of variables, but for some that are
undefined variables in the first request: these are null in the second one, or not written, which is
for names of `out` only. -/
inductive Omits (scope scope' : Scope σ ν) (out : String → Prop) : Arguments → Arguments → Prop
  | nil : Omits scope scope' out [] []
  | keep {name : String} {literal : Literal} {rest rest' : Arguments}
    (hvalues : ∀ x ∈ literal.references, scope.valueOf? x = scope'.valueOf? x)
    (h : Omits scope scope' out rest rest') :
    Omits scope scope' out ((name, literal) :: rest) ((name, literal) :: rest')
  | null {name x : String} {rest rest' : Arguments} (hundefined : scope.IsUndefined x)
    (h : Omits scope scope' out rest rest') :
    Omits scope scope' out ((name, .reference x) :: rest) ((name, .null) :: rest')
  | leave {name x : String} {rest rest' : Arguments} (hout : out name)
    (hundefined : scope.IsUndefined x) (hfresh : name ∉ rest'.map Prod.fst)
    (h : Omits scope scope' out rest rest') :
    Omits scope scope' out ((name, .reference x) :: rest) rest'

variable {scope scope' : Scope σ ν}

/-- An undefined variable is null. -/
theorem IsUndefined.eval?_eq {name : String} (h : scope.IsUndefined name) :
    (Literal.reference name).eval? scope.valueOf? = some .null := by
  obtain ⟨v, hfind, htype, hdefault, hgiven⟩ := h
  have hname : v.name = name := key_of_find? hfind
  rw [Literal.eval?, valueOf?, hfind, Option.bind_some, hname, hgiven, Option.none_or,
    VariableDeclaration.fallback?, hdefault]
  simp only [htype, Bool.false_eq_true, if_false]

end Scope

end Execution

namespace Literal

variable {given given' : String → Option Value}

mutual

/-- The value of a literal depends on the variables in it only. -/
theorem eval?_congr : (l : Literal) → (∀ name ∈ l.references, given name = given' name) →
    l.eval? given = l.eval? given'
  | .reference name, h => h name (by simp [references])
  | .null, _ | .number _, _ | .string _, _ | .boolean _, _ | .enum _, _ => rfl
  | .list items, h => by
    rw [eval?, eval?, evalItems?_congr items (by simpa only [references] using h)]
  | .object members, h => by
    rw [eval?, eval?, evalMembers?_congr members (by simpa only [references] using h)]

theorem evalItems?_congr : (items : List Literal) →
    (∀ name ∈ referencesOfItems items, given name = given' name) →
    evalItems? given items = evalItems? given' items
  | [], _ => rfl
  | l :: rest, h => by
    rw [referencesOfItems] at h
    rw [evalItems?, evalItems?, eval?_congr l fun name hname => h name (by simp [hname]),
      evalItems?_congr rest fun name hname => h name (by simp [hname])]

theorem evalMembers?_congr : (members : List (String × Literal)) →
    (∀ name ∈ referencesOfMembers members, given name = given' name) →
    evalMembers? given members = evalMembers? given' members
  | [], _ => rfl
  | (key, l) :: rest, h => by
    rw [referencesOfMembers] at h
    rw [evalMembers?, evalMembers?, eval?_congr l fun name hname => h name (by simp [hname]),
      evalMembers?_congr rest fun name hname => h name (by simp [hname])]

end

end Literal

namespace Execution.Scope

variable {scope scope' : Scope σ ν} {arguments arguments' : Arguments}

theorem firstUnbound_congr {names : List String}
    (h : ∀ x ∈ names, scope.valueOf? x = scope'.valueOf? x) :
    scope.firstUnbound names = scope'.firstUnbound names := by
  have hfind : (names.find? fun x => (scope.valueOf? x).isNone) =
      names.find? fun x => (scope'.valueOf? x).isNone := by
    induction names with
    | nil => rfl
    | cons x rest ih =>
      rw [List.find?_cons, List.find?_cons, h x (.head _), ih fun y hy => h y (.tail _ hy)]
  rw [firstUnbound, firstUnbound, hfind]

theorem written_cons_of_some {name : String} {literal : Literal} {value : Value}
    (h : literal.eval? scope.valueOf? = some value) (rest : Arguments) :
    scope.written ((name, literal) :: rest) =
      (scope.written rest).map fun values => (name, value) :: values := by
  rw [written, h]
  cases scope.written rest <;> rfl

/-- Whether arguments have values that lack some nulls in the second request, or have none for the
same reason. -/
def WrittenDropsNulls (scope scope' : Scope σ ν) (out : String → Prop)
    (arguments arguments' : Arguments) : Prop :=
  (∃ issue, scope.written arguments = .error issue ∧ scope'.written arguments' = .error issue) ∨
    ∃ values values' : Entries Value, scope.written arguments = .ok values ∧
      scope'.written arguments' = .ok values' ∧ values.DropsNulls out values' ∧
      values'.names = arguments'.map Prod.fst

theorem WrittenDropsNulls.cons {name : String} {literal literal' : Literal} {value : Value}
    (hvalue : literal.eval? scope.valueOf? = some value)
    (hvalue' : literal'.eval? scope'.valueOf? = some value)
    (h : scope.WrittenDropsNulls scope' out arguments arguments') :
    scope.WrittenDropsNulls scope' out ((name, literal) :: arguments)
      ((name, literal') :: arguments') := by
  unfold WrittenDropsNulls
  rw [written_cons_of_some hvalue, written_cons_of_some hvalue']
  rcases h with ⟨issue, herror, herror'⟩ | ⟨values, values', hok, hok', hdrops, hnames⟩
  · exact .inl ⟨issue, by rw [herror]; rfl, by rw [herror']; rfl⟩
  · refine .inr ⟨_, _, by rw [hok]; rfl, by rw [hok']; rfl, hdrops.keep (name, value), ?_⟩
    rw [Entries.names, List.map_cons, List.map_cons, ← hnames]
    rfl

theorem Omits.written (h : scope.Omits scope' out arguments arguments') :
    scope.WrittenDropsNulls scope' out arguments arguments' := by
  induction h with
  | nil => exact .inr ⟨[], [], rfl, rfl, .nil, rfl⟩
  | @keep name literal rest rest' hvalues h ih =>
    have heval := literal.eval?_congr hvalues
    cases hvalue : literal.eval? scope.valueOf? with
    | none =>
      refine .inl ⟨.variableNotGiven (scope.firstUnbound literal.references), ?_, ?_⟩
      · rw [Scope.written, hvalue]
      · rw [Scope.written, ← heval, hvalue, firstUnbound_congr hvalues]
    | some value => exact ih.cons hvalue (heval.symm.trans hvalue)
  | null hundefined h ih =>
    have hnull : Literal.null.eval? scope'.valueOf? = some .null := rfl
    exact ih.cons hundefined.eval?_eq hnull
  | @leave name x rest rest' hout hundefined hfresh h ih =>
    unfold WrittenDropsNulls
    rw [written_cons_of_some hundefined.eval?_eq]
    rcases ih with ⟨issue, herror, herror'⟩ | ⟨values, values', hok, hok', hdrops, hnames⟩
    · exact .inl ⟨issue, by rw [herror]; rfl, herror'⟩
    · exact .inr ⟨_, values', by rw [hok]; rfl, hok', hdrops.drop hout (hnames ▸ hfresh), hnames⟩

/-- Whether arguments of a field leave out undefined variables only where these mean nothing to the
field. -/
def OmitsNeutral (scope scope' : Scope σ ν) (_ : ObjectType σ ν) (field : Field σ ν)
    (arguments arguments' : Arguments) : Prop :=
  ∃ out, field.Neutral out ∧ scope.Omits scope' out arguments arguments'

theorem OmitsNeutral.agrees [Node ν] {o : ObjectType σ ν} {field : Field σ ν}
    (h : scope.OmitsNeutral scope' o field arguments arguments') :
    scope.Agrees scope' o field arguments arguments' := by
  obtain ⟨out, hfield, homits⟩ := h
  rcases homits.written with herror | ⟨values, values', hok, hok', hdrops, -⟩
  · exact .inl herror
  · exact .inr ⟨values, values', hok, hok', fun parent s =>
      resolveField_of_dropsNulls hfield hdrops scope.registry o.name parent s⟩

end Execution.Scope

/-! ## Requests -/

namespace Schema

/-- Whether two accepted requests select the same, except that arguments which are undefined
variables in the first one are null in the second, or left out if null means nothing to their
fields. -/
structure Omits (schema : Schema σ ν) (request shorter : Request)
    (selected own : Selected σ (Subject ν)) : Prop where
  kind_eq : selected.operation.kind = own.operation.kind
  plans : (schema.scope request selected.operation).PairsAll
    ((schema.scope request selected.operation).OmitsNeutral (schema.scope shorter own.operation))
    selected.root selected.plans own.plans

/-- A request has the response, up to places, and the effect of one where undefined variables are
null, or are left out as arguments to whose fields null means nothing. -/
theorem respond_of_omits [Node ν] {schema : Schema σ ν} {request shorter : Request}
    {selected own : Selected σ (Subject ν)} (h : schema.select request = .ok selected)
    (hshorter : schema.select shorter = .ok own)
    (homits : schema.Omits request shorter selected own) (s : σ) :
    (schema.respond request s).1.unplaced = (schema.respond shorter s).1.unplaced ∧
      (schema.respond request s).2 = (schema.respond shorter s).2 := by
  have hroot : selected.root = own.root := by
    have hroot := rootOf?_of_select h
    rw [homits.kind_eq, rootOf?_of_select hshorter] at hroot
    exact (Option.some.inj hroot).symm
  rw [respond_of_select_ok h, respond_of_select_ok hshorter, ← hroot]
  have hshares : (schema.scope request selected.operation).Shares
      (schema.scope shorter own.operation) := ⟨rfl, rfl⟩
  exact Execution.unplaced_respond_of_pairsAll hshares (fun _ _ _ _ hrel => hrel.agrees)
    (object?_root_of_select h) homits.plans s

end Schema

/-- A string that is null is none, as one that is missing. -/
theorem BoundArguments.DropsNulls.optionalString_eq {b b' : BoundArguments}
    (h : b.DropsNulls out b') (name : String) :
    b.optionalString name = b'.optionalString name := by
  rw [optionalString, optionalString, get?, get?]
  rcases h.values.lacksNulls name with hlookup | ⟨-, hnull, hnone⟩
  · rw [hlookup]
  · rw [hnull, hnone]

namespace Bookshop

/-! ## A guest book -/

/-- Enters a name, and shows it. -/
def sign : Field (List String) Thing where
  name := "sign"
  type := .namedNonNull builtin.string
  arguments := [{ name := "as", type := .named builtin.string }]
  resolver := some fun _ arguments guests =>
    let name := (arguments.optionalString "as").getD "anonymous"
    (.ok (.string name), guests ++ [name])

/-- Shows a remark. -/
def remark : Field (List String) Thing where
  name := "remark"
  type := .named builtin.string
  arguments := [{ name := "text", type := .named builtin.string, default := some (.string "none") }]
  resolver := some fun _ arguments guests =>
    (.ok (.leaf ((arguments.get? "text").getD .null)), guests)

/-- The root of a guest book that can be signed. -/
def guestBook : ObjectType (List String) Thing where
  name := "GuestBook"
  fields := [sign, remark]

/-- The schema of the guest book, which keeps the names that have signed. -/
def guestSchema : Schema (List String) Thing where
  registry := ⟨Registry.builtinScalars.map .scalar ++ [.object guestBook], "GuestBook",
    some "GuestBook"⟩
  root := .shop
  depthLimit := Schema.defaultDepthLimit

/-- Whether requests select the field `name` only, where the second one leaves out an argument that
is an undefined variable. -/
def leavesOut (name argument : String) (request : Request)
    (selected own : Schema.Selected (List String) (Subject Thing)) : Bool :=
  selected.operation.kind = own.operation.kind &&
    match selected.plans, own.plans with
    | [.field head []], [.field head' []] =>
      head.key = head'.key && head.name = name && head'.name = name && head'.arguments.isEmpty &&
        match head.arguments with
        | [(written, .reference x)] =>
          written = argument &&
            (selected.operation.declarations.find? fun v => v.name = x).any fun v =>
              !v.type.isNonNull && v.default.isNone && (request.given x).isNone
        | _ => false
    | _, _ => false

theorem sign_neutral : sign.Neutral (· = "as") where
  declared name hname := hname ▸ .head _
  nullable spec hspec _ := by
    obtain rfl := List.mem_singleton.1 hspec
    exact ⟨rfl, rfl⟩
  resolver resolve hresolve parent b b' s hdrops := by
    obtain rfl := Option.some.inj hresolve
    dsimp only
    rw [hdrops.optionalString_eq]

section

variable {name argument : String} {request : Request}
  {selected own : Schema.Selected (List String) (Subject Thing)}

theorem isUndefined_of_any {scope : Execution.Scope (List String) (Subject Thing)} {x : String}
    (h : (scope.declarations.find? fun v => v.name = x).any fun v =>
      !v.type.isNonNull && v.default.isNone && (scope.given x).isNone) : scope.IsUndefined x := by
  cases hfind : scope.declarations.find? (fun v => v.name = x) with
  | none => rw [hfind] at h; cases h
  | some v =>
    rw [hfind, Option.any_some] at h
    simp only [Bool.and_eq_true, Bool.not_eq_true', Option.isNone_iff_eq_none] at h
    exact ⟨v, hfind, h.1.1, h.1.2, h.2⟩

/-- What a field with an undefined variable leaves out is related as its relation says. -/
theorem pairsAll_of_leavesOut (shorter : Request) (h : leavesOut name argument request selected own)
    {rel : ObjectType (List String) (Subject Thing) → Field (List String) (Subject Thing) →
      Arguments → Arguments → Prop}
    (hrel : ∀ field arguments arguments', selected.root.field? name = some field →
      (guestSchema.scope request selected.operation).Omits
        (guestSchema.scope shorter own.operation) (· = argument) arguments arguments' →
      rel selected.root field arguments arguments') :
    (guestSchema.scope request selected.operation).PairsAll rel selected.root selected.plans
      own.plans := by
  obtain ⟨-, h⟩ := Bool.and_eq_true_iff.1 h
  split at h
  · rename_i head head' hplans hplans'
    obtain ⟨h, hargument⟩ := Bool.and_eq_true_iff.1 h
    simp only [Bool.and_eq_true, decide_eq_true_iff, List.isEmpty_iff] at h
    obtain ⟨⟨⟨hkey, hname⟩, hname'⟩, hempty⟩ := h
    split at hargument
    · rename_i written x harguments
      obtain ⟨hwritten, hundefined⟩ := Bool.and_eq_true_iff.1 hargument
      rw [hplans, hplans']
      refine ⟨⟨hkey, hname.trans hname'.symm, fun field hfield => ⟨?_, fun _ _ => trivial⟩⟩,
        trivial⟩
      rw [harguments, hempty]
      exact hrel field _ _ (hname ▸ hfield) (.leave (of_decide_eq_true hwritten)
        (isUndefined_of_any hundefined) List.not_mem_nil .nil)
    · cases hargument
  · cases h

end

/-- A guest who is not named is anonymous, whether the variable for the name is not given or the
argument not written. -/
theorem respond_of_omits_sign :
    let request : Request := { query := "mutation($n: String) \x7b sign(as: $n) \x7d" }
    let shorter : Request := { query := "mutation \x7b sign \x7d" }
    (∃ selected own, guestSchema.select request = .ok selected ∧
        guestSchema.select shorter = .ok own ∧
        guestSchema.Omits request shorter selected own) ∧
      ∀ s, (guestSchema.respond request s).1.unplaced = (guestSchema.respond shorter s).1.unplaced ∧
        (guestSchema.respond request s).2 = (guestSchema.respond shorter s).2 := by
  intro request shorter
  have hselects : guestSchema.selects request fun selected =>
      selected.operation.kind = .mutation &&
        guestSchema.selects shorter (leavesOut "sign" "as" request selected) := by
    decide +kernel
  obtain ⟨selected, hselect, hcheck⟩ := Schema.exists_of_selects hselects
  obtain ⟨hkind, hcheck⟩ := Bool.and_eq_true_iff.1 hcheck
  obtain ⟨own, hown, hcheck⟩ := Schema.exists_of_selects hcheck
  have hroot := Schema.rootOf?_of_select hselect
  rw [of_decide_eq_true hkind] at hroot
  have hsign : selected.root.field? "sign" = some (Registry.liftField .shop sign) := by
    rw [← Option.some.inj hroot]
    rfl
  have homits : guestSchema.Omits request shorter selected own := by
    refine ⟨of_decide_eq_true (Bool.and_eq_true_iff.1 hcheck).1,
      pairsAll_of_leavesOut shorter hcheck ?_⟩
    intro field arguments arguments' hfield hrel
    obtain rfl := Option.some.inj (hsign.symm.trans hfield)
    exact ⟨_, sign_neutral.lift .shop, hrel⟩
  exact ⟨⟨selected, own, hselect, hown, homits⟩,
    Schema.respond_of_omits hselect hown homits⟩

/-- The text of a remark that is an undefined variable is null, and not the default that a remark
without a text has. -/
theorem not_left_out_remark :
    let request : Request := { query := "query($t: String) \x7b remark(text: $t) \x7d" }
    let shorter : Request := { query := "\x7b remark \x7d" }
    (∃ selected own, guestSchema.select request = .ok selected ∧
        guestSchema.select shorter = .ok own ∧
        (guestSchema.scope request selected.operation).PairsAll
          (fun _ _ arguments arguments' => (guestSchema.scope request selected.operation).Omits
            (guestSchema.scope shorter own.operation) (· = "text") arguments arguments')
          selected.root selected.plans own.plans) ∧
      (guestSchema.respond request []).1.data.text = (Value.object [("remark", .null)]).text ∧
      (guestSchema.respond shorter []).1.data.text =
        (Value.object [("remark", .string "none")]).text := by
  intro request shorter
  have hselects : guestSchema.selects request fun selected =>
      guestSchema.selects shorter (leavesOut "remark" "text" request selected) := by
    decide +kernel
  obtain ⟨selected, hselect, hcheck⟩ := Schema.exists_of_selects hselects
  obtain ⟨own, hown, hcheck⟩ := Schema.exists_of_selects hcheck
  refine ⟨⟨selected, own, hselect, hown,
    pairsAll_of_leavesOut shorter hcheck fun _ _ _ _ hrel => hrel⟩, ?_, ?_⟩
  · decide +kernel
  · decide +kernel

end Bookshop

end Gazette
