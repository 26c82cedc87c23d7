import Gazette.Proofs.Lists
import Gazette.Proofs.Schema.Registering

/-!
# Well-formed registries

What the check of a registry asks for is a list of requirements, in the order in which they are
checked (`requirements`).  The check accepts the registries that are well formed (`IsWellFormed`),
and for any other one reports the first requirement that does not hold (`check_built_iff`).
-/

namespace Gazette.Registry

variable {σ ν : Type}

/-- A registry whose names all refer to types that suit the place where they stand. -/
structure IsWellFormed (r : Registry σ ν) : Prop where
  query : ∃ o, .object o ∈ r.types ∧ o.name = r.query
  mutation : ∀ name ∈ r.mutation, ∃ o, .object o ∈ r.types ∧ o.name = name
  field : ∀ o, .object o ∈ r.types → ∀ f ∈ o.fields, f.type.baseName ∈ r.names
  interfaceField : ∀ i, .interface i ∈ r.types → ∀ f ∈ i.fields, f.type.baseName ∈ r.names
  argument : ∀ o, .object o ∈ r.types → ∀ f ∈ o.fields, ∀ spec ∈ f.arguments,
    ∃ t ∈ r.types, t.name = spec.type.baseName ∧ t.isInput
  default : ∀ o, .object o ∈ r.types → ∀ f ∈ o.fields, ∀ spec ∈ f.arguments,
    ∀ value ∈ spec.default, ∃ coerced, r.coerce spec.type value = .ok coerced
  implements : ∀ o, .object o ∈ r.types → ∀ name ∈ o.implements,
    ∃ i, .interface i ∈ r.types ∧ i.name = name ∧
      ∀ f ∈ i.fields, ∃ own ∈ o.fields, own.name = f.name ∧ own.type = f.type

/-! ## Requirements -/

/-- Something that the check of a registry asks for. -/
inductive Requirement (σ ν : Type) where
  | root (name : String)
  /-- A name that something refers to is registered. -/
  | registered (referrer name : String)
  | input (field : String) (spec : ArgumentSpec)
  | coerces (field : String) (spec : ArgumentSpec)
  | interface (object name : String)
  | declares (o : ObjectType σ ν) (i : InterfaceType) (f : InterfaceField)
  | agrees (o : ObjectType σ ν) (i : InterfaceType) (f : InterfaceField)

namespace Requirement

/-- Whether a registry meets a requirement. -/
def Holds (r : Registry σ ν) : Requirement σ ν → Prop
  | root name => ∃ o, r.object? name = some o
  | registered _ name => name ∈ r.names
  | input _ spec => ∃ t, r.find? spec.type.baseName = some t ∧ t.isInput
  | coerces _ spec => ∀ value ∈ spec.default, ∃ coerced, r.coerce spec.type value = .ok coerced
  | interface _ name => ∃ i, r.find? name = some (.interface i)
  | declares o _ f => ∃ own, o.field? f.name = some own
  | agrees o _ f => ∃ own, o.field? f.name = some own ∧ own.type = f.type

/-- The error for a requirement that does not hold. -/
def Reports (r : Registry σ ν) : Requirement σ ν → SchemaError → Prop
  | root name, e => e = .invalidRootType name
  | registered referrer name, e => e = .unknownType referrer name
  | input field spec, e => e = .notAnInputType field spec.name spec.type.baseName
  | coerces field spec, e => ∃ value ∈ spec.default, ∃ reason,
    r.coerce spec.type value = .error reason ∧ e = .invalidDefaultValue field spec.name reason
  | interface object name, e => e = .notAnInterface object name
  | declares o i f, e => e = .missingInterfaceField o.name i.name f.name
  | agrees o i f, e => ∃ own, o.field? f.name = some own ∧
    e = .interfaceFieldTypeMismatch o.name i.name f.name f.type.text own.type.text

theorem Reports.unique {r : Registry σ ν} {c : Requirement σ ν} {e e' : SchemaError}
    (h : c.Reports r e) (h' : c.Reports r e') : e = e' := by
  cases c with
  | coerces field spec =>
    obtain ⟨value, hvalue, reason, hreason, rfl⟩ := h
    obtain ⟨value', hvalue', reason', hreason', rfl⟩ := h'
    obtain rfl := Option.mem_unique hvalue hvalue'
    rw [hreason] at hreason'
    rw [Except.error.inj hreason']
  | agrees o i f =>
    obtain ⟨own, hown, rfl⟩ := h
    obtain ⟨own', hown', rfl⟩ := h'
    rw [hown] at hown'
    rw [Option.some.inj hown']
  | _ => exact h.trans h'.symm

end Requirement

open Requirement (Holds Reports)

/-- What an argument requires. -/
def argumentRequirements (field : String) (spec : ArgumentSpec) : List (Requirement σ ν) :=
  [.registered (field ++ "(" ++ spec.name ++ ")") spec.type.baseName, .input field spec,
    .coerces field spec]

/-- What a field of an object requires. -/
def fieldRequirements (object : String) (f : Field σ ν) : List (Requirement σ ν) :=
  let field := object ++ "." ++ f.name
  .registered field f.type.baseName :: f.arguments.flatMap (argumentRequirements field)

/-- The requirements of a name that an object implements. -/
def interfaceRequirements (r : Registry σ ν) (o : ObjectType σ ν) (name : String) :
    List (Requirement σ ν) :=
  .registered o.name name :: .interface o.name name ::
    match r.interface? name with
    | some i => i.fields.flatMap fun f => [.declares o i f, .agrees o i f]
    | none => []

/-- What a type requires. -/
def typeRequirements (r : Registry σ ν) : NamedType σ ν → List (Requirement σ ν)
  | .scalar _ | .enum _ => []
  | .object o =>
    o.fields.flatMap (fieldRequirements o.name) ++ o.implements.flatMap (r.interfaceRequirements o)
  | .interface i =>
    i.fields.flatMap fun f => [.registered (i.name ++ "." ++ f.name) f.type.baseName]

/-- The requirements of a registry, in the order in which they are checked. -/
def requirements (r : Registry σ ν) : List (Requirement σ ν) :=
  .root r.query :: (r.mutation.toList.map .root ++ r.types.flatMap r.typeRequirements)

/-- Whether an error is that of the first requirement that does not hold. -/
def FirstViolation (r : Registry σ ν) (cs : List (Requirement σ ν)) (e : SchemaError) : Prop :=
  ∃ before c after, cs = before ++ c :: after ∧ (∀ c' ∈ before, c'.Holds r) ∧ ¬ c.Holds r ∧
    c.Reports r e

theorem FirstViolation.unique {r : Registry σ ν} {cs : List (Requirement σ ν)} {e e' : SchemaError}
    (h : r.FirstViolation cs e) (h' : r.FirstViolation cs e') : e = e' := by
  obtain ⟨before, c, after, rfl, hbefore, hc, hreport⟩ := h
  obtain ⟨before', c', after', heq, hbefore', hc', hreport'⟩ := h'
  rcases List.append_eq_append_iff.1 heq with ⟨more, hmore, hcs⟩ | ⟨more, hmore, hcs⟩
  · cases more with
    | nil =>
      obtain ⟨rfl, -⟩ := List.cons.inj hcs
      exact hreport.unique hreport'
    | cons d more =>
      obtain ⟨rfl, -⟩ := List.cons.inj hcs
      exact absurd (hbefore' c (by simp [hmore])) hc
  · cases more with
    | nil =>
      obtain ⟨rfl, -⟩ := List.cons.inj hcs
      exact hreport.unique hreport'
    | cons d more =>
      obtain ⟨rfl, -⟩ := List.cons.inj hcs
      exact absurd (hbefore c' (by simp [hmore])) hc'

/-! ## What a check judges -/

/-- Whether a check succeeds if requirements hold, and reports the first one that does not. -/
def Judges {α : Type} (r : Registry σ ν) (cs : List (Requirement σ ν)) :
    Except SchemaError α → Prop
  | .ok _ => ∀ c ∈ cs, c.Holds r
  | .error e => r.FirstViolation cs e

section Rules

variable {α β : Type} {r : Registry σ ν} {c : Requirement σ ν} {cs ds : List (Requirement σ ν)}

theorem judges_ok (a : α) : r.Judges [] (.ok a) := List.forall_mem_nil _

theorem judges_error {e : SchemaError} (h : ¬ c.Holds r) (he : c.Reports r e) :
    r.Judges (c :: cs) (.error e : Except SchemaError α) :=
  ⟨[], c, cs, rfl, List.forall_mem_nil _, h, he⟩

theorem Judges.append {x : Except SchemaError α} (h : r.Judges ds x) (hcs : ∀ c ∈ cs, c.Holds r) :
    r.Judges (cs ++ ds) x := by
  cases x with
  | ok a => exact List.forall_mem_append.2 ⟨hcs, h⟩
  | error e =>
    obtain ⟨before, c, after, rfl, hbefore, hc, hreport⟩ := h
    exact ⟨cs ++ before, c, after, (List.append_assoc ..).symm,
      List.forall_mem_append.2 ⟨hcs, hbefore⟩, hc, hreport⟩

theorem Judges.cons {x : Except SchemaError α} (h : r.Judges cs x) (hc : c.Holds r) :
    r.Judges (c :: cs) x := by
  have hfirst : ∀ c' ∈ [c], c'.Holds r := List.forall_mem_singleton.2 hc
  exact h.append hfirst

theorem Judges.bind {x : Except SchemaError α} {f : α → Except SchemaError β} (h : r.Judges cs x)
    (hf : ∀ a, x = .ok a → r.Judges ds (f a)) : r.Judges (cs ++ ds) (x >>= f) := by
  cases x with
  | ok a => exact (hf a rfl).append h
  | error e =>
    obtain ⟨before, c, after, rfl, hbefore, hc, hreport⟩ := h
    exact ⟨before, c, after ++ ds, by simp, hbefore, hc, hreport⟩

theorem judges_forM {check : β → Except SchemaError Unit} {of : β → List (Requirement σ ν)}
    {bs : List β} (h : ∀ b ∈ bs, r.Judges (of b) (check b)) :
    r.Judges (bs.flatMap of) (bs.forM check) := by
  induction bs with
  | nil => exact judges_ok ()
  | cons b rest ih =>
    rw [List.flatMap_cons]
    exact (h b (.head _)).bind fun _ _ => ih fun b hb => h b (.tail _ hb)

theorem Judges.eq_ok_iff {x : Except SchemaError Unit} (h : r.Judges cs x) :
    x = .ok () ↔ ∀ c ∈ cs, c.Holds r := by
  cases x with
  | ok u => exact ⟨fun _ => h, fun _ => rfl⟩
  | error e =>
    obtain ⟨before, c, after, rfl, -, hc, -⟩ := h
    exact ⟨nofun, fun hall => absurd (hall c (by simp)) hc⟩

theorem Judges.eq_error_iff {x : Except SchemaError α} (h : r.Judges cs x) {e : SchemaError} :
    x = .error e ↔ r.FirstViolation cs e := by
  cases x with
  | ok a =>
    refine ⟨nofun, ?_⟩
    rintro ⟨before, c, after, rfl, -, hc, -⟩
    exact absurd (h c (by simp)) hc
  | error e' => exact ⟨fun heq => Except.error.inj heq ▸ h, fun h' => congrArg _ (h.unique h')⟩

end Rules

/-! ## Each check -/

variable (r : Registry σ ν)

theorem judges_resolve (referrer : String) (type : TypeRef) :
    r.Judges [.registered referrer type.baseName] (r.resolve referrer type) := by
  unfold resolve
  split
  · rename_i t ht
    exact (judges_ok t).cons (isSome_find?_iff.1 (ht ▸ rfl))
  · rename_i hnone
    exact judges_error (find?_eq_none_iff.1 hnone) rfl

theorem judges_checkDefault (field : String) (spec : ArgumentSpec) :
    r.Judges [.coerces field spec] (match spec.default with
      | none => .ok ()
      | some value =>
        match r.coerce spec.type value with
        | .ok _ => .ok ()
        | .error e => .error (.invalidDefaultValue field spec.name e)) := by
  split
  · rename_i hdefault
    exact (judges_ok ()).cons fun value hvalue => by rw [hdefault] at hvalue; cases hvalue
  · rename_i value hdefault
    split
    · rename_i coerced hcoerced
      refine (judges_ok ()).cons fun value' hvalue' => ⟨coerced, ?_⟩
      rwa [Option.mem_unique hvalue' hdefault]
    · rename_i e he
      refine judges_error (fun hholds => ?_) ⟨value, hdefault, e, he, rfl⟩
      obtain ⟨coerced, hcoerced⟩ := hholds value hdefault
      exact nomatch he.symm.trans hcoerced

theorem resolve_eq_ok_iff {referrer : String} {type : TypeRef} {t : NamedType σ ν} :
    r.resolve referrer type = .ok t ↔ r.find? type.baseName = some t := by
  unfold resolve
  split <;> simp_all

theorem judges_checkArgument (field : String) (spec : ArgumentSpec) :
    r.Judges (argumentRequirements field spec) (r.checkArgument field spec) := by
  refine (r.judges_resolve _ spec.type).bind fun t ht => ?_
  have hfind := (r.resolve_eq_ok_iff).1 ht
  cases hinput : t.isInput with
  | true =>
    refine Judges.cons ?_ ⟨t, hfind, hinput⟩
    exact r.judges_checkDefault field spec
  | false =>
    refine judges_error ?_ ?_
    · rintro ⟨t', ht', hinput'⟩
      rw [hfind] at ht'
      rw [← Option.some.inj ht', hinput] at hinput'
      cases hinput'
    · exact congrArg _ (name_of_find? hfind).2

theorem judges_checkField (object : String) (f : Field σ ν) :
    r.Judges (fieldRequirements object f) (r.checkField object f) :=
  (r.judges_resolve _ f.type).bind fun _ _ =>
    judges_forM fun spec _ => r.judges_checkArgument _ spec

theorem judges_checkInterfaceField (o : ObjectType σ ν) (i : InterfaceType) (f : InterfaceField) :
    r.Judges [.declares o i f, .agrees o i f] (checkInterfaceField o i f) := by
  unfold checkInterfaceField
  split
  · rename_i hnone
    exact judges_error (fun ⟨own, hown⟩ => nomatch hnone.symm.trans hown) rfl
  · rename_i own hown
    split
    · rename_i htype
      exact ((judges_ok ()).cons (c := .agrees o i f) ⟨own, hown, htype⟩).cons ⟨own, hown⟩
    · rename_i htype
      refine (judges_error (c := .agrees o i f) ?_ ⟨own, hown, rfl⟩).cons ⟨own, hown⟩
      rintro ⟨own', hown', htype'⟩
      rw [hown] at hown'
      exact htype (Option.some.inj hown' ▸ htype')

theorem judges_checkImplements (o : ObjectType σ ν) (name : String) :
    r.Judges (r.interfaceRequirements o name) (r.checkImplements o name) := by
  unfold checkImplements interfaceRequirements interface?
  cases hfind : r.find? name with
  | none => exact judges_error (find?_eq_none_iff.1 hfind) rfl
  | some t =>
    have hname : name ∈ r.names := isSome_find?_iff.1 (hfind ▸ rfl)
    cases t with
    | interface i =>
      have hfields := judges_forM fun f (_ : f ∈ i.fields) => r.judges_checkInterfaceField o i f
      exact (hfields.cons (c := .interface o.name name) ⟨i, hfind⟩).cons hname
    | _ =>
      refine (judges_error (c := .interface o.name name) ?_ rfl).cons hname
      rintro ⟨i, hi⟩
      exact nomatch hfind.symm.trans hi

theorem judges_checkType (t : NamedType σ ν) : r.Judges (r.typeRequirements t) (r.checkType t) := by
  cases t with
  | scalar t => exact judges_ok ()
  | enum e => exact judges_ok ()
  | object o =>
    exact (judges_forM fun f _ => r.judges_checkField o.name f).bind fun _ _ =>
      judges_forM fun name _ => r.judges_checkImplements o name
  | interface i =>
    refine judges_forM fun f _ => ?_
    have h := (r.judges_resolve (i.name ++ "." ++ f.name) f.type).bind fun _ _ =>
      (judges_ok (σ := σ) (ν := ν) ())
    exact h

theorem judges_checkRoot (name : String) : r.Judges [.root name] (r.checkRoot name) := by
  unfold checkRoot
  split
  · rename_i hsome
    exact (judges_ok ()).cons (Option.isSome_iff_exists.1 hsome)
  · rename_i hnone
    exact judges_error (fun hholds => hnone (Option.isSome_iff_exists.2 hholds)) rfl

theorem judges_checkMutation :
    r.Judges (r.mutation.toList.map .root) (r.mutation.forM r.checkRoot) := by
  cases r.mutation with
  | none => exact judges_ok ()
  | some name => exact r.judges_checkRoot name

theorem judges_check : r.Judges r.requirements r.check :=
  (r.judges_checkRoot r.query).bind fun _ _ => r.judges_checkMutation.bind fun _ _ =>
    judges_forM fun t _ => r.judges_checkType t

/-! ## What the requirements come to -/

variable {r}

theorem exists_object?_iff (h : r.IsRegular) {name : String} :
    (∃ o, r.object? name = some o) ↔ ∃ o, .object o ∈ r.types ∧ o.name = name := by
  constructor
  · rintro ⟨o, ho⟩
    exact ⟨o, mem_of_object? ho⟩
  · rintro ⟨o, ho, rfl⟩
    exact ⟨o, object?_eq_some_iff.2 (h.find?_of_mem ho)⟩

theorem exists_find?_iff (h : r.IsRegular) {name : String} {p : NamedType σ ν → Prop} :
    (∃ t, r.find? name = some t ∧ p t) ↔ ∃ t ∈ r.types, t.name = name ∧ p t := by
  constructor
  · rintro ⟨t, ht, hp⟩
    exact ⟨t, (name_of_find? ht).1, (name_of_find? ht).2, hp⟩
  · rintro ⟨t, ht, rfl, hp⟩
    exact ⟨t, h.find?_of_mem ht, hp⟩

theorem exists_field?_iff {o : ObjectType σ ν} (h : (o.fields.map Field.name).Nodup) {name : String}
    {p : Field σ ν → Prop} :
    (∃ f, o.field? name = some f ∧ p f) ↔ ∃ f ∈ o.fields, f.name = name ∧ p f := by
  constructor
  · rintro ⟨f, hf, hp⟩
    exact ⟨f, List.mem_of_find?_eq_some hf, key_of_find? hf, hp⟩
  · rintro ⟨f, hf, rfl, hp⟩
    exact ⟨f, ObjectType.field?_of_mem h hf, hp⟩

theorem forall_fieldRequirements_iff (h : r.IsRegular) {object : String} {f : Field σ ν} :
    (∀ c ∈ fieldRequirements object f, c.Holds r) ↔ f.type.baseName ∈ r.names ∧
      ∀ spec ∈ f.arguments, (∃ t ∈ r.types, t.name = spec.type.baseName ∧ t.isInput) ∧
        ∀ value ∈ spec.default, ∃ coerced, r.coerce spec.type value = .ok coerced := by
  have hargument (field : String) (spec : ArgumentSpec) :
      (∀ c ∈ argumentRequirements field spec, c.Holds r) ↔
        (∃ t ∈ r.types, t.name = spec.type.baseName ∧ t.isInput) ∧
          ∀ value ∈ spec.default, ∃ coerced, r.coerce spec.type value = .ok coerced := by
    simp only [argumentRequirements, List.forall_mem_cons, List.not_mem_nil, false_imp_iff,
      implies_true, and_true, Holds, exists_find?_iff h]
    constructor
    · exact fun ⟨_, hinput, hdefault⟩ => ⟨hinput, hdefault⟩
    · rintro ⟨⟨t, ht, hname, hinput⟩, hdefault⟩
      exact ⟨hname ▸ List.mem_map_of_mem ht, ⟨t, ht, hname, hinput⟩, hdefault⟩
  simp only [fieldRequirements, List.forall_mem_cons, List.forall_mem_flatMap, hargument]
  rfl

theorem forall_interfaceRequirements_iff (h : r.IsRegular) {o : ObjectType σ ν}
    (ho : (o.fields.map Field.name).Nodup) {name : String} :
    (∀ c ∈ r.interfaceRequirements o name, c.Holds r) ↔
      ∃ i, .interface i ∈ r.types ∧ i.name = name ∧
        ∀ f ∈ i.fields, ∃ own ∈ o.fields, own.name = f.name ∧ own.type = f.type := by
  have hfields (i : InterfaceType) :
      (∀ c ∈ i.fields.flatMap fun f => [Requirement.declares o i f, .agrees o i f], c.Holds r) ↔
        ∀ f ∈ i.fields, ∃ own ∈ o.fields, own.name = f.name ∧ own.type = f.type := by
    simp only [List.forall_mem_flatMap, List.forall_mem_cons, List.not_mem_nil, false_imp_iff,
      implies_true, and_true, Holds, exists_field?_iff ho]
    refine forall₂_congr fun f _ => ⟨And.right, fun hown => ⟨?_, hown⟩⟩
    obtain ⟨own, hmem, hname, -⟩ := hown
    exact ⟨own, hname ▸ ObjectType.field?_of_mem ho hmem⟩
  rw [interfaceRequirements, List.forall_mem_cons, List.forall_mem_cons]
  constructor
  · rintro ⟨-, ⟨i, hi⟩, hrest⟩
    rw [interface?, hi] at hrest
    exact ⟨i, (name_of_find? hi).1, (name_of_find? hi).2, (hfields i).1 hrest⟩
  · rintro ⟨i, hi, rfl, hrest⟩
    have hfind : r.find? i.name = some (.interface i) := h.find?_of_mem hi
    refine ⟨List.mem_map_of_mem hi, ⟨i, hfind⟩, ?_⟩
    rw [interface?, hfind]
    exact (hfields i).2 hrest

theorem forall_requirements_iff (h : r.IsRegular) :
    (∀ c ∈ r.requirements, c.Holds r) ↔ r.IsWellFormed := by
  rw [requirements, List.forall_mem_cons, List.forall_mem_append, List.forall_mem_flatMap]
  constructor
  · rintro ⟨hquery, hmutation, htypes⟩
    have hobject (o : ObjectType σ ν) (ho : .object o ∈ r.types) :=
      List.forall_mem_append.1 (htypes _ ho)
    have hfield (o : ObjectType σ ν) (ho : .object o ∈ r.types) (f : Field σ ν)
        (hf : f ∈ o.fields) := (forall_fieldRequirements_iff h).1
      fun c hc => (hobject o ho).1 c (List.mem_flatMap.2 ⟨f, hf, hc⟩)
    exact {
      query := (exists_object?_iff h).1 hquery
      mutation := fun name hname => (exists_object?_iff h).1
        (hmutation (.root name) (List.mem_map_of_mem (by simpa using hname)))
      field := fun o ho f hf => (hfield o ho f hf).1
      interfaceField := fun i hi f hf => htypes _ hi (.registered _ _)
        (List.mem_flatMap.2 ⟨f, hf, .head _⟩)
      argument := fun o ho f hf spec hspec => ((hfield o ho f hf).2 spec hspec).1
      default := fun o ho f hf spec hspec => ((hfield o ho f hf).2 spec hspec).2
      implements := fun o ho name hname => (forall_interfaceRequirements_iff h (h.fields ho)).1
        fun c hc => (hobject o ho).2 c (List.mem_flatMap.2 ⟨name, hname, hc⟩) }
  · intro hwell
    refine ⟨(exists_object?_iff h).2 hwell.query, ?_, ?_⟩
    · intro c hc
      obtain ⟨name, hname, rfl⟩ := List.mem_map.1 hc
      exact (exists_object?_iff h).2 (hwell.mutation name (by simpa using hname))
    · intro t ht
      cases t with
      | scalar t => exact List.forall_mem_nil _
      | enum e => exact List.forall_mem_nil _
      | object o =>
        rw [typeRequirements, List.forall_mem_append, List.forall_mem_flatMap,
          List.forall_mem_flatMap]
        refine ⟨fun f hf => (forall_fieldRequirements_iff h).2 ⟨hwell.field o ht f hf, ?_⟩, ?_⟩
        · exact fun spec hspec => ⟨hwell.argument o ht f hf spec hspec,
            hwell.default o ht f hf spec hspec⟩
        · exact fun name hname => (forall_interfaceRequirements_iff h (h.fields ht)).2
            (hwell.implements o ht name hname)
      | interface i =>
        rw [typeRequirements, List.forall_mem_flatMap]
        exact fun f hf => List.forall_mem_singleton.2 (hwell.interfaceField i ht f hf)

theorem check_eq_ok_iff (h : r.IsRegular) : r.check = .ok () ↔ r.IsWellFormed :=
  r.judges_check.eq_ok_iff.trans (forall_requirements_iff h)

/-- A registry that calls have built is accepted if it is well formed, and refused with the error of
its first requirement that does not hold if not. -/
theorem check_built_iff (query : String) (calls : List (Call σ ν)) :
    let r := (empty query).performAll calls
    (r.check = .ok () ↔ r.IsWellFormed) ∧
      ∀ e, r.check = .error e ↔ r.FirstViolation r.requirements e :=
  ⟨check_eq_ok_iff ((isRegular_empty query).performAll calls),
    fun _ => (judges_check _).eq_error_iff⟩

end Gazette.Registry
