import Gazette.Proofs.Schema.Lookup
import Gazette.Schema.Registration
import Mathlib.Data.List.Perm.Basic

/-!
# Building registries

A registry is built by calls (`Call`), each of which registers a type or sets the root of mutations.
This file says which registrations fail (`attempt_fails_iff`), that these leave the registry as it
is (`snd_attempt_of_error`), which types a sequence of them leaves (`types_attemptAll`), when all of
them succeed (`registerAll_eq_ok_iff`), and what holds of every registry that calls can build
(`IsRegular`).
-/

namespace Gazette

variable {σ ν : Type}

namespace Entries

theorem firstRepeated_go_eq_none_iff {seen names : List String} :
    firstRepeated.go seen names = none ↔ names.Nodup ∧ ∀ name ∈ names, name ∉ seen := by
  induction names generalizing seen with
  | nil => simp [firstRepeated.go]
  | cons name rest ih =>
    rw [firstRepeated.go, List.nodup_cons, List.forall_mem_cons]
    by_cases hseen : name ∈ seen
    · simp [hseen]
    · rw [if_neg hseen, ih]
      constructor
      · rintro ⟨hnodup, hrest⟩
        exact ⟨⟨fun hmem => hrest name hmem (.head _), hnodup⟩, hseen,
          fun n hn hmem => hrest n hn (.tail _ hmem)⟩
      · rintro ⟨⟨hname, hnodup⟩, -, hrest⟩
        refine ⟨hnodup, fun n hn hmem => ?_⟩
        rcases List.mem_cons.1 hmem with rfl | hmem
        · exact hname hn
        · exact hrest n hn hmem

theorem firstRepeated_eq_none_iff {names : List String} :
    firstRepeated names = none ↔ names.Nodup := by
  rw [firstRepeated, firstRepeated_go_eq_none_iff]
  simp

end Entries

/-- Whether the values of an enum, the fields of an object or an interface and the arguments of each
field have names of their own. -/
def NamedType.HasDistinctMembers : NamedType σ ν → Prop
  | .scalar _ => True
  | .enum e => e.values.Nodup
  | .object o => (o.fields.map Field.name).Nodup ∧
      ∀ f ∈ o.fields, (f.arguments.map ArgumentSpec.name).Nodup
  | .interface i => (i.fields.map InterfaceField.name).Nodup

instance (t : NamedType σ ν) : Decidable t.HasDistinctMembers :=
  match t with
  | .scalar _ => inferInstanceAs (Decidable True)
  | .enum e => inferInstanceAs (Decidable e.values.Nodup)
  | .object o => inferInstanceAs (Decidable ((o.fields.map Field.name).Nodup ∧
      ∀ f ∈ o.fields, (f.arguments.map ArgumentSpec.name).Nodup))
  | .interface i => inferInstanceAs (Decidable (i.fields.map InterfaceField.name).Nodup)

/-- Fields of different names are found under their names. -/
theorem ObjectType.field?_of_mem {o : ObjectType σ ν} (h : (o.fields.map Field.name).Nodup)
    {f : Field σ ν} (hf : f ∈ o.fields) : o.field? f.name = some f :=
  (find?_eq_some_iff_of_nodup h).2 ⟨hf, rfl⟩

namespace Registry

/-- The names of all types. -/
def names (r : Registry σ ν) : List String := r.types.map NamedType.name

theorem find?_eq_none_iff {r : Registry σ ν} {name : String} :
    r.find? name = none ↔ name ∉ r.names := by
  simp [find?, names]

theorem isSome_find?_iff {r : Registry σ ν} {name : String} :
    (r.find? name).isSome ↔ name ∈ r.names := by
  rw [Option.isSome_iff_ne_none, ne_eq, find?_eq_none_iff, not_not]

theorem repeatedMember?_eq_none_iff {t : NamedType σ ν} :
    repeatedMember? t = none ↔ t.HasDistinctMembers := by
  cases t with
  | scalar t => simp [repeatedMember?, NamedType.HasDistinctMembers]
  | enum e =>
    rw [repeatedMember?, Option.map_eq_none_iff, Entries.firstRepeated_eq_none_iff]
    rfl
  | object o =>
    rw [repeatedMember?, NamedType.HasDistinctMembers, ← Entries.firstRepeated_eq_none_iff]
    cases Entries.firstRepeated (o.fields.map Field.name) with
    | some name => simp
    | none => simp [repeatedArgument?, Entries.firstRepeated_eq_none_iff]
  | interface i =>
    rw [repeatedMember?, Option.map_eq_none_iff, Entries.firstRepeated_eq_none_iff]
    rfl

/-! ## One registration -/

theorem attempt_of_accepts {r : Registry σ ν} {t : NamedType σ ν} (h : t.HasDistinctMembers)
    (hname : t.name ∉ r.names) : r.attempt t = (.ok (), { r with types := r.types ++ [t] }) := by
  rw [attempt, repeatedMember?_eq_none_iff.2 h, find?_eq_none_iff.2 hname]
  rfl

theorem attempt_of_refuses {r : Registry σ ν} {t : NamedType σ ν}
    (h : ¬ t.HasDistinctMembers ∨ t.name ∈ r.names) : ∃ e, r.attempt t = (.error e, r) := by
  rw [attempt]
  cases hrepeated : repeatedMember? t with
  | some e => exact ⟨e, rfl⟩
  | none =>
    have hname := h.resolve_left (not_not.2 (repeatedMember?_eq_none_iff.1 hrepeated))
    exact ⟨_, if_pos (isSome_find?_iff.2 hname)⟩

/-- The two things that a registration can do: it is refused and changes nothing, or it adds the
type. -/
theorem attempt_cases (r : Registry σ ν) (t : NamedType σ ν) :
    ((¬ t.HasDistinctMembers ∨ t.name ∈ r.names) ∧ ∃ e, r.attempt t = (.error e, r)) ∨
    (t.HasDistinctMembers ∧ t.name ∉ r.names ∧
      r.attempt t = (.ok (), { r with types := r.types ++ [t] })) := by
  by_cases h : t.HasDistinctMembers ∧ t.name ∉ r.names
  · exact .inr ⟨h.1, h.2, attempt_of_accepts h.1 h.2⟩
  · have hrefuses : ¬ t.HasDistinctMembers ∨ t.name ∈ r.names := by tauto
    exact .inl ⟨hrefuses, attempt_of_refuses hrefuses⟩

/-- A registration fails if the type repeats a member or its name is taken, and only then. -/
theorem attempt_fails_iff {r : Registry σ ν} {t : NamedType σ ν} :
    (∃ e, (r.attempt t).1 = .error e) ↔ ¬ t.HasDistinctMembers ∨ t.name ∈ r.names := by
  rcases r.attempt_cases t with ⟨hrefuses, e, h⟩ | ⟨hmembers, hname, h⟩
  · simp [h, hrefuses]
  · simp [h, hmembers, hname]

/-- A registration that fails leaves the registry as it is. -/
theorem snd_attempt_of_error {r : Registry σ ν} {t : NamedType σ ν} {e : SchemaError}
    (h : (r.attempt t).1 = .error e) : (r.attempt t).2 = r := by
  rcases r.attempt_cases t with ⟨-, e', hr⟩ | ⟨-, -, hr⟩
  · rw [hr]
  · rw [hr] at h
    cases h

/-! ## Sequences of calls -/

/-- A call that builds a registry. -/
inductive Call (σ ν : Type) where
  | register (type : NamedType σ ν)
  | mutation (name : String)

/-- The registry after registrations, whatever comes of them. -/
def attemptAll (r : Registry σ ν) (calls : List (NamedType σ ν)) : Registry σ ν :=
  calls.foldl (fun r t => (r.attempt t).2) r

/-- The registry after a call, whatever comes of it. -/
def perform (r : Registry σ ν) : Call σ ν → Registry σ ν
  | .register t => (r.attempt t).2
  | .mutation name => r.withMutation name

/-- The registry after calls. -/
def performAll (r : Registry σ ν) (calls : List (Call σ ν)) : Registry σ ν := calls.foldl perform r

/-- The types among `calls` that a registry without them can take. -/
def acceptable (r : Registry σ ν) (calls : List (NamedType σ ν)) : List (NamedType σ ν) :=
  calls.filter fun t => t.HasDistinctMembers ∧ t.name ∉ r.names

/-- The first type of each name. -/
def firsts (types : List (NamedType σ ν)) : List (NamedType σ ν) :=
  types.eraseDupsBy fun t u => t.name = u.name

theorem mem_names_append {r : Registry σ ν} {t : NamedType σ ν} {name : String} :
    name ∈ Registry.names { r with types := r.types ++ [t] } ↔ name ∈ r.names ∨ name = t.name := by
  simp [names]

/-- Types are registered one after the other without a failure if none of them repeats a member and
their names are new and differ, and only then. -/
theorem registerAll_eq_ok_iff {r r' : Registry σ ν} {types : List (NamedType σ ν)} :
    r.registerAll types = .ok r' ↔
      ((∀ t ∈ types, t.HasDistinctMembers) ∧ (types.map NamedType.name).Nodup ∧
        ∀ t ∈ types, t.name ∉ r.names) ∧ r' = { r with types := r.types ++ types } := by
  induction types generalizing r with
  | nil => simp [registerAll, eq_comm]
  | cons t rest ih =>
    rw [registerAll, register, List.forall_mem_cons, List.map_cons, List.nodup_cons,
      List.forall_mem_cons]
    rcases r.attempt_cases t with ⟨hrefuses, e, h⟩ | ⟨hmembers, hname, h⟩
    · simp only [h, reduceCtorEq, false_iff]
      tauto
    · simp only [h, ih, mem_names_append, not_or, List.append_assoc, List.singleton_append]
      refine and_congr_left fun _ => ?_
      -- the name of `t` is apart from those of `rest` either as a new name or as one that is taken
      simp only [hmembers, hname, true_and, not_false_eq_true, List.mem_map, not_exists, not_and]
      grind

theorem acceptable_append (r : Registry σ ν) (t : NamedType σ ν) (calls : List (NamedType σ ν)) :
    acceptable { r with types := r.types ++ [t] } calls =
      (r.acceptable calls).filter fun u => decide (decide (u.name = t.name) = false) := by
  rw [acceptable, acceptable, List.filter_filter]
  refine List.filter_congr fun u _ => ?_
  simp only [mem_names_append, not_or, decide_eq_false_iff_not, ← Bool.decide_and]
  exact decide_eq_decide.2 (by tauto)

/-- The types that registrations leave are the ones before and the first acceptable one of each
name, in the order of the calls. -/
theorem types_attemptAll (r : Registry σ ν) (calls : List (NamedType σ ν)) :
    (r.attemptAll calls).types = r.types ++ firsts (r.acceptable calls) := by
  induction calls generalizing r with
  | nil => simp [attemptAll, acceptable, firsts]
  | cons t rest ih =>
    have hstep : r.attemptAll (t :: rest) = (r.attempt t).2.attemptAll rest := rfl
    rw [hstep, ih]
    rcases r.attempt_cases t with ⟨hrefuses, e, h⟩ | ⟨hmembers, hname, h⟩
    · have hcons : r.acceptable (t :: rest) = r.acceptable rest :=
        List.filter_cons_of_neg (by simpa [imp_iff_not_or] using hrefuses)
      rw [h, hcons]
    · have hcons : r.acceptable (t :: rest) = t :: r.acceptable rest :=
        List.filter_cons_of_pos (by simp [hmembers, hname])
      rw [h, hcons, firsts, firsts, List.eraseDupsBy_cons, acceptable_append, List.append_assoc,
        List.singleton_append]

theorem firsts_of_nodup {types : List (NamedType σ ν)} (h : (types.map NamedType.name).Nodup) :
    firsts types = types := by
  induction types with
  | nil => rfl
  | cons t rest ih =>
    obtain ⟨hname, hnodup⟩ := List.nodup_cons.1 h
    have hrest : (rest.filter fun u => decide (decide (u.name = t.name) = false)) = rest := by
      refine List.filter_eq_self.2 fun u hu => ?_
      have hne : u.name ≠ t.name := fun heq => hname (heq ▸ List.mem_map_of_mem hu)
      simpa using hne
    rw [firsts, List.eraseDupsBy_cons, hrest]
    exact congrArg _ (ih hnodup)

/-! ## What calls preserve -/

theorem attempt_roots (r : Registry σ ν) (t : NamedType σ ν) :
    (r.attempt t).2.query = r.query ∧ (r.attempt t).2.mutation = r.mutation := by
  rcases r.attempt_cases t with ⟨-, e, h⟩ | ⟨-, -, h⟩
  · rw [h]
    exact ⟨rfl, rfl⟩
  · rw [h]
    exact ⟨rfl, rfl⟩

theorem attemptAll_roots (r : Registry σ ν) (calls : List (NamedType σ ν)) :
    (r.attemptAll calls).query = r.query ∧ (r.attemptAll calls).mutation = r.mutation := by
  induction calls generalizing r with
  | nil => exact ⟨rfl, rfl⟩
  | cons t rest ih =>
    obtain ⟨hquery, hmutation⟩ := ih (r.attempt t).2
    exact ⟨hquery.trans (attempt_roots r t).1, hmutation.trans (attempt_roots r t).2⟩

/-- What holds of every registry that calls can build. -/
structure IsRegular (r : Registry σ ν) : Prop where
  names : r.names.Nodup
  members : ∀ t ∈ r.types, t.HasDistinctMembers
  builtins : ∀ t ∈ builtinScalars, .scalar t ∈ r.types

theorem isRegular_empty (query : String) : IsRegular (empty query : Registry σ ν) where
  names := by
    have hnames : (empty query : Registry σ ν).names = builtinScalars.map ScalarType.name := rfl
    rw [hnames]
    decide
  members := by
    intro t ht
    obtain ⟨scalar, -, rfl⟩ := List.mem_map.1 ht
    trivial
  builtins := fun _ => List.mem_map_of_mem

theorem IsRegular.attempt {r : Registry σ ν} (h : r.IsRegular) (t : NamedType σ ν) :
    (r.attempt t).2.IsRegular := by
  rcases r.attempt_cases t with ⟨-, e, ht⟩ | ⟨hmembers, hname, ht⟩
  · rwa [ht]
  · rw [ht]
    refine ⟨?_, ?_, fun scalar hscalar => List.mem_append_left _ (h.builtins scalar hscalar)⟩
    · have hnames : Registry.names { r with types := r.types ++ [t] } = r.names ++ [t.name] := by
        simp [Registry.names]
      rw [hnames, ← List.concat_eq_append]
      exact h.names.concat hname
    · intro u hu
      rcases List.mem_append.1 hu with hu | hu
      · exact h.members u hu
      · rw [List.mem_singleton.1 hu]
        exact hmembers

theorem IsRegular.perform {r : Registry σ ν} (h : r.IsRegular) (call : Call σ ν) :
    (r.perform call).IsRegular := by
  cases call with
  | register t => exact h.attempt t
  | mutation name => exact ⟨h.names, h.members, h.builtins⟩

theorem IsRegular.performAll {r : Registry σ ν} (h : r.IsRegular) (calls : List (Call σ ν)) :
    (r.performAll calls).IsRegular := by
  induction calls generalizing r with
  | nil => exact h
  | cons call rest ih => exact ih (h.perform call)

theorem IsRegular.attemptAll {r : Registry σ ν} (h : r.IsRegular) (calls : List (NamedType σ ν)) :
    (r.attemptAll calls).IsRegular := by
  induction calls generalizing r with
  | nil => exact h
  | cons t rest ih => exact ih (h.attempt t)

theorem IsRegular.find?_of_mem {r : Registry σ ν} (h : r.IsRegular) {t : NamedType σ ν}
    (ht : t ∈ r.types) : r.find? t.name = some t := Registry.find?_of_mem h.names ht

theorem IsRegular.fields {r : Registry σ ν} (h : r.IsRegular) {o : ObjectType σ ν}
    (ho : .object o ∈ r.types) : (o.fields.map Field.name).Nodup :=
  And.left (h.members _ ho : NamedType.HasDistinctMembers (.object o))

theorem IsRegular.arguments {r : Registry σ ν} (h : r.IsRegular) {o : ObjectType σ ν}
    (ho : .object o ∈ r.types) {f : Field σ ν} (hf : f ∈ o.fields) :
    (f.arguments.map ArgumentSpec.name).Nodup :=
  And.right (h.members _ ho : NamedType.HasDistinctMembers (.object o)) f hf

theorem IsRegular.field?_of_mem {r : Registry σ ν} (h : r.IsRegular) {o : ObjectType σ ν}
    (ho : .object o ∈ r.types) {f : Field σ ν} (hf : f ∈ o.fields) : o.field? f.name = some f :=
  ObjectType.field?_of_mem (h.fields ho) hf

theorem IsRegular.isBuiltin_mem {r : Registry σ ν} (h : r.IsRegular) {name : String}
    (hname : isBuiltin name) : name ∈ r.names := by
  obtain ⟨scalar, hscalar, rfl⟩ := List.mem_map.1 (List.contains_iff_mem.1 hname)
  exact List.mem_map_of_mem (h.builtins scalar hscalar)

end Registry

end Gazette
