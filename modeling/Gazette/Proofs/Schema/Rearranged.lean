import Gazette.Proofs.Schema.Finished

/-!
# Rearranged registries

Registrations in another order give a registry that holds the same types in another order
(`rearranges_attemptAll`).  Such registries find the same types, bind arguments alike, agree on the
objects of interfaces, and are both accepted by the check or both refused.
-/

namespace Gazette

variable {σ ν : Type}

/-- Items of different names are found under the same names in every order. -/
theorem find?_eq_of_perm {α : Type} {nameOf : α → String} {as bs : List α} (h : as.Perm bs)
    (hnames : (bs.map nameOf).Nodup) (name : String) :
    (as.find? fun a => nameOf a = name) = bs.find? fun b => nameOf b = name := by
  refine Option.ext fun a => ?_
  rw [find?_eq_some_iff_of_nodup hnames,
    find?_eq_some_iff_of_nodup ((h.map nameOf).nodup_iff.2 hnames), h.mem_iff]

/-- The likeness of what is the same. -/
def Likeness.same (σ ν : Type) : Likeness σ ν σ ν where
  image v := v
  states := Eq
  objects := Eq
  known _ := True
  asked _ := True

namespace Registry

/-- Whether a registry has the types of another one, each under a name of its own, in some order. -/
structure Rearranges (r' r : Registry σ ν) : Prop where
  types : r'.types.Perm r.types
  names : r.names.Nodup
  query : r'.query = r.query
  mutation : r'.mutation = r.mutation

variable {r' r : Registry σ ν}

theorem Rearranges.symm (h : r'.Rearranges r) : r.Rearranges r' where
  types := h.types.symm
  names := (h.types.map NamedType.name).nodup_iff.2 h.names
  query := h.query.symm
  mutation := h.mutation.symm

theorem Rearranges.find?_eq (h : r'.Rearranges r) (name : String) : r'.find? name = r.find? name :=
  find?_eq_of_perm h.types h.names name

theorem Rearranges.object?_eq (h : r'.Rearranges r) : r'.object? = r.object? := by
  funext name
  rw [object?, object?, h.find?_eq]

theorem Rearranges.findsAlike (h : r'.Rearranges r) : r'.FindsAlike (.same σ ν) r := by
  intro name _
  rw [h.find?_eq]
  cases r.find? name with
  | none => exact .none
  | some t =>
    refine .some ?_
    cases t with
    | scalar t => exact .scalar t
    | enum e => exact .enum e
    | interface i => exact .interface i
    | object o => exact .object rfl

theorem Rearranges.bind_eq (h : r'.Rearranges r) (field : String) (specs : List ArgumentSpec)
    (raw : Entries Value) : r'.bind field specs raw = r.bind field specs raw :=
  h.findsAlike.bind_eq (fun _ _ => trivial) field raw

theorem Rearranges.concreteType_eq [Node ν] (h : r'.Rearranges r) (interface : String) (v : ν) :
    r'.concreteType interface v = r.concreteType interface v := by
  rw [concreteType, concreteType, h.object?_eq]

/-! ## The check -/

theorem Rearranges.isWellFormed (h : r'.Rearranges r) (hwell : r.IsWellFormed) :
    r'.IsWellFormed := by
  have hmem (t : NamedType σ ν) : t ∈ r'.types ↔ t ∈ r.types := h.types.mem_iff
  have hname (name : String) : name ∈ r'.names ↔ name ∈ r.names :=
    (h.types.map NamedType.name).mem_iff
  constructor
  · simpa only [hmem, h.query] using hwell.query
  · simpa only [hmem, h.mutation] using hwell.mutation
  · simpa only [hmem, hname] using hwell.field
  · simpa only [hmem, hname] using hwell.interfaceField
  · simpa only [hmem] using hwell.argument
  · intro o ho f hf spec hspec value hvalue
    rw [h.findsAlike.coerce_eq trivial]
    exact hwell.default o ((hmem _).1 ho) f hf spec hspec value hvalue
  · simpa only [hmem] using hwell.implements

theorem Rearranges.check_iff (h : r'.Rearranges r) (hregular' : r'.IsRegular)
    (hregular : r.IsRegular) : r'.check = .ok () ↔ r.check = .ok () := by
  rw [check_eq_ok_iff hregular', check_eq_ok_iff hregular]
  exact ⟨h.symm.isWellFormed, h.isWellFormed⟩

/-- Registrations of types of different names can be made in every order. -/
theorem rearranges_attemptAll (hregular : r.IsRegular) {types' types : List (NamedType σ ν)}
    (h : types'.Perm types) (hnames : (types.map NamedType.name).Nodup) :
    (r.attemptAll types').Rearranges (r.attemptAll types) := by
  have hfirsts {calls : List (NamedType σ ν)} (hcalls : (calls.map NamedType.name).Nodup) :
      firsts (r.acceptable calls) = r.acceptable calls :=
    firsts_of_nodup (hcalls.sublist (List.filter_sublist.map _))
  constructor
  · rw [types_attemptAll, types_attemptAll, hfirsts hnames,
      hfirsts ((h.map NamedType.name).nodup_iff.2 hnames)]
    exact (h.filter _).append_left _
  · exact (hregular.attemptAll types).names
  · exact (attemptAll_roots r types').1.trans (attemptAll_roots r types).1.symm
  · exact (attemptAll_roots r types').2.trans (attemptAll_roots r types).2.symm

end Registry

/-- A schema can be made of a registry if one can be made of its types in another order. -/
theorem Schema.ofRegistry_rearranged {r' r : Registry σ ν} (h : r'.Rearranges r) (root : ν)
    (limit : Nat) : ofRegistry r' root limit = .ok ⟨r', root, limit⟩ ↔
      ofRegistry r root limit = .ok ⟨r, root, limit⟩ := by
  have hall : (Outline.ofRegistry r').all isExecutable = (Outline.ofRegistry r).all isExecutable :=
    (h.types.map Outline.ofType).all_eq
  rw [ofRegistry, ofRegistry, hall]
  split <;> simp

end Gazette
