import Gazette.Proofs.Schema.Completion
import Mathlib.Data.List.Lex

/-!
# Faults of results

A result that is none of its type has faults at some of its positions: itself, its items, their
items and so on (`FieldValue.Fault`).  A position is the list of the indices that lead to it; what
is on the left comes before what is on the right, and a list before its items
(`FieldValue.Precedes`).

Completion succeeds exactly for the results of a type, and changes nothing but the leaves of enums
and the tags of interfaces (`FieldValue.Becomes`).  It fails with the fault that comes first
(`Registry.completes_or_faults`).
-/

namespace Gazette

variable {σ ν : Type} [Node ν]

namespace FieldValue

/-! ## What results become -/

/-- What a result that is not null becomes where the type with a name is expected: members of enums
become literals, and values of interfaces get the name of their object. -/
def BecomesNamed (r : Registry σ ν) (name : String) (result : FieldValue ν) (c : Completed ν) :
    Prop :=
  match r.find? name, result with
  | some (.scalar _), .leaf value => c = .leaf value
  | some (.enum _), .leaf value => ∃ member, value.name? = some member ∧ c = .leaf (.enum member)
  | some (.object _), .node v => c = .node v
  | some (.interface _), .node v => ∃ tag, Node.typeName v = some tag ∧ c = .tagged tag v
  | _, _ => False

/-- What a result becomes where a type is expected: lists item by item, and null stays null. -/
def Becomes (r : Registry σ ν) : TypeRef → FieldValue ν → Completed ν → Prop
  | .nonNull inner, result, c => Becomes r inner result c
  | .list item, result, c => result.isNull ∧ c = .null ∨
    ∃ items cs, result = .list items ∧ c = .list cs ∧ List.Forall₂ (Becomes r item) items cs
  | .named name, result, c => result.isNull ∧ c = .null ∨
    result.isNull = false ∧ BecomesNamed r name result c

/-! ## Faults -/

/-- Whether a position comes before another one. -/
def Precedes (p q : List Nat) : Prop := List.Lex (· < ·) p q

theorem eq_or_precedes_nil (p : List Nat) : p = [] ∨ Precedes [] p :=
  (List.lex_nil_or_eq_nil p).symm

theorem Precedes.asymm {p q : List Nat} (h : Precedes p q) : ¬ Precedes q p :=
  Std.Asymm.asymm (r := List.Lex (· < ·)) p q h

/-- What is wrong with a result that is not null where the type with a name is expected. -/
inductive FaultNamed (r : Registry σ ν) (name : String) : FieldValue ν → FieldError → Prop
  | unregistered (hfind : r.find? name = none) (result : FieldValue ν) :
    FaultNamed r name result (.typeMismatch name result.kind)
  | noLeaf {t : NamedType σ ν} (hfind : r.find? name = some t) (ht : t.isInput)
    {result : FieldValue ν} (h : ∀ value, result ≠ .leaf value) :
    FaultNamed r name result (.typeMismatch name result.kind)
  | noNode {t : NamedType σ ν} (hfind : r.find? name = some t) (ht : t.isInput = false)
    {result : FieldValue ν} (h : ∀ v, result ≠ .node v) :
    FaultNamed r name result (.typeMismatch name result.kind)
  | noMember {e : EnumType} (hfind : r.find? name = some (.enum e)) {value : Value}
    {member : String} (hname : value.name? = some member) (h : e.contains member = false) :
    FaultNamed r name (.leaf value) (.invalidEnumValue name member)
  | noName {e : EnumType} (hfind : r.find? name = some (.enum e)) {value : Value}
    (h : value.name? = none) : FaultNamed r name (.leaf value) (.invalidEnumValue name value.text)
  | otherObject {o : ObjectType σ ν} (hfind : r.find? name = some (.object o)) {v : ν}
    (h : Node.typeName v ≠ some o.name) :
    FaultNamed r name (.node v) (.typeMismatch o.name (Registry.tagOf v))
  | noObject {i : InterfaceType} (hfind : r.find? name = some (.interface i)) {v : ν}
    (h : ∀ tag, Node.typeName v = some tag → ¬ r.IsTagOf i.name tag) :
    FaultNamed r name (.node v) (.resolutionError i.name)

/-- What is wrong with a result at a position where a type is expected.  Where a result itself is at
fault, its items are not looked at. -/
inductive Fault (r : Registry σ ν) : TypeRef → FieldValue ν → List Nat → FieldError → Prop
  | null {inner : TypeRef} {result : FieldValue ν} (h : result.isNull) :
    Fault r (.nonNull inner) result [] (.nullValue (TypeRef.nonNull inner).text)
  | nonNull {inner : TypeRef} {result : FieldValue ν} {p : List Nat} {e : FieldError}
    (hnull : result.isNull = false) (h : Fault r inner result p e) :
    Fault r (.nonNull inner) result p e
  | noList {item : TypeRef} {result : FieldValue ν} (hnull : result.isNull = false)
    (h : ∀ items, result ≠ .list items) :
    Fault r (.list item) result [] (.typeMismatch (TypeRef.list item).text result.kind)
  | item {item : TypeRef} {items : List (FieldValue ν)} {i : Nat} {result : FieldValue ν}
    {p : List Nat} {e : FieldError} (hi : items[i]? = some result) (h : Fault r item result p e) :
    Fault r (.list item) (.list items) (i :: p) e
  | named {name : String} {result : FieldValue ν} {e : FieldError} (hnull : result.isNull = false)
    (h : FaultNamed r name result e) : Fault r (.named name) result [] e

end FieldValue

open FieldValue

namespace Registry

variable {r : Registry σ ν}

/-! ## Results at a name -/

theorem eq_resolutionError_of_concreteType {interface : String} {v : ν} {e : FieldError}
    (h : r.concreteType interface v = .error e) : e = .resolutionError interface := by
  unfold concreteType at h
  split at h
  · split at h
    · cases h
    · exact (Except.error.inj h).symm
  · exact (Except.error.inj h).symm

theorem exists_concreteType_iff {interface : String} {v : ν} :
    (∃ o, r.concreteType interface v = .ok o) ↔
      ∃ tag, Node.typeName v = some tag ∧ r.IsTagOf interface tag := by
  constructor
  · rintro ⟨o, ho⟩
    exact ⟨_, isTagOf_of_concreteType ho⟩
  · rintro ⟨tag, htag, o, ho, hisA⟩
    exact ⟨o, by simp only [concreteType, htag, Option.bind_some, ho, hisA, if_true]⟩

theorem faultNamed_of_completeNamed {name : String} {result : FieldValue ν} {e : FieldError}
    (h : r.completeNamed name result = .error e) : FaultNamed r name result e := by
  have mismatch (hfault : FaultNamed r name result (.typeMismatch name result.kind))
      (he : Except.error (.typeMismatch name result.kind) = Except.error (α := Completed ν) e) :
      FaultNamed r name result e := Except.error.inj he ▸ hfault
  unfold completeNamed at h
  cases hfind : r.find? name with
  | none =>
    rw [hfind] at h
    exact mismatch (.unregistered hfind result) h
  | some t =>
    rw [hfind] at h
    cases t with
    | scalar t =>
      cases result with
      | leaf value => cases h
      | _ => exact mismatch (.noLeaf hfind rfl nofun) h
    | enum t =>
      cases result with
      | leaf value =>
        dsimp only at h
        split at h
        · rename_i member hname
          split at h
          · cases h
          · rename_i hmember
            exact Except.error.inj h ▸ .noMember hfind hname (by simpa using hmember)
        · rename_i hname
          exact Except.error.inj h ▸ .noName hfind hname
      | _ => exact mismatch (.noLeaf hfind rfl nofun) h
    | object o =>
      cases result with
      | node v =>
        dsimp only at h
        split at h
        · cases h
        · rename_i htag
          exact Except.error.inj h ▸ .otherObject hfind htag
      | _ => exact mismatch (.noNode hfind rfl nofun) h
    | interface i =>
      cases result with
      | node v =>
        dsimp only at h
        split at h
        · cases h
        · rename_i e' hconcrete
          obtain rfl := Except.error.inj h
          obtain rfl := eq_resolutionError_of_concreteType hconcrete
          refine .noObject hfind fun tag htag hisTag => ?_
          obtain ⟨o, ho⟩ := exists_concreteType_iff.2 ⟨tag, htag, hisTag⟩
          cases ho.symm.trans hconcrete
      | _ => exact mismatch (.noNode hfind rfl nofun) h

theorem completeNamed_of_faultNamed {name : String} {result : FieldValue ν} {e : FieldError}
    (h : FaultNamed r name result e) : r.completeNamed name result = .error e := by
  unfold completeNamed
  cases h with
  | unregistered hfind => rw [hfind]
  | @noLeaf t hfind ht _ hleaf =>
    rw [hfind]
    cases result with
    | leaf value => exact absurd rfl (hleaf value)
    | _ => cases t <;> first | rfl | cases ht
  | @noNode t hfind ht _ hnode =>
    rw [hfind]
    cases result with
    | node v => exact absurd rfl (hnode v)
    | _ => cases t <;> first | rfl | cases ht
  | noMember hfind hname hmember => simp only [hfind, hname, hmember, Bool.false_eq_true, if_false]
  | noName hfind hname => simp only [hfind, hname]
  | otherObject hfind htag => simp only [hfind, htag, if_false]
  | @noObject i hfind v hnone =>
    cases hconcrete : r.concreteType i.name v with
    | ok o =>
      obtain ⟨tag, htag, hisTag⟩ := exists_concreteType_iff.1 ⟨o, hconcrete⟩
      exact absurd hisTag (hnone tag htag)
    | error e =>
      obtain rfl := eq_resolutionError_of_concreteType hconcrete
      simp only [hfind, hconcrete]

theorem becomesNamed_of_completeNamed {name : String} {result : FieldValue ν} {c : Completed ν}
    (h : r.completeNamed name result = .ok c) :
    result.ProperNamed r .nothing name ∧ BecomesNamed r name result c := by
  cases completesNamed_of_completeNamed h with
  | leaf hfind value => simp [ProperNamed, BecomesNamed, hfind, Demand.nothing]
  | member hfind hname hmember => simpa [ProperNamed, BecomesNamed, hfind, hname] using hmember
  | node hfind htype => simpa [ProperNamed, BecomesNamed, hfind, Demand.nothing] using htype
  | tagged hfind htype htag =>
    simpa [ProperNamed, BecomesNamed, hfind, htype, Demand.nothing] using htag

/-! ## Results of any type -/

/-- What completes is of the type, and becomes what results of the type become. -/
theorem becomes_of_complete {type : TypeRef} {result : FieldValue ν} {c : Option (Completed ν)}
    (h : r.complete type result = .ok c) :
    result.Proper r .nothing type ∧ Becomes r type result (c.getD .null) := by
  induction type generalizing result c with
  | nonNull inner ih =>
    obtain ⟨hnull, h⟩ := complete_nonNull_eq_ok_iff.1 h
    obtain ⟨hproper, hbecomes⟩ := ih h
    exact ⟨⟨hnull, hproper⟩, hbecomes⟩
  | list item ih =>
    rcases complete_list_eq_ok_iff.1 h with ⟨hnull, rfl⟩ | ⟨items, cs, rfl, rfl, hcs⟩
    · exact ⟨.inl hnull, .inl ⟨hnull, rfl⟩⟩
    · have hall : List.Forall₂ (fun i c => i.Proper r .nothing item ∧ Becomes r item i c)
          items cs := by
        refine hcs.imp fun i c hc => ?_
        obtain ⟨c', hi, rfl⟩ := hc
        exact ih hi
      refine ⟨.inr ⟨items, rfl, fun i hi => ?_⟩, .inr ⟨items, cs, rfl, rfl, hall.imp ?_⟩⟩
      · obtain ⟨c, -, hproper, -⟩ := exists_of_mem_left hall hi
        exact hproper
      · exact fun _ _ h => h.2
  | named name =>
    rcases complete_named_eq_ok_iff.1 h with ⟨hnull, rfl⟩ | ⟨hnull, c, hc, rfl⟩
    · exact ⟨.inl hnull, .inl ⟨hnull, rfl⟩⟩
    · obtain ⟨hproper, hbecomes⟩ := becomesNamed_of_completeNamed hc
      exact ⟨.inr hproper, .inr ⟨hnull, hbecomes⟩⟩

/-- A result of the type has no fault. -/
theorem not_fault_of_proper {d : Demand ν} {type : TypeRef} {result : FieldValue ν}
    (h : result.Proper r d type) (p : List Nat) (e : FieldError) : ¬ Fault r type result p e := by
  intro hfault
  induction hfault with
  | null hnull =>
    rw [h.1] at hnull
    cases hnull
  | nonNull _ _ ih => exact ih h.2
  | noList hnull hlist =>
    rcases h with h | ⟨items, hitems, -⟩
    · rw [hnull] at h
      cases h
    · exact hlist items hitems
  | item hi _ ih =>
    rcases h with h | ⟨items, hitems, hall⟩
    · cases h
    · obtain rfl := FieldValue.list.inj hitems
      exact ih (hall _ (List.mem_of_getElem? hi))
  | named hnull hnamed =>
    rcases h with h | hproper
    · rw [hnull] at h
      cases h
    · obtain ⟨c, hc, -⟩ := completeNamed_of_proper hnull hproper
      cases hc.symm.trans (completeNamed_of_faultNamed hnamed)

/-- There is one fault at a position. -/
theorem fault_unique {type : TypeRef} {result : FieldValue ν} {p : List Nat} {e e' : FieldError}
    (h : Fault r type result p e) (h' : Fault r type result p e') : e = e' := by
  induction h with
  | null hnull =>
    cases h' with
    | null => rfl
    | nonNull hnull' => cases hnull.symm.trans hnull'
  | nonNull hnull _ ih =>
    cases h' with
    | null hnull' => cases hnull.symm.trans hnull'
    | nonNull _ h' => exact ih h'
  | noList => cases h' with
    | noList => rfl
  | item hi _ ih =>
    cases h' with
    | item hi' h' =>
      obtain rfl := Option.some.inj (hi.symm.trans hi')
      exact ih h'
  | named _ hnamed =>
    cases h' with
    | named _ hnamed' =>
      have hsame := (completeNamed_of_faultNamed hnamed).symm.trans
        (completeNamed_of_faultNamed hnamed')
      exact Except.error.inj hsame

/-- The first fault of an item is the first one of a list, if the items before it complete. -/
theorem precedes_of_first {item : TypeRef} {before after : List (FieldValue ν)}
    {result : FieldValue ν} {p : List Nat}
    (hbefore : ∀ b ∈ before, ∃ c, r.complete item b = .ok c)
    (hfirst : ∀ q e, Fault r item result q e → q = p ∨ Precedes p q) (q : List Nat)
    (e : FieldError) (h : Fault r (.list item) (.list (before ++ result :: after)) q e) :
    q = before.length :: p ∨ Precedes (before.length :: p) q := by
  cases h with
  | noList _ hlist => exact absurd rfl (hlist _)
  | @item _ _ j other q _ hj hother =>
    rcases Nat.lt_trichotomy j before.length with hlt | rfl | hgt
    · -- the items before it have no fault
      rw [List.getElem?_append_left hlt] at hj
      obtain ⟨c, hc⟩ := hbefore other (List.mem_of_getElem? hj)
      exact absurd hother (not_fault_of_proper (becomes_of_complete hc).1 q e)
    · rw [List.getElem?_append_right (Nat.le_refl _), Nat.sub_self] at hj
      obtain rfl := Option.some.inj hj
      exact (hfirst q e hother).imp (congrArg _) .cons
    · exact .inr (.rel hgt)

/-- What does not complete fails with the first of its faults. -/
theorem exists_first_fault {type : TypeRef} {result : FieldValue ν} {e : FieldError}
    (h : r.complete type result = .error e) :
    ∃ p, Fault r type result p e ∧ ∀ q e', Fault r type result q e' → q = p ∨ Precedes p q := by
  induction type generalizing result with
  | nonNull inner ih =>
    rcases complete_nonNull_eq_error_iff.1 h with ⟨hnull, rfl⟩ | ⟨hnull, h⟩
    · exact ⟨[], .null hnull, fun q _ _ => eq_or_precedes_nil q⟩
    · obtain ⟨p, hfault, hfirst⟩ := ih h
      refine ⟨p, .nonNull hnull hfault, fun q e' hother => ?_⟩
      cases hother with
      | null hnull' => cases hnull.symm.trans hnull'
      | nonNull _ hother => exact hfirst q e' hother
  | list item ih =>
    rcases complete_list_eq_error_iff.1 h with
      ⟨before, i, after, rfl, hbefore, hi⟩ | ⟨hnull, hother, rfl⟩
    · obtain ⟨p, hfault, hfirst⟩ := ih hi
      exact ⟨before.length :: p, .item (by simp) hfault, precedes_of_first hbefore hfirst⟩
    · exact ⟨[], .noList hnull hother, fun q _ _ => eq_or_precedes_nil q⟩
  | named name =>
    obtain ⟨hnull, h⟩ := complete_named_eq_error_iff.1 h
    exact ⟨[], .named hnull (faultNamed_of_completeNamed h), fun q _ _ => eq_or_precedes_nil q⟩

/-- A result completes exactly if it is one of the type; it becomes what results of the type become,
and nothing only if it is null.  Else completion fails with the fault at the first position of the
result that has one. -/
theorem completes_or_faults (r : Registry σ ν) (type : TypeRef) (result : FieldValue ν) :
    ((∃ c, r.complete type result = .ok c) ↔ result.Proper r .nothing type) ∧
    (∀ c, r.complete type result = .ok c →
      Becomes r type result (c.getD .null) ∧ (c = none ↔ result.isNull)) ∧
    ∀ e, r.complete type result = .error e ↔
      ∃ p, Fault r type result p e ∧ ∀ q e', Fault r type result q e' → q = p ∨ Precedes p q := by
  refine ⟨⟨fun ⟨c, hc⟩ => (becomes_of_complete hc).1, fun h => ?_⟩, fun c hc => ?_, fun e => ?_⟩
  · obtain ⟨c, hc, -⟩ := complete_of_proper h
    exact ⟨c, hc⟩
  · exact ⟨(becomes_of_complete hc).2, (fits_of_complete hc).2.1⟩
  · refine ⟨exists_first_fault, ?_⟩
    rintro ⟨p, hfault, hfirst⟩
    cases h : r.complete type result with
    | ok c => exact absurd hfault (not_fault_of_proper (becomes_of_complete h).1 p e)
    | error e' =>
      obtain ⟨p', hfault', hfirst'⟩ := exists_first_fault h
      have hsame : p' = p := by
        rcases hfirst p' e' hfault' with heq | hlt
        · exact heq
        · exact (hfirst' p e hfault).elim Eq.symm fun hgt => absurd hgt hlt.asymm
      rw [fault_unique hfault (hsame ▸ hfault')]

end Registry

end Gazette
