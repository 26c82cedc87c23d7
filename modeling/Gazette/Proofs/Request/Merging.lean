import Gazette.Proofs.Lists
import Gazette.Request.Merge

/-!
# What merging results gives

Values that are no lists and no objects stay as they are when they are merged with others.  The
members of merged objects are looked up in both (`lookup_mergeMembers`), and lists of one length are
merged item by item (`mergeItems_eq_zipWith`).
-/

namespace Gazette.Value

/-- Whether a value has no parts that could be merged. -/
def isAtomic : Value → Bool
  | list _ | object _ => false
  | _ => true

/-- Whether a value is a list. -/
def isList : Value → Bool
  | list _ => true
  | _ => false

theorem merge_object (members added : Entries Value) :
    merge (.object members) (.object added) = .object (mergeMembers members added) := rfl

theorem merge_list (items added : List Value) :
    merge (.list items) (.list added) = .list (mergeItems items added) := rfl

theorem merge_of_isAtomic {new : Value} (h : new.isAtomic) (old : Value) : merge old new = old := by
  cases new with
  | list items => cases h
  | object members => cases h
  | _ => rfl

theorem merge_list_of_isList {old : Value} (h : old.isList = false) (added : List Value) :
    merge old (.list added) = old := by
  cases old with
  | list items => cases h
  | _ => rfl

theorem isNull_merge {old : Value} (h : old.isNull = false) (new : Value) :
    (merge old new).isNull = false := by
  cases new with
  | object added =>
    cases old with
    | object members => rfl
    | _ => exact h
  | list added =>
    cases old with
    | list items => rfl
    | _ => exact h
  | _ => exact h

theorem isList_merge {old : Value} (h : old.isList = false) (new : Value) :
    (merge old new).isList = false := by
  cases new with
  | object added =>
    cases old with
    | list items => cases h
    | _ => rfl
  | list added => rw [merge_list_of_isList h]; exact h
  | _ => exact h

/-! ## Members -/

theorem mergeMembers_nil (members : Entries Value) : mergeMembers members [] = members := rfl

theorem mergeMembers_cons (members : Entries Value) (name : String) (new : Value)
    (rest : Entries Value) : mergeMembers members ((name, new) :: rest) =
      mergeMembers (Entries.put name ((members.lookup name).elim new (merge · new)) members)
        rest := by
  rw [mergeMembers]
  cases members.lookup name <;> rfl

theorem mergeMembers_append (members added more : Entries Value) :
    mergeMembers members (added ++ more) = mergeMembers (mergeMembers members added) more := by
  induction added generalizing members with
  | nil => rw [List.nil_append, mergeMembers_nil]
  | cons e rest ih =>
    obtain ⟨name, new⟩ := e
    rw [List.cons_append, mergeMembers_cons, mergeMembers_cons, ih]

/-- Members of different names are not merged. -/
theorem mergeMembers_of_nodup {members added : Entries Value}
    (h : (Entries.names (members ++ added)).Nodup) :
    mergeMembers members added = members ++ added := by
  induction added generalizing members with
  | nil => rw [mergeMembers_nil, List.append_nil]
  | cons e rest ih =>
    obtain ⟨name, new⟩ := e
    have hnot : name ∉ members.names := by
      rw [Entries.names, List.map_append, List.nodup_append] at h
      exact fun hmem => h.2.2 name hmem name (.head _) rfl
    have hput : Entries.put name ((members.lookup name).elim new (merge · new)) members =
        members ++ [(name, new)] := by
      rw [Entries.lookup_eq_none_iff.2 hnot, Option.elim_none, Entries.put_of_not_mem hnot]
    rw [mergeMembers_cons, hput, ih (by rwa [List.append_assoc, List.singleton_append]),
      List.append_assoc, List.singleton_append]

theorem nodup_names_mergeMembers {members : Entries Value} (h : members.names.Nodup)
    (added : Entries Value) : (Entries.names (mergeMembers members added)).Nodup := by
  induction added generalizing members with
  | nil => exact h
  | cons e rest ih =>
    obtain ⟨name, new⟩ := e
    rw [mergeMembers_cons]
    exact ih (Entries.nodup_names_put h name _)

theorem mem_names_mergeMembers {members added : Entries Value} {name : String} :
    name ∈ Entries.names (mergeMembers members added) ↔
      name ∈ members.names ∨ name ∈ added.names := by
  induction added generalizing members with
  | nil => simp [mergeMembers_nil, Entries.names]
  | cons e rest ih =>
    obtain ⟨n, new⟩ := e
    rw [mergeMembers_cons, ih, Entries.mem_names_put, or_assoc]
    simp [Entries.names]

/-- What is merged under a name that is added once at most. -/
theorem lookup_mergeMembers {members added : Entries Value} {name : String}
    (h : added.names.count name ≤ 1) :
    (mergeMembers members added).lookup name = (added.lookup name).elim (members.lookup name)
      fun new => some ((members.lookup name).elim new (merge · new)) := by
  induction added generalizing members with
  | nil => rw [mergeMembers_nil, List.lookup_nil, Option.elim_none]
  | cons e rest ih =>
    obtain ⟨n, new⟩ := e
    have hcons : Entries.names ((n, new) :: rest) = n :: Entries.names rest := rfl
    rw [hcons, List.count_cons] at h
    rw [mergeMembers_cons, ih (by omega), List.lookup_cons]
    by_cases hname : name = n
    · subst hname
      rw [beq_self_eq_true, if_pos rfl] at h
      have hnone : rest.lookup name = none :=
        Entries.lookup_eq_none_iff.2 (List.count_eq_zero.1 (by omega))
      rw [Entries.lookup_put_self, hnone, beq_self_eq_true]
      rfl
    · have hbeq : (name == n) = false := beq_eq_false_iff_ne.2 hname
      rw [Entries.lookup_put_of_ne hname, hbeq]

/-! ## Items -/

theorem mergeItems_nil_right (items : List Value) : mergeItems items [] = items := rfl

theorem mergeItems_cons {old : Value} (hold : old.isList = false) (new : Value)
    (olds rest : List Value) :
    mergeItems (old :: olds) (new :: rest) = merge old new :: mergeItems olds rest := by
  cases new with
  | object members => cases old <;> rfl
  | list added => rw [merge_list_of_isList hold]; rfl
  | _ => rfl

/-- An item is merged with the one at its place, or it stays as it is. -/
theorem exists_mergeItems_cons (old new : Value) (olds rest : List Value) :
    ∃ item, mergeItems (old :: olds) (new :: rest) = item :: mergeItems olds rest ∧
      (item = old ∨ item = merge old new) := by
  cases hold : old.isList with
  | false => exact ⟨_, mergeItems_cons hold new olds rest, .inr rfl⟩
  | true =>
    refine ⟨old, ?_, .inl rfl⟩
    cases old with
    | list items => cases new <;> rfl
    | _ => cases hold

theorem mergeItems_nil (added : List Value) : mergeItems [] added = [] := by
  cases added with
  | nil => rfl
  | cons new rest => cases new <;> rfl

/-- Lists of one length are merged item by item, unless there are lists among the items. -/
theorem mergeItems_eq_zipWith {items added : List Value} (hlength : items.length = added.length)
    (h : ∀ item ∈ items, item.isList = false) :
    mergeItems items added = List.zipWith merge items added := by
  induction added generalizing items with
  | nil =>
    obtain rfl := List.length_eq_zero_iff.1 hlength
    rw [mergeItems_nil_right, List.zipWith_nil_left]
  | cons new rest ih =>
    cases items with
    | nil => cases hlength
    | cons old olds =>
      have hrest := ih (Nat.succ.inj hlength) fun item hitem => h item (by simp [hitem])
      rw [mergeItems_cons (h old (by simp)), List.zipWith_cons_cons, hrest]

end Gazette.Value
