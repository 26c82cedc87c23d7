import Gazette.Proofs.Request.Merging
import Gazette.Proofs.Request.Visits

/-!
# Results in the data

The data of a response is read along paths (`Value.at?`).  Merging does not move anything: a null of
merged results is one of the results (`Value.reaches_of_merge`), and what stands under a name that
no other result has stays there.  So the data that a trace settles to has what its children settle
to, if no other child has the same place (`Trace.child?_of_unique`), and every null in the data
comes from a child (`Trace.exists_child_of_reaches`).
-/

namespace Gazette

namespace Value

/-- The value under a segment of a path. -/
def child? : Value → Segment → Option Value
  | object members, .key name => members.lookup name
  | list items, .index i => items[i]?
  | _, _ => none

/-- The value at a path. -/
def at? : Value → Path → Option Value
  | v, [] => some v
  | v, segment :: rest => (v.child? segment).bind fun u => u.at? rest

/-- Whether null is at a path, or at a place on the way to it. -/
def meetsNull : Value → Path → Bool
  | v, [] => v.isNull
  | v, segment :: rest => v.isNull || (v.child? segment).any fun u => u.meetsNull rest

/-- Whether a value is at a path, where an object may have several members of one name. -/
inductive Reaches : Value → Path → Value → Prop
  | here (v : Value) : Reaches v [] v
  | member {members : List (String × Value)} {name : String} {u v : Value} {path : Path}
    (hmem : (name, u) ∈ members) (h : Reaches u path v) :
    Reaches (object members) (.key name :: path) v
  | item {items : List Value} {i : Nat} {u v : Value} {path : Path} (hitem : items[i]? = some u)
    (h : Reaches u path v) : Reaches (list items) (.index i :: path) v

theorem reaches_of_at? {v u : Value} {path : Path} (h : v.at? path = some u) :
    v.Reaches path u := by
  induction path generalizing v with
  | nil =>
    obtain rfl := Option.some.inj h
    exact .here v
  | cons segment rest ih =>
    obtain ⟨w, hw, hu⟩ := Option.bind_eq_some_iff.1 h
    unfold child? at hw
    split at hw
    · exact .member (Entries.mem_of_lookup hw) (ih hu)
    · exact .item hw (ih hu)
    · cases hw

theorem meetsNull_null (path : Path) : null.meetsNull path = true := by
  cases path <;> rfl

theorem meetsNull_of_child {v u : Value} {segment : Segment} {rest : Path}
    (hu : v.child? segment = some u) (h : u.meetsNull rest) : v.meetsNull (segment :: rest) := by
  rw [meetsNull, hu, Bool.or_eq_true]
  exact .inr h

theorem at?_eq_null {v : Value} {path : Path} (h : (v.at? path).any isNull) :
    v.at? path = some .null := by
  obtain ⟨u, hu, hnull⟩ := (Option.any_eq_true _ _).1 h
  cases u with
  | null => exact hu
  | _ => cases hnull

/-! ## Merged results -/

mutual

/-- A null in a merged value is in one of the two. -/
theorem reaches_of_merge {old new : Value} {path : Path} (h : (merge old new).Reaches path .null) :
    old.Reaches path .null ∨ new.Reaches path .null := by
  cases new with
  | object added =>
    cases old with
    | object members =>
      rw [merge_object] at h
      cases h with
      | member hmem hu =>
        obtain ⟨u, hmem | hmem, hu⟩ := reaches_of_mergeMembers hmem hu
        · exact .inl (.member hmem hu)
        · exact .inr (.member hmem hu)
    | _ => exact .inl h
  | list added =>
    cases old with
    | list items =>
      rw [merge_list] at h
      cases h with
      | item hitem hu =>
        obtain ⟨u, hitem | hitem, hu⟩ := reaches_of_mergeItems hitem hu
        · exact .inl (.item hitem hu)
        · exact .inr (.item hitem hu)
    | _ => exact .inl h
  | _ => exact .inl (by rwa [merge_of_isAtomic rfl] at h)
termination_by structural new

theorem reaches_of_mergeMembers {members added : List (String × Value)} {name : String} {u : Value}
    {path : Path} (hmem : (name, u) ∈ mergeMembers members added) (h : u.Reaches path .null) :
    ∃ u', ((name, u') ∈ members ∨ (name, u') ∈ added) ∧ u'.Reaches path .null := by
  cases added with
  | nil => exact ⟨u, .inl hmem, h⟩
  | cons e rest =>
    obtain ⟨n, new⟩ := e
    rw [mergeMembers_cons] at hmem
    obtain ⟨u', hmem | hmem, h⟩ := reaches_of_mergeMembers hmem h
    · rcases Entries.mem_put hmem with heq | hmem
      · cases heq
        cases hlookup : members.lookup name with
        | none =>
          rw [hlookup] at h
          exact ⟨new, .inr (.head _), h⟩
        | some old =>
          rw [hlookup] at h
          rcases reaches_of_merge h with h | h
          · exact ⟨old, .inl (Entries.mem_of_lookup hlookup), h⟩
          · exact ⟨new, .inr (.head _), h⟩
      · exact ⟨u', .inl hmem, h⟩
    · exact ⟨u', .inr (.tail _ hmem), h⟩
termination_by structural added

theorem reaches_of_mergeItems {items added : List Value} {i : Nat} {u : Value} {path : Path}
    (hitem : (mergeItems items added)[i]? = some u) (h : u.Reaches path .null) :
    ∃ u', (items[i]? = some u' ∨ added[i]? = some u') ∧ u'.Reaches path .null := by
  cases added with
  | nil => exact ⟨u, .inl hitem, h⟩
  | cons new rest =>
    cases items with
    | nil => rw [mergeItems_nil] at hitem; cases hitem
    | cons old olds =>
      obtain ⟨item, heq, hmerged⟩ := exists_mergeItems_cons old new olds rest
      rw [heq] at hitem
      cases i with
      | succ i => exact reaches_of_mergeItems (i := i) hitem h
      | zero =>
        obtain rfl : item = u := Option.some.inj hitem
        rcases hmerged with rfl | rfl
        · exact ⟨item, .inl rfl, h⟩
        · exact (reaches_of_merge h).elim (fun h => ⟨old, .inl rfl, h⟩)
            fun h => ⟨new, .inr rfl, h⟩
termination_by structural added

end

theorem not_reaches_of_isAtomic {v u : Value} (h : v.isAtomic) {segment : Segment} {path : Path} :
    ¬ v.Reaches (segment :: path) u := by
  rintro (_ | ⟨hmem, hu⟩ | ⟨hitem, hu⟩) <;> cases h

end Value

namespace Execution.Trace

/-! ## What children settle to -/

/-- What a child of a trace at a path settles to. -/
def settleChild (path : Path) (c : Step × Trace) : Settled Value :=
  if c.1.isPosition then
    (c.2.settle (path ++ [c.1.segment])).position c.1.type (path ++ [c.1.segment])
  else c.2.settle path

theorem settleMember_eq_settleChild (path : Path) (slot : Slot) (t : Trace) :
    settleMember path (slot, t) = settleChild path (slot.step, t) := by
  rw [settleMember]
  rfl

/-- The results of a list are those of its items, in order. -/
theorem forall₂_of_settleItems {path : Path} {item : TypeRef} {i : Nat} {items : List Trace}
    {values : List Value} (h : (settleItems path item i items).outcome = .ok values) :
    List.Forall₂ (fun c u => (settleChild path c).outcome = .ok u) (ranItems item i items)
      values := by
  induction items generalizing i values with
  | nil =>
    rw [settleItems] at h
    obtain rfl := Except.ok.inj h
    exact .nil
  | cons t rest ih =>
    have hok := isOk_position_settle (isOk_settle (path ++ [.index i]) t) item
    rw [settleItems] at h
    cases hu : ((t.settle (path ++ [.index i])).position item (path ++ [.index i])).outcome with
    | error e => rw [Settled.andThen_of_error hu] at h; cases h
    | ok u =>
      rw [Settled.andThen_of_ok hu] at h
      obtain ⟨us, hus, rfl⟩ := map_eq_ok_iff.1 h
      rw [ranItems, if_neg (by simp [Settled.eq_false_of_ok hu hok])]
      exact .cons hu (ih hus)

/-- The results of the fields of an object, in order. -/
theorem forall₂_of_settleMembers {path : Path} {members : List (Slot × Trace)}
    {results : List (String × Value)} (h : (settleMembers path members).outcome = .ok results) :
    List.Forall₂ (fun c e => c.1.segment = .key e.1 ∧ (settleChild path c).outcome = .ok e.2)
      (ranMembers members) results := by
  induction members generalizing results with
  | nil =>
    rw [settleMembers] at h
    obtain rfl := Except.ok.inj h
    exact .nil
  | cons m rest ih =>
    obtain ⟨slot, t⟩ := m
    have hok := isOk_settleMember path (slot, t)
    rw [settleMembers, settleMember_eq_settleChild] at h
    rw [settleMember_eq_settleChild] at hok
    cases hu : (settleChild path (slot.step, t)).outcome with
    | error e => rw [Settled.andThen_of_error hu] at h; cases h
    | ok u =>
      rw [Settled.andThen_of_ok hu] at h
      obtain ⟨results, hresults, rfl⟩ := map_eq_ok_iff.1 h
      rw [ranMembers, if_neg (by simp [Settled.eq_false_of_ok hu hok])]
      exact .cons ⟨rfl, hu⟩ (ih hresults)

theorem segment_of_getElem?_ranItems {item : TypeRef} {i j : Nat} {items : List Trace}
    {c : Step × Trace} (h : (ranItems item i items)[j]? = some c) :
    c.1.segment = .index (i + j) := by
  induction items generalizing i j with
  | nil => cases h
  | cons t rest ih =>
    rw [ranItems] at h
    cases j with
    | zero =>
      obtain rfl := Option.some.inj h
      rfl
    | succ j =>
      rw [List.getElem?_cons_succ] at h
      split at h
      · cases h
      · rw [ih h, Nat.add_right_comm]
        rfl

/-- A null in the data below a place is that of a child. -/
theorem exists_child_of_reaches {t : Trace} {path rest : Path} {value : Value} {segment : Segment}
    (hleaf : ∀ x, t ≠ leaf x) (hvalue : (t.settle path).outcome = .ok value)
    (h : value.Reaches (segment :: rest) .null) : ∃ c ∈ t.children, c.1.segment = segment ∧
      ∃ u, (settleChild path c).outcome = .ok u ∧ u.Reaches rest .null := by
  cases t with
  | null =>
    obtain rfl := Except.ok.inj hvalue
    exact absurd h (Value.not_reaches_of_isAtomic rfl)
  | leaf x => exact absurd rfl (hleaf x)
  | failure cause => cases hvalue
  | list item items =>
    rw [settle] at hvalue
    obtain ⟨values, hvalues, rfl⟩ := map_eq_ok_iff.1 hvalue
    cases h with
    | item hitem hu =>
      obtain ⟨c, hc, hsettles⟩ := exists_of_getElem?_right (forall₂_of_settleItems hvalues) hitem
      refine ⟨c, List.mem_of_getElem? hc, ?_, _, hsettles, hu⟩
      rw [segment_of_getElem?_ranItems hc, Nat.zero_add]
  | object members =>
    rw [settle] at hvalue
    obtain ⟨results, hresults, rfl⟩ := map_eq_ok_iff.1 hvalue
    cases h with
    | member hmem hu =>
      obtain ⟨u, hmem | hmem, hu⟩ := Value.reaches_of_mergeMembers hmem hu
      · cases hmem
      · obtain ⟨c, hc, hsegment, hsettles⟩ :=
          exists_of_mem_right (forall₂_of_settleMembers hresults) hmem
        exact ⟨c, hc, hsegment, u, hsettles, hu⟩

/-- The result of a child is in the data if no other child has its place. -/
theorem child?_of_unique {t : Trace} {path : Path} {value : Value} {c : Step × Trace}
    (hvalue : (t.settle path).outcome = .ok value) (hc : c ∈ t.children)
    (hunique : (t.children.map fun c => c.1.segment).count c.1.segment ≤ 1) :
    ∃ u, (settleChild path c).outcome = .ok u ∧ value.child? c.1.segment = some u := by
  cases t with
  | null => cases hc
  | leaf x => cases hc
  | failure cause => cases hc
  | list item items =>
    rw [settle] at hvalue
    obtain ⟨values, hvalues, rfl⟩ := map_eq_ok_iff.1 hvalue
    obtain ⟨j, hj⟩ := List.getElem?_of_mem hc
    obtain ⟨u, hu, hsettles⟩ :=
      exists_of_getElem?_right (forall₂_of_settleItems hvalues).flip hj
    refine ⟨u, hsettles, ?_⟩
    rw [segment_of_getElem?_ranItems hj, Nat.zero_add]
    exact hu
  | object members =>
    rw [settle] at hvalue
    obtain ⟨results, hresults, rfl⟩ := map_eq_ok_iff.1 hvalue
    have hall := forall₂_of_settleMembers hresults
    obtain ⟨⟨key, u⟩, he, hsegment, hsettles⟩ := exists_of_mem_left hall hc
    refine ⟨u, hsettles, ?_⟩
    -- fields are merged by key, so the place of a field is its own if its key is
    have hkeys : ((ranMembers members).map fun c => c.1.segment) =
        (Entries.names results).map Segment.key := by
      rw [Entries.names, List.map_map]
      exact map_eq_of_forall₂ hall fun c e h => h.1
    rw [hsegment, children, hkeys,
      List.count_map_of_injective _ _ fun _ _ => Segment.key.inj] at hunique
    rw [hsegment]
    show (Value.mergeMembers [] results).lookup key = some u
    rw [Value.lookup_mergeMembers hunique, Entries.lookup_of_mem he hunique]
    rfl

end Execution.Trace

end Gazette
