import Gazette.Proofs.Request.Reading
import Gazette.Proofs.Request.Trace
import Mathlib.Data.List.Count
import Mathlib.Data.List.Flatten

/-!
# The visits of a run

The visits of a trace are the fields and items that a run came to, each with the way to it from the
root (`Trace.visits`).  What holds of every field of a run is shown once for a field, given that it
holds of the fields inside it (`Scope.Sustains`, `forall_traceAll`).
-/

namespace Gazette.Execution

/-- A step of the way to a result: to a field, or to an item of a list. -/
structure Step where
  segment : Segment
  type : TypeRef
  isPosition : Bool
  deriving DecidableEq

namespace Step

/-- What the step adds to the paths of errors. -/
def path (step : Step) : Path := if step.isPosition then [step.segment] else []

/-- The step to an item of a list. -/
def item (type : TypeRef) (i : Nat) : Step := ⟨.index i, type, true⟩

end Step

/-- The step to a member of an object. -/
def Slot.step (slot : Slot) : Step := ⟨.key slot.key, slot.type, slot.isPosition⟩

/-- What a run came to, with the way to it. -/
structure Visit where
  place : List Step
  trace : Trace

namespace Visit

/-- A visit as it is met below a step. -/
def below (step : Step) (v : Visit) : Visit := ⟨step :: v.place, v.trace⟩

/-- Where the result of the visit stands in the data. -/
def route (v : Visit) : Path := v.place.map Step.segment

/-- The path of an error at the visit. -/
def path (v : Visit) : Path := v.place.flatMap Step.path

theorem path_eq_route {v : Visit} (h : ∀ step ∈ v.place, step.isPosition) : v.path = v.route := by
  rw [path, route, List.map_eq_flatMap]
  exact List.flatMap_congr fun step hstep => if_pos (h step hstep)

end Visit

namespace Trace

mutual

/-- The visits of a run with the trace, in order.  No run goes on behind an item or a field that an
error leaves. -/
def visits : Trace → List Visit
  | null => [⟨[], null⟩]
  | leaf value => [⟨[], leaf value⟩]
  | failure cause => [⟨[], failure cause⟩]
  | list item items => ⟨[], list item items⟩ :: visitsOfItems item 0 items
  | object members => ⟨[], object members⟩ :: visitsOfMembers members

/-- The visits of the items of a list up to the first one whose failure passes on. -/
def visitsOfItems (item : TypeRef) (i : Nat) : List Trace → List Visit
  | [] => []
  | t :: rest =>
    t.visits.map (.below (.item item i)) ++
      if item.isNonNull && t.fails then [] else visitsOfItems item (i + 1) rest

/-- The visits of the members of an object up to the first one whose failure passes on. -/
def visitsOfMembers : List (Slot × Trace) → List Visit
  | [] => []
  | (slot, t) :: rest =>
    t.visits.map (.below slot.step) ++
      if slot.passes && t.fails then [] else visitsOfMembers rest

end

/-! ### One step further -/

/-- What a run came to among the items of a list, from the index `i` on. -/
def ranItems (item : TypeRef) (i : Nat) : List Trace → List (Step × Trace)
  | [] => []
  | t :: rest =>
    (.item item i, t) :: if item.isNonNull && t.fails then [] else ranItems item (i + 1) rest

/-- What a run came to among the fields of an object. -/
def ranMembers : List (Slot × Trace) → List (Step × Trace)
  | [] => []
  | (slot, t) :: rest =>
    (slot.step, t) :: if slot.passes && t.fails then [] else ranMembers rest

/-- What a run came to one step further. -/
def children : Trace → List (Step × Trace)
  | list item items => ranItems item 0 items
  | object members => ranMembers members
  | _ => []

theorem mem_of_mem_ranItems {item : TypeRef} {i : Nat} {items : List Trace} {c : Step × Trace}
    (h : c ∈ ranItems item i items) : c.2 ∈ items ∧ ∃ j, c.1 = .item item j := by
  induction items generalizing i with
  | nil => cases h
  | cons t rest ih =>
    rw [ranItems] at h
    rcases List.mem_cons.1 h with rfl | h
    · exact ⟨.head _, i, rfl⟩
    · split at h
      · cases h
      · exact ⟨.tail _ (ih h).1, (ih h).2⟩

theorem exists_of_mem_ranMembers {members : List (Slot × Trace)} {c : Step × Trace}
    (h : c ∈ ranMembers members) : ∃ slot, (slot, c.2) ∈ members ∧ c.1 = slot.step := by
  induction members with
  | nil => cases h
  | cons m rest ih =>
    rw [ranMembers] at h
    rcases List.mem_cons.1 h with rfl | h
    · exact ⟨m.1, .head _, rfl⟩
    · split at h
      · cases h
      · obtain ⟨slot, hslot, heq⟩ := ih h
        exact ⟨slot, .tail _ hslot, heq⟩

theorem visitsOfItems_eq (item : TypeRef) (i : Nat) (items : List Trace) :
    visitsOfItems item i items =
      (ranItems item i items).flatMap fun c => c.2.visits.map (.below c.1) := by
  induction items generalizing i with
  | nil => rfl
  | cons t rest ih =>
    rw [visitsOfItems, ranItems, List.flatMap_cons]
    split
    · rfl
    · rw [ih]

theorem visitsOfMembers_eq (members : List (Slot × Trace)) : visitsOfMembers members =
    (ranMembers members).flatMap fun c => c.2.visits.map (.below c.1) := by
  induction members with
  | nil => rfl
  | cons m rest ih =>
    rw [visitsOfMembers, ranMembers, List.flatMap_cons]
    split
    · rfl
    · rw [ih]

theorem visits_eq (t : Trace) :
    t.visits = ⟨[], t⟩ :: t.children.flatMap fun c => c.2.visits.map (.below c.1) := by
  cases t with
  | list item items => rw [visits, visitsOfItems_eq, children]
  | object members => rw [visits, visitsOfMembers_eq, children]
  | _ => rfl

theorem mem_visits_iff {t : Trace} {v : Visit} : v ∈ t.visits ↔
    v = ⟨[], t⟩ ∨ ∃ c ∈ t.children, ∃ w ∈ c.2.visits, w.below c.1 = v := by
  rw [visits_eq, List.mem_cons, List.mem_flatMap]
  simp only [List.mem_map]

theorem root_mem_visits (t : Trace) : ⟨[], t⟩ ∈ t.visits := mem_visits_iff.2 (.inl rfl)

theorem below_mem_visits {t : Trace} {c : Step × Trace} (hc : c ∈ t.children) {w : Visit}
    (hw : w ∈ c.2.visits) : w.below c.1 ∈ t.visits :=
  mem_visits_iff.2 (.inr ⟨c, hc, w, hw, rfl⟩)

theorem exists_child_of_mem_visits {t : Trace} {v : Visit} (hv : v ∈ t.visits) {step : Step}
    {place : List Step} (hplace : v.place = step :: place) :
    ∃ t', (step, t') ∈ t.children ∧ ⟨place, v.trace⟩ ∈ t'.visits := by
  rcases mem_visits_iff.1 hv with rfl | ⟨c, hc, w, hw, rfl⟩
  · cases hplace
  · obtain ⟨rfl, rfl⟩ := List.cons.inj hplace
    exact ⟨c.2, hc, hw⟩

/-- A run comes to a result by way of the results above it. -/
theorem exists_visit_of_append {t : Trace} {v : Visit} (hv : v ∈ t.visits) {place more : List Step}
    (hplace : v.place = place ++ more) :
    ∃ t', ⟨place, t'⟩ ∈ t.visits ∧ ⟨more, v.trace⟩ ∈ t'.visits := by
  induction place generalizing t v with
  | nil =>
    obtain ⟨_, u⟩ := v
    obtain rfl : _ = more := hplace
    exact ⟨t, root_mem_visits t, hv⟩
  | cons step place ih =>
    obtain ⟨t', hc, hw⟩ := exists_child_of_mem_visits hv hplace
    obtain ⟨u, hu, hmore⟩ := ih hw rfl
    exact ⟨u, below_mem_visits hc hu, hmore⟩

/-! ### Places that a run comes to several times -/

/-- How often a run comes to a place in the data. -/
def timesAt (t : Trace) (route : Path) : Nat := (t.visits.map Visit.route).count route

theorem routes_eq (t : Trace) : t.visits.map Visit.route =
    [] :: t.children.flatMap fun c => (c.2.visits.map Visit.route).map (c.1.segment :: ·) := by
  rw [visits_eq, List.map_cons, List.map_flatMap]
  simp only [List.map_map, Function.comp_def]
  rfl

theorem timesAt_le {t : Trace} {c : Step × Trace} (hc : c ∈ t.children) (route : Path) :
    c.2.timesAt route ≤ t.timesAt (c.1.segment :: route) := by
  have hsublist := (List.singleton_sublist.2 hc).flatMap fun c : Step × Trace =>
    (c.2.visits.map Visit.route).map (c.1.segment :: ·)
  rw [List.flatMap_singleton] at hsublist
  have hcount := (hsublist.trans (List.sublist_cons_self [] _)).count_le (c.1.segment :: route)
  rwa [← routes_eq, List.count_map_of_injective _ _ (List.cons_injective)] at hcount

theorem count_children_le (t : Trace) (segment : Segment) :
    (t.children.map fun c => c.1.segment).count segment ≤ t.timesAt [segment] := by
  have hsublist : (t.children.map fun c => [c.1.segment]).Sublist (t.visits.map Visit.route) := by
    rw [routes_eq, List.map_eq_flatMap]
    refine .trans (List.Sublist.flatMap_right _ fun c _ => ?_) (List.sublist_cons_self [] _)
    rw [List.singleton_sublist, List.mem_map]
    exact ⟨[], List.mem_map.2 ⟨_, root_mem_visits c.2, rfl⟩, rfl⟩
  have hcount := hsublist.count_le [segment]
  have hmap : (t.children.map fun c => [c.1.segment]) =
      (t.children.map fun c => c.1.segment).map fun segment => [segment] := by
    rw [List.map_map]
    rfl
  rwa [hmap, List.count_map_of_injective _ _ (List.singleton_injective)] at hcount

end Trace

/-! ## What holds of every field -/

variable {σ ν : Type} [Node ν]

/-- Whether a property of the fields of some objects holds of every field of which it holds
inside. -/
structure Scope.Sustains (scope : Scope σ ν) (p : ObjectType σ ν → Prop)
    (P : ObjectType σ ν → Slot × Trace → Prop) : Prop where
  typeName : ∀ o key, P o (⟨key, .namedNonNull builtin.string, true⟩, .leaf (.string o.name))
  field : ∀ o, p o → ∀ name f, o.field? name = some f → ∀ inside : TraceInside σ ν,
    (∀ o' v s, p o' → ∃ members, (inside o' v s).1 = .object members ∧ ∀ m ∈ members, P o' m) →
    ∀ head parent s, P o (traceAt scope inside o.name f head parent s).1

variable {scope : Scope σ ν} {p : ObjectType σ ν → Prop} {P : ObjectType σ ν → Slot × Trace → Prop}

mutual

theorem forall_traceAll (h : scope.Sustains p P) {o : ObjectType σ ν} (ho : p o) (parent : ν)
    (plans : List Plan) (s : σ) : ∀ m ∈ (traceAll scope o parent plans s).1, P o m := by
  cases plans with
  | nil => exact fun m hm => absurd hm List.not_mem_nil
  | cons plan rest =>
    have hfirst := forall_traceOne h ho parent plan s
    rw [traceAll]
    intro m hm
    split at hm
    · exact hfirst m hm
    · rcases List.mem_append.1 hm with hm | hm
      · exact hfirst m hm
      · exact forall_traceAll h ho parent rest _ m hm

theorem forall_traceOne (h : scope.Sustains p P) {o : ObjectType σ ν} (ho : p o) (parent : ν)
    (plan : Plan) (s : σ) : ∀ m ∈ (traceOne scope o parent plan s).1, P o m := by
  cases plan with
  | field head plans =>
    rw [traceOne]
    split
    · intro m hm
      obtain rfl := List.mem_singleton.1 hm
      exact h.typeName o head.key
    · split
      · exact fun m hm => absurd hm List.not_mem_nil
      · rename_i f hf
        intro m hm
        obtain rfl := List.mem_singleton.1 hm
        -- the objects inside the field run the selections of the field
        exact h.field o ho head.name f hf _
          (fun o' v s ho' => ⟨_, rfl, forall_traceAll h ho' v plans s⟩) head parent s
  | fragment name condition directives plans =>
    rw [traceOne]
    split
    · exact forall_traceAll h ho parent plans s
    · exact fun m hm => absurd hm List.not_mem_nil
  | missing name => exact fun m hm => absurd hm List.not_mem_nil

end

/-! ### Completed values -/

/-- Whether a property of traces holds of those without fields, and of lists of such. -/
structure Trace.Closed (P : Trace → Prop) : Prop where
  null : P .null
  leaf : ∀ value, P (.leaf value)
  request : ∀ issue, P (.failure (.request issue))
  list : ∀ item items, (∀ t ∈ items, P t) → P (.list item items)

variable {P : Trace → Prop} {inside : TraceInside σ ν}

omit [Node ν] in
theorem forall_traceEach {α : Type} {item : TypeRef} {one : α → σ → Trace × σ} {as : List α}
    (h : ∀ a ∈ as, ∀ s, P (one a s).1) (s : σ) : ∀ t ∈ (traceEach item one as s).1, P t := by
  induction as generalizing s with
  | nil => exact fun t ht => absurd ht List.not_mem_nil
  | cons a rest ih =>
    rw [traceEach]
    intro t ht
    split at ht
    · obtain rfl := List.mem_singleton.1 ht
      exact h a (.head _) s
    · rcases List.mem_cons.1 ht with rfl | ht
      · exact h a (.head _) s
      · exact ih (fun b hb => h b (.tail _ hb)) _ t ht

theorem Trace.Closed.traceNamed (hP : Closed P) {name : String} {value : Completed ν}
    (hfits : value = .null ∨ value.FitsNamed scope.registry .nothing name)
    (hinside : ∀ o v s, scope.registry.Possible name o → P (inside o v s).1) (s : σ) :
    P (traceNamed scope inside name value s).1 := by
  unfold Execution.traceNamed
  split
  · exact hP.leaf _
  · exact hP.null
  · exact hP.leaf _
  · rename_i hfind
    exact hinside _ _ _ (.object hfind)
  · rename_i hfind
    exact hinside _ _ _ (.object hfind)
  · rename_i i tag v hfind
    obtain ⟨o, ho, hpossible⟩ := Completed.exists_possible_of_fits hfind hfits
    rw [ho]
    exact hinside o v s hpossible
  · exact hP.request _

theorem Trace.Closed.traceValue (hP : Closed P) {type : TypeRef} {value : Completed ν}
    (hfits : value.Fits scope.registry .nothing type)
    (hinside : ∀ o v s, scope.registry.Possible type.baseName o → P (inside o v s).1) (s : σ) :
    P (traceValue scope inside type value s).1 := by
  induction type generalizing value s with
  | nonNull inner ih => exact ih hfits.2 hinside s
  | list item ih =>
    unfold Execution.traceValue
    split
    · exact hP.list _ _ (forall_traceEach (fun v hv s => ih (hfits.of_mem hv) hinside s) s)
    · exact hP.request _
  | named name => exact hP.traceNamed hfits hinside s

theorem Trace.Closed.traceWith (hP : Closed P) {field : Field σ ν} {head : FieldHead}
    (hinside : ∀ o v s, scope.registry.Possible field.type.baseName o → P (inside o v s).1)
    (hcause : ∀ e, P (.failure (causeOf scope field head.remaining e))) {object : String}
    (hdeclared : scope.registry.field? object field.name = some field) (parent : ν)
    (arguments : Entries Value) (s : σ) :
    P (traceWith scope inside object field head parent arguments s).1 := by
  unfold Execution.traceWith
  rw [resolveDeclared_eq hdeclared]
  split
  · exact hcause _
  · exact hP.null
  · rename_i heq
    exact hP.traceValue (fits_of_resolveField heq) hinside _

end Gazette.Execution
