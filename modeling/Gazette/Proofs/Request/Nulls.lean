import Gazette.Proofs.Request.Failures
import Gazette.Proofs.Request.Results

/-!
# Nulls in the data

A run comes to null only where the declared type has it (`Trace.IsTyped`), and other nulls are left
by errors, at positions that can be null.  So every null in the data of a response is declared by
something that was selected for its place, or is inside a leaf (`Schema.allows_of_null`).  Merged
selections can declare several types for one place, and then a place that cannot be null for one of
them can be null for another (`Bookshop.null_for_owner`).
-/

namespace Gazette

variable {σ ν : Type}

/-- Whether the values of the type with a name are leaves. -/
def Registry.IsLeaf (r : Registry σ ν) (name : String) : Prop :=
  (∃ t, r.find? name = some (.scalar t)) ∨ ∃ e, r.find? name = some (.enum e)

theorem Registry.not_isLeaf_of_object {r : Registry σ ν} {name : String} {o : ObjectType σ ν}
    (h : r.find? name = some (.object o)) : ¬ r.IsLeaf name := by
  rintro (⟨t, ht⟩ | ⟨e, he⟩)
  · cases h.symm.trans ht
  · cases h.symm.trans he

theorem Registry.not_isLeaf_of_interface {r : Registry σ ν} {name : String} {i : InterfaceType}
    (h : r.find? name = some (.interface i)) : ¬ r.IsLeaf name := by
  rintro (⟨t, ht⟩ | ⟨e, he⟩)
  · cases h.symm.trans ht
  · cases h.symm.trans he

namespace Execution

/-- Whether the position of a step can be null. -/
def Step.catches (step : Step) : Bool := step.isPosition && !step.type.isNonNull

/-- The declared type of what a run came to; the root has none. -/
def Visit.type? (v : Visit) : Option TypeRef := v.place.getLast?.map Step.type

theorem Visit.type?_below (step : Step) (v : Visit) :
    (v.below step).type? = some (v.type?.getD step.type) := by
  rw [type?, below, List.getLast?_cons, type?]
  cases v.place.getLast? <;> rfl

namespace Trace

/-! ## Traces of declared types -/

/-- Whether a trace is one of a type. -/
def Suits (r : Registry σ ν) : TypeRef → Trace → Prop
  | .nonNull inner, t => t ≠ null ∧ t.Suits r inner
  | .list item, t =>
    match t with
    | null | failure _ => True
    | list item' _ => item' = item
    | _ => False
  | .named name, t =>
    match t with
    | null | failure _ => True
    | leaf x => x.isNull = false ∧ (x.isAtomic ∨ r.IsLeaf name)
    | object _ => ¬ r.IsLeaf name
    | list .. => False

/-- Whether all that a run came to is of the declared types. -/
def IsTyped (r : Registry σ ν) (t : Trace) : Prop :=
  ∀ v ∈ t.visits, ∀ type, v.type? = some type → v.trace.Suits r type

variable {r : Registry σ ν}

theorem suits_failure (type : TypeRef) (cause : Cause) : (failure cause).Suits r type := by
  induction type with
  | nonNull inner ih => exact ⟨nofun, ih⟩
  | list item ih => trivial
  | named name => trivial

theorem suits_null_iff {type : TypeRef} : null.Suits r type ↔ type.isNonNull = false := by
  cases type with
  | nonNull inner => exact ⟨fun h => absurd rfl h.1, nofun⟩
  | list item => exact ⟨fun _ => rfl, fun _ => trivial⟩
  | named name => exact ⟨fun _ => rfl, fun _ => trivial⟩

theorem isNull_of_suits {type : TypeRef} {x : Value} (h : (leaf x).Suits r type) :
    x.isNull = false := by
  induction type with
  | nonNull inner ih => exact ih h.2
  | list item ih => exact h.elim
  | named name => exact h.1

/-- Leaves with parts are not of the types of objects and lists. -/
theorem not_suits_of_leaf {type : TypeRef} {x : Value} (h : (leaf x).Suits r type)
    (hatomic : x.isAtomic = false) :
    (∀ item items, ¬ (list item items).Suits r type) ∧
      ∀ members, ¬ (object members).Suits r type := by
  induction type with
  | nonNull inner ih => exact ⟨fun item items hlist => (ih h.2).1 item items hlist.2,
      fun members hobject => (ih h.2).2 members hobject.2⟩
  | list item ih => exact h.elim
  | named name =>
    have hleaf : r.IsLeaf name := h.2.resolve_left (by simp [hatomic])
    exact ⟨fun _ _ hlist => hlist, fun _ hobject => hobject hleaf⟩

/-- Only the root has no declared type. -/
theorem eq_root_of_type?_eq_none {t : Trace} {v : Visit} (hv : v ∈ t.visits)
    (h : v.type? = none) : v = ⟨[], t⟩ := by
  rcases mem_visits_iff.1 hv with rfl | ⟨c, -, w, -, rfl⟩
  · rfl
  · rw [Visit.type?_below] at h
    cases h

theorem isTyped_of_children {t : Trace}
    (h : ∀ c ∈ t.children, c.2.Suits r c.1.type ∧ c.2.IsTyped r) : t.IsTyped r := by
  intro v hv type htype
  rcases mem_visits_iff.1 hv with rfl | ⟨c, hc, w, hw, rfl⟩
  · cases htype
  · obtain ⟨hsuits, htyped⟩ := h c hc
    rw [Visit.type?_below] at htype
    obtain rfl := Option.some.inj htype
    cases hw' : w.type? with
    | some type => exact htyped w hw type hw'
    | none => rwa [eq_root_of_type?_eq_none hw hw']

theorem IsTyped.child {t : Trace} (h : t.IsTyped r) {c : Step × Trace} (hc : c ∈ t.children) :
    c.2.Suits r c.1.type ∧ c.2.IsTyped r := by
  refine ⟨h _ (below_mem_visits hc (root_mem_visits c.2)) _ (Visit.type?_below _ _), ?_⟩
  intro v hv type htype
  refine h _ (below_mem_visits hc hv) type ?_
  rw [Visit.type?_below, htype]
  rfl

theorem isTyped_list {item : TypeRef} {items : List Trace}
    (h : ∀ t ∈ items, t.Suits r item ∧ t.IsTyped r) : (list item items).IsTyped r := by
  refine isTyped_of_children fun c hc => ?_
  obtain ⟨ht, j, hstep⟩ := mem_of_mem_ranItems hc
  rw [hstep]
  exact h _ ht

theorem isTyped_object {members : List (Slot × Trace)}
    (h : ∀ m ∈ members, m.2.Suits r m.1.type ∧ m.2.IsTyped r) : (object members).IsTyped r := by
  refine isTyped_of_children fun c hc => ?_
  obtain ⟨slot, hslot, hstep⟩ := exists_of_mem_ranMembers hc
  rw [hstep]
  exact h _ hslot

theorem isTyped_failure (cause : Cause) : (failure cause).IsTyped r :=
  isTyped_of_children fun _ hc => absurd hc List.not_mem_nil

theorem isTyped_null : null.IsTyped r :=
  isTyped_of_children fun _ hc => absurd hc List.not_mem_nil

theorem isTyped_leaf (x : Value) : (leaf x).IsTyped r :=
  isTyped_of_children fun _ hc => absurd hc List.not_mem_nil

end Trace

section

variable [Node ν] {scope : Scope σ ν} {inside : TraceInside σ ν}

/-- What runs come to inside an object of the registry has its declared types. -/
def InsideTyped (scope : Scope σ ν) (inside : TraceInside σ ν) : Prop :=
  ∀ o v s, scope.registry.object? o.name = some o → ∃ members, (inside o v s).1 = .object members ∧
    ∀ m ∈ members, m.2.Suits scope.registry m.1.type ∧ m.2.IsTyped scope.registry

theorem traceNamed_suits (hinside : InsideTyped scope inside) {name : String} {value : Completed ν}
    (hfits : value = .null ∨ value.FitsNamed scope.registry .nothing name) (s : σ) :
    let t := (traceNamed scope inside name value s).1
    t.Suits scope.registry (.named name) ∧ t.IsTyped scope.registry ∧
      (value ≠ .null → t ≠ .null) := by
  have object (hleaf : ¬ scope.registry.IsLeaf name) {tag : String} {o : ObjectType σ ν}
      (ho : scope.registry.object? tag = some o) (v : ν) :
      (inside o v s).1.Suits scope.registry (.named name) ∧
        (inside o v s).1.IsTyped scope.registry ∧ (value ≠ .null → (inside o v s).1 ≠ .null) := by
    obtain ⟨-, rfl⟩ := Registry.mem_of_object? ho
    obtain ⟨members, heq, hmembers⟩ := hinside o v s ho
    rw [heq]
    exact ⟨hleaf, Trace.isTyped_object hmembers, fun _ hnull => by cases hnull⟩
  have failed (cause : Cause) :
      (Trace.failure cause).Suits scope.registry (.named name) ∧
        (Trace.failure cause).IsTyped scope.registry ∧
        (value ≠ .null → Trace.failure cause ≠ .null) :=
    ⟨trivial, Trace.isTyped_failure cause, fun _ hnull => by cases hnull⟩
  unfold traceNamed
  split
  · rename_i t x hfind
    have hnull : x.isNull = false := by
      simp only [Completed.FitsNamed, hfind, reduceCtorEq, false_or] at hfits
      exact hfits.1
    exact ⟨⟨hnull, .inr (.inl ⟨_, hfind⟩)⟩, Trace.isTyped_leaf x, fun _ hnull => by cases hnull⟩
  · exact ⟨trivial, Trace.isTyped_null, fun hne => absurd rfl hne⟩
  · rename_i e x hfind
    have hnull : x.isNull = false := by
      simp only [Completed.FitsNamed, hfind, reduceCtorEq, false_or] at hfits
      obtain ⟨member, rfl, -⟩ := hfits
      rfl
    exact ⟨⟨hnull, .inr (.inr ⟨_, hfind⟩)⟩, Trace.isTyped_leaf x, fun _ hnull => by cases hnull⟩
  · rename_i hfind
    exact object (Registry.not_isLeaf_of_object hfind) (Registry.object?_eq_some_iff.2 hfind) _
  · rename_i hfind
    exact object (Registry.not_isLeaf_of_object hfind) (Registry.object?_eq_some_iff.2 hfind) _
  · rename_i hfind
    split
    · rename_i ho
      exact object (Registry.not_isLeaf_of_interface hfind) ho _
    · exact failed _
  · exact failed _

theorem traceValue_suits (hinside : InsideTyped scope inside) {type : TypeRef}
    {value : Completed ν} (hfits : value.Fits scope.registry .nothing type) (s : σ) :
    let t := (traceValue scope inside type value s).1
    t.Suits scope.registry type ∧ t.IsTyped scope.registry ∧ (value ≠ .null → t ≠ .null) := by
  induction type generalizing value s with
  | nonNull inner ih =>
    obtain ⟨hsuits, htyped, hnull⟩ := ih hfits.2 s
    exact ⟨⟨hnull hfits.1, hsuits⟩, htyped, hnull⟩
  | list item ih =>
    unfold traceValue
    split
    · refine ⟨rfl, Trace.isTyped_list (forall_traceEach (fun v hv s => ?_) s), fun _ => nofun⟩
      obtain ⟨hsuits, htyped, -⟩ := ih (hfits.of_mem hv) s
      exact ⟨hsuits, htyped⟩
    · exact ⟨trivial, Trace.isTyped_failure _, fun _ => nofun⟩
  | named name => exact traceNamed_suits hinside hfits s

/-- A field without a value has a type that can be null. -/
theorem isNonNull_of_resolveField {registry : Registry σ ν} {object : String} {field : Field σ ν}
    {parent : ν} {arguments : Entries Value} {s s' : σ}
    (h : resolveField registry object field parent arguments s = (.ok none, s')) :
    field.type.isNonNull = false := by
  unfold resolveField at h
  split at h
  · cases h
  · split at h
    · cases h
    · have hfits := (Registry.fits_of_complete (congrArg Prod.fst h)).1
      cases htype : field.type with
      | nonNull inner =>
        rw [htype] at hfits
        exact absurd rfl hfits.1
      | _ => rfl

theorem traceAt_suits (hinside : InsideTyped scope inside) {object : String} {field : Field σ ν}
    (hdeclared : scope.registry.field? object field.name = some field) (head : FieldHead)
    (parent : ν) (s : σ) :
    let m := (traceAt scope inside object field head parent s).1
    m.2.Suits scope.registry m.1.type ∧ m.2.IsTyped scope.registry := by
  unfold traceAt
  split
  · unfold traceWith
    rw [resolveDeclared_eq hdeclared]
    split
    · exact ⟨Trace.suits_failure _ _, Trace.isTyped_failure _⟩
    · rename_i heq
      exact ⟨Trace.suits_null_iff.2 (isNonNull_of_resolveField heq), Trace.isTyped_null⟩
    · rename_i heq
      obtain ⟨hsuits, htyped, -⟩ := traceValue_suits hinside (fits_of_resolveField heq) _
      exact ⟨hsuits, htyped⟩
  · exact ⟨Trace.suits_failure _ _, Trace.isTyped_failure _⟩

theorem sustains_typed (scope : Scope σ ν) :
    scope.Sustains (fun o => scope.registry.object? o.name = some o) fun _ m =>
      m.2.Suits scope.registry m.1.type ∧ m.2.IsTyped scope.registry where
  typeName _ _ := ⟨⟨nofun, rfl, .inl rfl⟩, Trace.isTyped_leaf _⟩
  field _ ho _ _ hf _ hinside head parent s :=
    traceAt_suits hinside (Registry.field?_of_object ho hf) head parent s

/-- All that a run comes to is of the declared types. -/
theorem isTyped_trace {object : ObjectType σ ν}
    (hobject : scope.registry.object? object.name = some object) (plans : List Plan) (s : σ) :
    (trace scope object plans s).IsTyped scope.registry :=
  Trace.isTyped_object (forall_traceAll (sustains_typed scope) hobject scope.root plans s)

end

namespace Trace

variable {r : Registry σ ν}

/-! ## Which positions are null -/

/-- A child has its own result, or an error inside it has left null. -/
theorem settle_of_settleChild {path : Path} {c : Step × Trace} {u : Value}
    (h : (settleChild path c).outcome = .ok u) :
    (∃ path', (c.2.settle path').outcome = .ok u) ∨ c.1.catches ∧ c.2.fails ∧ u = .null := by
  unfold settleChild at h
  split at h
  · rename_i hposition
    have hok := isOk_settle (path ++ [c.1.segment]) c.2
    cases hu : (c.2.settle (path ++ [c.1.segment])).outcome with
    | ok value =>
      rw [Settled.position_of_ok hu, hu] at h
      exact .inl ⟨_, hu.trans h⟩
    | error e =>
      rw [Settled.position_of_error hu] at h
      rw [hu] at hok
      dsimp only at h
      split at h
      · cases h
      · rename_i hnull
        obtain rfl := Except.ok.inj h
        have hfails : c.2.fails = true := by
          cases hfails : c.2.fails with
          | true => rfl
          | false => rw [hfails] at hok; cases hok
        exact .inr ⟨by simp [Step.catches, hposition, hnull], hfails, rfl⟩
  · exact .inl ⟨_, h⟩

theorem eq_null_of_settle {t : Trace} {path : Path} (h : (t.settle path).outcome = .ok .null) :
    t = null ∨ t = leaf .null := by
  cases t with
  | null => exact .inl rfl
  | leaf x => exact .inr (congrArg leaf (Except.ok.inj h))
  | failure cause => cases h
  | list item items =>
    obtain ⟨values, -, hlist⟩ := map_eq_ok_iff.1 h
    cases hlist
  | object members =>
    obtain ⟨results, -, hobject⟩ := map_eq_ok_iff.1 h
    cases hobject

/-- Whether something in a trace declares the place of a path as one that can be null, or the path
goes into a leaf with parts. -/
def Allows (t : Trace) (path : Path) : Prop :=
  (∃ v ∈ t.visits, v.route = path ∧ ∃ type, v.type? = some type ∧ type.isNonNull = false) ∨
    ∃ v ∈ t.visits, ∃ x, v.trace = leaf x ∧ x.isAtomic = false ∧ v.route <+: path ∧
      v.route ≠ path

theorem Allows.below {t : Trace} {c : Step × Trace} (hc : c ∈ t.children) {path : Path}
    (h : c.2.Allows path) : t.Allows (c.1.segment :: path) := by
  rcases h with ⟨v, hv, rfl, type, htype, hnull⟩ | ⟨v, hv, x, hx, hatomic, hprefix, hne⟩
  · refine .inl ⟨_, below_mem_visits hc hv, rfl, type, ?_, hnull⟩
    rw [Visit.type?_below, htype]
    rfl
  · refine .inr ⟨_, below_mem_visits hc hv, x, hx, hatomic, ?_, ?_⟩
    · exact List.cons_prefix_cons.2 ⟨rfl, hprefix⟩
    · exact fun heq => hne (List.cons.inj heq).2

/-- A child that can be null, where its result stands. -/
theorem allows_of_child {t : Trace} {c : Step × Trace} (hc : c ∈ t.children)
    (hnull : c.1.type.isNonNull = false) : t.Allows [c.1.segment] :=
  .inl ⟨_, below_mem_visits hc (root_mem_visits c.2), rfl, _, Visit.type?_below _ _, hnull⟩

/-- Every null of the data below the root is allowed. -/
theorem allows_of_reaches {t : Trace} (ht : t.IsTyped r) {at' path : Path} {value : Value}
    (hvalue : (t.settle at').outcome = .ok value) (h : value.Reaches path .null)
    (hpath : path ≠ []) : t.Allows path := by
  induction path generalizing t at' value with
  | nil => exact absurd rfl hpath
  | cons segment rest ih =>
    by_cases hleaf : ∃ x, t = leaf x
    · -- the null is a part of a leaf
      obtain ⟨x, rfl⟩ := hleaf
      obtain rfl := Except.ok.inj hvalue
      have hatomic : x.isAtomic = false := by
        cases hatomic : x.isAtomic with
        | false => rfl
        | true => exact absurd h (Value.not_reaches_of_isAtomic hatomic)
      exact .inr ⟨_, root_mem_visits _, x, rfl, hatomic, List.nil_prefix, nofun⟩
    · obtain ⟨c, hc, rfl, u, hu, hrest⟩ :=
        exists_child_of_reaches (fun x hx => hleaf ⟨x, hx⟩) hvalue h
      obtain ⟨hsuits, htyped⟩ := ht.child hc
      rcases settle_of_settleChild hu with ⟨at'', hu⟩ | ⟨hcatches, -, rfl⟩
      · by_cases hnil : rest = []
        · subst hnil
          cases hrest with
          | here =>
            rcases eq_null_of_settle hu with hc' | hc'
            · exact allows_of_child hc (suits_null_iff.1 (hc' ▸ hsuits))
            · cases isNull_of_suits (hc' ▸ hsuits)
        · exact (ih htyped hu hrest hnil).below hc
      · -- an error inside the child has left null
        cases rest with
        | nil =>
          rw [Step.catches, Bool.and_eq_true, Bool.not_eq_true'] at hcatches
          exact allows_of_child hc hcatches.2
        | cons segment rest => exact absurd hrest (Value.not_reaches_of_isAtomic rfl)

/-- Whether the results at one place in the data are all of one declared type. -/
def IsUniform (t : Trace) : Prop :=
  ∀ v ∈ t.visits, ∀ w ∈ t.visits, v.route = w.route → v.type? = w.type?

instance (t : Trace) : Decidable t.IsUniform :=
  inferInstanceAs (Decidable (∀ v ∈ t.visits, ∀ w ∈ t.visits, _ → _))

theorem exists_of_mem_children {t : Trace} {c : Step × Trace} (hc : c ∈ t.children) :
    (∃ item items, t = list item items) ∨ ∃ members, t = object members := by
  cases t with
  | list item items => exact .inl ⟨item, items, rfl⟩
  | object members => exact .inr ⟨members, rfl⟩
  | _ => cases hc

/-- If each place has one declared type, then none that is not null is allowed to be null. -/
theorem not_allows_of_isUniform {t : Trace} (ht : t.IsTyped r) (huniform : t.IsUniform)
    {v : Visit} (hv : v ∈ t.visits) {type : TypeRef} (htype : v.type? = some type)
    (hnull : type.isNonNull) : ¬ t.Allows v.route := by
  rintro (⟨w, hw, hroute, type', htype', hnull'⟩ | ⟨w, hw, x, hx, hatomic, ⟨more, hmore⟩, hne⟩)
  · have heq := huniform w hw v hv hroute
    rw [htype, htype'] at heq
    rw [Option.some.inj heq, hnull] at hnull'
    cases hnull'
  · -- what the run came to on the way to `v`, where `w` came to a leaf
    obtain ⟨place, further, hplace, hroute, hfurther⟩ := List.map_eq_append_iff.1 hmore.symm
    obtain ⟨u, hu, hbelow⟩ := exists_visit_of_append hv hplace
    have hchild : ∃ c, c ∈ u.children := by
      cases further with
      | nil =>
        rw [← hfurther, List.map_nil, List.append_nil] at hmore
        exact absurd hmore hne
      | cons step rest =>
        obtain ⟨t', hc, -⟩ := exists_child_of_mem_visits hbelow rfl
        exact ⟨_, hc⟩
    obtain ⟨c, hc⟩ := hchild
    have heq := huniform _ hu w hw hroute
    cases hw' : w.type? with
    | none =>
      have hroot := eq_root_of_type?_eq_none hu (heq.trans hw')
      obtain rfl := congrArg Visit.trace hroot
      rw [eq_root_of_type?_eq_none hw hw'] at hx
      obtain rfl : u = leaf x := hx
      cases hc
    | some type' =>
      have hleaf := ht w hw type' hw'
      rw [hx] at hleaf
      have hsuits := ht _ hu type' (heq.trans hw')
      rcases exists_of_mem_children hc with ⟨item, items, rfl⟩ | ⟨members, rfl⟩
      · exact (not_suits_of_leaf hleaf hatomic).1 item items hsuits
      · exact (not_suits_of_leaf hleaf hatomic).2 members hsuits

end Trace

end Execution

namespace Schema

variable [Node ν] {schema : Schema σ ν} {request : Request} {selected : Selected σ (Subject ν)}

/-- A null in the data of a response stands where something that was selected declares a type that
can be null, or inside a leaf.  So no position of a type that cannot be null is null, if the results
at one place are all of one declared type. -/
theorem allows_of_null (h : schema.select request = .ok selected) (s : σ) :
    let data := (schema.respond request s).1.data
    let trace := schema.trace request selected s
    (∀ path, path ≠ [] → data.at? path = some .null → trace.Allows path) ∧
      (trace.IsUniform → ∀ v ∈ trace.visits, ∀ type, v.type? = some type → type.isNonNull →
        data.at? v.route ≠ some .null) := by
  intro data trace
  have htyped : trace.IsTyped schema.executable :=
    Execution.isTyped_trace (object?_root_of_select h) selected.plans s
  have hallows (path : Path) (hpath : path ≠ []) (hnull : data.at? path = some .null) :
      trace.Allows path := by
    have hdata : data = ((trace.settle []).response).data := by
      show (schema.respond request s).1.data = _
      rw [respond_eq_response h]
    cases hvalue : (trace.settle []).outcome with
    | ok value =>
      rw [hdata, Execution.Settled.response, hvalue] at hnull
      exact Execution.Trace.allows_of_reaches htyped hvalue (Value.reaches_of_at? hnull) hpath
    | error e =>
      rw [hdata, Execution.Settled.response, hvalue] at hnull
      cases path with
      | nil => exact absurd rfl hpath
      | cons segment rest => cases hnull
  refine ⟨hallows, fun huniform v hv type htype hnonNull hnull => ?_⟩
  refine Execution.Trace.not_allows_of_isUniform htyped huniform hv htype hnonNull
    (hallows v.route (fun hroute => ?_) hnull)
  rw [Execution.Visit.type?, List.map_eq_nil_iff.1 hroute] at htype
  cases htype

end Schema

namespace Bookshop

/-- A query for books, where the selections of one book are merged. -/
def mergedQuery : Request where
  query := "\x7b owner motto best \x7b title \x7d best \x7b blurb \x7d \x7d"

theorem allows_of_null_motto :
    ∃ selected, schema.select mergedQuery = .ok selected ∧
      let data := (schema.respond mergedQuery ()).1.data
      let trace := schema.trace mergedQuery selected ()
      data.at? [.key "motto"] = some .null ∧ trace.Allows [.key "motto"] ∧ trace.IsUniform ∧
        ∀ v ∈ trace.visits, ∀ type, v.type? = some type → type.isNonNull →
          data.at? v.route ≠ some .null := by
  have hselects : schema.selects mergedQuery fun selected =>
      (schema.trace mergedQuery selected ()).IsUniform := by
    decide +kernel
  have hnull : (schema.respond mergedQuery ()).1.data.at? [.key "motto"] = some .null :=
    Value.at?_eq_null (by decide +kernel)
  obtain ⟨selected, hselect, huniform⟩ := Schema.exists_of_selects hselects
  obtain ⟨hallows, hpositions⟩ := Schema.allows_of_null hselect ()
  have huniform := of_decide_eq_true huniform
  exact ⟨selected, hselect, hnull, hallows _ nofun hnull, huniform, hpositions huniform⟩

/-- A query with two fields under one key, the second of them in a fragment. -/
def sharedKeyQuery : Request where
  query := "\x7b k: motto ... on Shop \x7b k: owner \x7d \x7d"

/-- The place of a field that cannot be null is null, as another field comes first there. -/
theorem null_for_owner :
    ∃ selected, schema.select sharedKeyQuery = .ok selected ∧
      let data := (schema.respond sharedKeyQuery ()).1.data
      let trace := schema.trace sharedKeyQuery selected ()
      ∃ v ∈ trace.visits, ∃ type, v.type? = some type ∧ type.isNonNull ∧
        data.at? v.route = some .null := by
  have hselects : schema.selects sharedKeyQuery fun selected =>
      (schema.trace sharedKeyQuery selected ()).visits.any fun v =>
        v.type?.any TypeRef.isNonNull && v.route = [.key "k"] := by
    decide +kernel
  have hnull : (schema.respond sharedKeyQuery ()).1.data.at? [.key "k"] = some .null :=
    Value.at?_eq_null (by decide +kernel)
  obtain ⟨selected, hselect, hany⟩ := Schema.exists_of_selects hselects
  obtain ⟨v, hv, hcheck⟩ := List.any_eq_true.1 hany
  rw [Bool.and_eq_true, decide_eq_true_iff, Option.any_eq_true] at hcheck
  obtain ⟨⟨type, htype, hnonNull⟩, hroute⟩ := hcheck
  exact ⟨selected, hselect, v, hv, type, htype, hnonNull, hroute ▸ hnull⟩

end Bookshop

end Gazette
