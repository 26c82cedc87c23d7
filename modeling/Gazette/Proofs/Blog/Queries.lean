import Gazette.Proofs.Blog.Serving

/-!
# Queries of the blog

In every reachable store a query that is accepted gives data without an error and leaves the store
as it is, if its arguments are admissible (`isAdmissible`); and the data conforms to the declared
types if its selections are mergeable (`respond_query`).  Both conditions are needed
(`query_fails_or_deviates`).
-/

namespace Gazette.Blog

/-! ## Queries -/

/-- Whether a request is an accepted query, with values for all variables that cannot be null, and
with integers of 32 bits for `count` and `limit`. -/
structure IsQuery (request : Request) (selected : Schema.Selected Store (Subject BlogNode)) :
    Prop where
  select_eq : Service.schema.select request = .ok selected
  kind_eq : selected.operation.kind = .query
  given : ∀ v ∈ selected.operation.declarations, v.type.isNonNull → (request.given v.name).isSome
  range : ∀ e ∈ Plan.arguments selected.plans, e.1 = "count" ∨ e.1 = "limit" →
    (e.2.eval? (Service.schema.scope request selected.operation).valueOf?).all Value.isWithinInt

/-- Whether a variable in an argument is given, or is all of the argument and falls back to null for
`category` only. -/
def isAdmissible (scope : Execution.Scope Store (Subject BlogNode)) (e : String × Literal) : Bool :=
  scope.isWhole e.2 && (!scope.fallsBackToNull e.2 || e.1 = "category")

variable {request : Request} {selected : Schema.Selected Store (Subject BlogNode)}

/-- Of all arguments, those named `category` can be null, and only `count` and `limit` are
integers. -/
theorem IsQuery.admitsNamed (h : IsQuery request selected) {e : String × Literal}
    (he : e ∈ Plan.arguments selected.plans)
    (hadmissible : isAdmissible (Service.schema.scope request selected.operation) e) :
    (Service.schema.scope request selected.operation).AdmitsNamed e := by
  have all : ∀ t ∈ Outline.ofRegistry executable, ∀ f ∈ t.fields, ∀ spec ∈ f.arguments,
      (spec.name = "category" → spec.type.isNonNull = false) ∧
        (spec.type.baseName = builtin.int → spec.name = "count" ∨ spec.name = "limit") := by
    decide +kernel
  intro o ho f hf spec hspec hname
  obtain ⟨hnullable, hrange⟩ := all _ (List.mem_map.2 ⟨_, object?_name_eq_some_iff.1 ho, rfl⟩) _
    (List.mem_map.2 ⟨f, hf, rfl⟩) spec hspec
  rw [isAdmissible, Bool.and_eq_true, Bool.or_eq_true, decide_eq_true_iff] at hadmissible
  refine ⟨hadmissible.1, fun hnull => hnullable (hname.trans ?_), fun hint => ?_⟩
  · exact hadmissible.2.resolve_left (by simp [hnull])
  · exact h.range e he (hname ▸ hrange hint)

/-- In every reachable store whose posts have dates that are finite as numbers, a query with
admissible arguments gives data without any error and leaves the store as it is.  If its selections
are mergeable, the data has the declared type at every selected position. -/
theorem respond_query {s : Store} (hs : s.IsReachable)
    (hfinite : ∀ p ∈ s.posts, p.timestamp.isFinite)
    (h : IsQuery request selected) (hadmissible : ∀ e ∈ Plan.arguments selected.plans,
      isAdmissible (Service.schema.scope request selected.operation) e) :
    ∃ members, Service.schema.respond request s = (⟨.object members, []⟩, s) ∧
      ((Service.schema.scope request selected.operation).Mergeable selected.root selected.plans →
        executable.Conforms (.namedNonNull queryType) selected.plans (.object members)) := by
  have hroot := Schema.rootOf?_of_select h.select_eq
  rw [h.kind_eq] at hroot
  have hobject : executable.object? queryType = some selected.root := hroot
  have hname : selected.root.name = queryType := (Registry.mem_of_object? hobject).2
  have hheld : Holds s selected.root.name (.value .root) := ⟨hname.symm, trivial⟩
  have hrunnable := Schema.runnable_of_select h.select_eq coherent h.given
    fun e he => h.admitsNamed he (hadmissible e he)
  obtain ⟨results, hgives, hshows⟩ := hrunnable.answers (serves (hs.sound.readable hfinite))
    (hname.symm ▸ hobject) hheld
  refine ⟨Value.mergeMembers [] results, ?_, fun hmergeable => ?_⟩
  · rw [Schema.respond_of_select_ok h.select_eq]
    exact Execution.respond_of_gives (hgives [])
  · have hof : (Completed.node (Subject.value BlogNode.root)).IsOf executable queryType
        selected.root (.value .root) := .object (Registry.object?_eq_some_iff.1 hobject) rfl
    exact .nonNull rfl ((hshows hmergeable).renders hof).conforms

/-! ## Some queries -/

/-- Whether a request is a query that passes a further check. -/
def passes (request : Request) (check : Schema.Selected Store (Subject BlogNode) → Bool) : Bool :=
  match Service.schema.select request with
  | .ok selected =>
    decide (selected.operation.kind = .query ∧
      (∀ v ∈ selected.operation.declarations, v.type.isNonNull → (request.given v.name).isSome) ∧
      ∀ e ∈ Plan.arguments selected.plans, e.1 = "count" ∨ e.1 = "limit" →
        (e.2.eval? (Service.schema.scope request selected.operation).valueOf?).all
          Value.isWithinInt) && check selected
  | .error _ => false

theorem exists_isQuery_of_passes {check : Schema.Selected Store (Subject BlogNode) → Bool}
    (h : passes request check) : ∃ selected, IsQuery request selected ∧ check selected := by
  unfold passes at h
  cases hselect : Service.schema.select request with
  | error issues => simp [hselect] at h
  | ok selected =>
    rw [hselect, Bool.and_eq_true, decide_eq_true_iff] at h
    obtain ⟨⟨hkind, hgiven, hrange⟩, hcheck⟩ := h
    exact ⟨selected, ⟨hselect, hkind, hgiven, hrange⟩, hcheck⟩

/-- Whether arguments are admissible and no key is selected twice, as far as a check can tell. -/
def isPlain (request : Request) (selected : Schema.Selected Store (Subject BlogNode)) : Bool :=
  (Plan.arguments selected.plans).all
      (isAdmissible (Service.schema.scope request selected.operation)) &&
    (Plan.keys selected.plans).Nodup && Plan.hasDistinctKeys selected.plans

theorem exists_isQuery_of_isPlain (h : passes request (isPlain request)) :
    ∃ selected, IsQuery request selected ∧
      (∀ e ∈ Plan.arguments selected.plans,
        isAdmissible (Service.schema.scope request selected.operation) e) ∧
      (Service.schema.scope request selected.operation).Mergeable selected.root selected.plans := by
  obtain ⟨selected, hquery, hcheck⟩ := exists_isQuery_of_passes h
  rw [isPlain, Bool.and_eq_true, Bool.and_eq_true, decide_eq_true_iff, List.all_eq_true] at hcheck
  obtain ⟨⟨hadmissible, hkeys⟩, hdistinct⟩ := hcheck
  exact ⟨selected, hquery, hadmissible,
    Execution.Scope.mergeable_of_hasDistinctKeys hkeys hdistinct _⟩

/-- A query for posts, where the category is a variable that is not given. -/
def postsQuery : Request where
  query :=
    "query($c: Category) \x7b posts(category: $c) \x7b id author \x7b name \x7d \x7d" ++
      " recentPosts(count: 2) \x7b title timestamp \x7d \x7d"

/-- The query gives posts of a new blog, as they are declared. -/
theorem respond_query_new_blog :
    let s := Seed.store (.ofBits 1 2 3 4) .epoch
    ∃ selected members, IsQuery postsQuery selected ∧
      Service.schema.respond postsQuery s = (⟨.object members, []⟩, s) ∧
      executable.Conforms (.namedNonNull queryType) selected.plans (.object members) := by
  intro s
  have hpasses : passes postsQuery (isPlain postsQuery) := by decide +kernel
  obtain ⟨selected, hquery, hadmissible, hmergeable⟩ := exists_isQuery_of_isPlain hpasses
  have hreachable : s.IsReachable := ⟨s, [], .seeded _ _, rfl⟩
  have hfinite : ∀ p ∈ s.posts, p.timestamp.isFinite := by
    show ∀ p ∈ Seed.posts .epoch, p.timestamp.isFinite
    decide +kernel
  obtain ⟨members, hrespond, hconforms⟩ := respond_query hreachable hfinite hquery hadmissible
  exact ⟨selected, members, hquery, hrespond, hconforms hmergeable⟩

/-- A query with null as the default of a variable for an argument that cannot be null. -/
def nullDefaultQuery : Request where
  query := "query($v: String = null) \x7b post(id: $v) \x7b id \x7d \x7d"

/-- A query with a variable that is not given inside an argument. -/
def insideObjectQuery : Request where
  query := "query($v: String) \x7b posts(category: \x7ba: $v\x7d) \x7b id \x7d \x7d"

/-- A query with two fields under one key, the second of them in a fragment. -/
def sharedKeyQuery : Request where
  query := "\x7b a: authors \x7b id \x7d ... on BlogSchema \x7b a: __typename \x7d \x7d"

/-- The list under a name in data. -/
def listAt? (name : String) : Value → Option (List Value)
  | .object members =>
    match members.lookup name with
    | some (.list items) => some items
    | _ => none
  | _ => none

theorem exists_of_listAt? {name : String} {data : Value} {items : List Value}
    (h : listAt? name data = some items) :
    ∃ members, data = .object members ∧ members.lookup name = some (.list items) := by
  unfold listAt? at h
  split at h
  · split at h
    · rename_i members _ _ hlookup
      exact ⟨members, rfl, Option.some.inj h ▸ hlookup⟩
    · cases h
  · cases h

theorem not_conforms_of_listAt? {data : Value} {f : FieldPlan}
    {o : ObjectType Store (Subject BlogNode)}
    {plans : List Plan} (ho : executable.object? queryType = some o)
    (hf : f ∈ Plan.fieldsOn o plans)
    (hname : f.head.name = Plan.typeNameField) (hitems : (listAt? f.key data).isSome) :
    ¬ executable.Conforms (.namedNonNull queryType) plans data := by
  have hfind := Registry.object?_eq_some_iff.1 ho
  obtain ⟨items, hitems⟩ := Option.isSome_iff_exists.1 hitems
  obtain ⟨members, rfl, hlookup⟩ := exists_of_listAt? hitems
  intro h
  obtain ⟨-, h⟩ := h
  cases h with
  | leaf h =>
    rw [Registry.HasLeaf, hfind] at h
    exact h.2
  | object hpossible names_nodup mem_names typeName declared value =>
    obtain rfl := hpossible.eq_of_object hfind
    have hstring := typeName f hf hname
    rw [hlookup] at hstring
    cases hstring

/-- Without admissible arguments a query can fail, and without mergeable selections its data can be
of other types. -/
theorem query_fails_or_deviates :
    let s := Store.empty .epoch
    s.IsReachable ∧
      (∃ selected, IsQuery nullDefaultQuery selected ∧
        (Service.schema.respond nullDefaultQuery s).1.errors ≠ []) ∧
      (∃ selected, IsQuery insideObjectQuery selected ∧
        (Service.schema.respond insideObjectQuery s).1.errors ≠ []) ∧
      ∃ selected, IsQuery sharedKeyQuery selected ∧
        ¬ executable.Conforms (.namedNonNull queryType) selected.plans
          (Service.schema.respond sharedKeyQuery s).1.data := by
  intro s
  have hfails (request : Request) (h : passes request fun _ => true)
      (herrors : (Service.schema.respond request s).1.errors.length = 1) :
      ∃ selected, IsQuery request selected ∧ (Service.schema.respond request s).1.errors ≠ [] := by
    obtain ⟨selected, hquery, -⟩ := exists_isQuery_of_passes h
    refine ⟨selected, hquery, fun hnil => ?_⟩
    rw [hnil] at herrors
    cases herrors
  have hshared : passes sharedKeyQuery fun selected =>
      (Plan.fieldsOn selected.root selected.plans).any fun f =>
        f.head.name = Plan.typeNameField && f.key = "a" := by decide +kernel
  have hlist : (listAt? "a" (Service.schema.respond sharedKeyQuery s).1.data).isSome := by
    decide +kernel
  refine ⟨⟨s, [], .empty _, rfl⟩, hfails _ (by decide +kernel) (by decide +kernel),
    hfails _ (by decide +kernel) (by decide +kernel), ?_⟩
  obtain ⟨selected, hquery, hany⟩ := exists_isQuery_of_passes hshared
  obtain ⟨f, hf, hcheck⟩ := List.any_eq_true.1 hany
  rw [Bool.and_eq_true, decide_eq_true_iff, decide_eq_true_iff] at hcheck
  have hroot := Schema.rootOf?_of_select hquery.select_eq
  rw [hquery.kind_eq] at hroot
  exact ⟨selected, hquery, not_conforms_of_listAt? hroot hf hcheck.1 (hcheck.2 ▸ hlist)⟩

end Gazette.Blog
