import Gazette.Proofs.Request.Failures
import Gazette.Proofs.Request.Paths
import Gazette.Proofs.Request.Results

/-!
# Nulls among the items of a list

A null item of a list of scalars is null in the data at its index; nothing runs for it, and no error
is reported at its place.  A null item for an object is taken for the root value, on which the
selections of the list run (`Bookshop.not_null_copy`), and a null item for anything else is an
error at its place.  `results_of_nullItems` says so for every field of a list type whose items can
be null.
-/

namespace Gazette

variable {σ ν : Type}

/-! ## Completion -/

namespace Registry

variable [Node ν] {r : Registry σ ν} {item : TypeRef}

/-- Null items do not keep a list from being completed, and stay null. -/
theorem exists_complete_list (hitem : item.isNonNull = false) {items : List (FieldValue ν)}
    (hcomplete : ∀ v ∈ items, v.isNull = false → ∃ c, r.complete item v = .ok c) :
    ∃ completed, r.complete (.list item) (.list items) = .ok (some (.list completed)) ∧
      List.Forall₂ (fun v c => v.isNull → c = .null) items completed := by
  have heach : ∀ v ∈ items, ∃ c,
      ((r.complete item v).map fun c => c.getD .null) = .ok c ∧ True := by
    intro v hv
    obtain ⟨c, hc⟩ : ∃ c, r.complete item v = .ok c := by
      cases hnull : v.isNull with
      | true => exact ⟨none, complete_of_isNull hitem hnull⟩
      | false => exact hcomplete v hv hnull
    exact ⟨c.getD .null, by rw [hc]; rfl, trivial⟩
  obtain ⟨completed, hcompleted, -⟩ := exists_mapM_eq_ok heach
  refine ⟨completed, by rw [complete_list, hcompleted]; rfl, ?_⟩
  refine (mapM_eq_ok_iff.1 hcompleted).imp fun v c hc hnull => ?_
  rw [complete_of_isNull hitem hnull] at hc
  exact (Except.ok.inj hc).symm

end Registry

namespace Execution

/-! ## Lists whose items can be null -/

section

variable {α : Type} {item : TypeRef}

/-- No item ends the run of such a list. -/
theorem traceEach_cons (hitem : item.isNonNull = false) (one : α → σ → Trace × σ) (a : α)
    (rest : List α) (s : σ) : traceEach item one (a :: rest) s =
      ((one a s).1 :: (traceEach item one rest (one a s).2).1,
        (traceEach item one rest (one a s).2).2) := by
  rw [traceEach, hitem]
  rfl

theorem length_traceEach (hitem : item.isNonNull = false) (one : α → σ → Trace × σ) (as : List α)
    (s : σ) : (traceEach item one as s).1.length = as.length := by
  induction as generalizing s with
  | nil => rfl
  | cons a rest ih => rw [traceEach_cons hitem, List.length_cons, ih, List.length_cons]

/-- Each item runs in the state that the items before it leave. -/
theorem getElem?_traceEach (hitem : item.isNonNull = false) (one : α → σ → Trace × σ) (as : List α)
    (s : σ) (i : Nat) : (traceEach item one as s).1[i]? =
      as[i]?.map fun a => (one a (traceEach item one (as.take i) s).2).1 := by
  induction as generalizing s i with
  | nil => rfl
  | cons a rest ih =>
    rw [traceEach_cons hitem]
    cases i with
    | zero => rfl
    | succ i =>
      rw [List.getElem?_cons_succ, List.getElem?_cons_succ, List.take_succ_cons,
        traceEach_cons hitem, ih]

namespace Trace

/-- What an item of a list comes to at its place. -/
def settleItem (path : Path) (item : TypeRef) (i : Nat) (t : Trace) : Settled Value :=
  (t.settle (path ++ [.index i])).position item (path ++ [.index i])

theorem exists_settleItem (hitem : item.isNonNull = false) (path : Path) (i : Nat) (t : Trace) :
    ∃ value, (settleItem path item i t).outcome = .ok value := by
  have hok := isOk_position_settle (isOk_settle (path ++ [.index i]) t) item
  rw [hitem] at hok
  exact Settled.exists_ok hok

theorem settleItems_cons (hitem : item.isNonNull = false) (path : Path) (i : Nat) (t : Trace)
    (rest : List Trace) : ∃ value, (settleItem path item i t).outcome = .ok value ∧
      settleItems path item i (t :: rest) =
        ⟨((settleItems path item (i + 1) rest).map (value :: ·)).outcome,
          (settleItem path item i t).caught ++ (settleItems path item (i + 1) rest).caught⟩ := by
  obtain ⟨value, hvalue⟩ := exists_settleItem hitem path i t
  refine ⟨value, hvalue, ?_⟩
  rw [settleItems]
  exact Settled.andThen_of_ok hvalue _

theorem liesAt_of_mem_settleItems (hitem : item.isNonNull = false) {path : Path} {i : Nat}
    {items : List Trace} {e : ResponseError} (he : e ∈ (settleItems path item i items).caught) :
    ∃ j, i ≤ j ∧ e.liesAt (path ++ [.index j]) := by
  induction items generalizing i with
  | nil => rw [settleItems] at he; cases he
  | cons t rest ih =>
    obtain ⟨value, -, heq⟩ := settleItems_cons hitem path i t rest
    rw [heq] at he
    rcases List.mem_append.1 he with he | he
    · exact ⟨i, Nat.le_refl i, ((lies_settle _ t).position item).caught e he⟩
    · obtain ⟨j, hj, hlies⟩ := ih he
      exact ⟨j, by omega, hlies⟩

/-- A list of such items has the result of each of them at its index, and what is reported at the
place of an item comes from the item. -/
theorem exists_settleItems (hitem : item.isNonNull = false) (path : Path) (i : Nat)
    (items : List Trace) : ∃ values, (settleItems path item i items).outcome = .ok values ∧
      values.length = items.length ∧ ∀ j t, items[j]? = some t → ∃ value,
        (settleItem path item (i + j) t).outcome = .ok value ∧ values[j]? = some value ∧
        (settleItems path item i items).caught.filter (·.liesAt (path ++ [.index (i + j)])) =
          (settleItem path item (i + j) t).caught := by
  induction items generalizing i with
  | nil => exact ⟨[], by rw [settleItems]; rfl, rfl, by simp⟩
  | cons t rest ih =>
    obtain ⟨value, hvalue, heq⟩ := settleItems_cons hitem path i t rest
    obtain ⟨values, hvalues, hlength, hall⟩ := ih (i + 1)
    have hown : ∀ e ∈ (settleItem path item i t).caught, e.liesAt (path ++ [.index i]) :=
      ((lies_settle _ t).position item).caught
    rw [heq]
    refine ⟨value :: values, by rw [Settled.map, hvalues]; rfl, by simp [hlength], fun j u hu => ?_⟩
    rw [List.filter_append]
    cases j with
    | zero =>
      obtain rfl := Option.some.inj hu
      refine ⟨value, hvalue, rfl, ?_⟩
      -- what the items behind report is at other indices
      have hrest : (settleItems path item (i + 1) rest).caught.filter
          (·.liesAt (path ++ [.index i])) = [] := by
        refine List.filter_eq_nil_iff.2 fun e he => ?_
        obtain ⟨j, hj, hlies⟩ := liesAt_of_mem_settleItems hitem he
        have hne : j ≠ i := by omega
        simp [ResponseError.not_liesAt_of_ne hne hlies]
      rw [Nat.add_zero, List.filter_eq_self.2 hown, hrest, List.append_nil]
    | succ j =>
      obtain ⟨value', hvalue', hget, hfilter⟩ := hall j u hu
      have hindex : i + 1 + j = i + (j + 1) := by omega
      rw [hindex] at hvalue' hfilter
      have hnone : (settleItem path item i t).caught.filter
          (·.liesAt (path ++ [.index (i + (j + 1))])) = [] := by
        refine List.filter_eq_nil_iff.2 fun e he => ?_
        have hne : i ≠ i + (j + 1) := by omega
        simp [ResponseError.not_liesAt_of_ne hne (hown e he)]
      exact ⟨value', hvalue', hget, by rw [hnone, hfilter, List.nil_append]⟩

end Trace

end

/-! ## Fields -/

/-- Whether the items of a list are scalars. -/
def Scope.areScalars (scope : Scope σ ν) (item : TypeRef) : Bool :=
  match item with
  | .named name =>
    match scope.registry.find? name with
    | some (.scalar _) => true
    | _ => false
  | _ => false

section

variable {scope : Scope σ ν} {item : TypeRef}

theorem traceValue_null_of_areScalars (h : scope.areScalars item) (inside : TraceInside σ ν)
    (s : σ) : traceValue scope inside item .null s = (.null, s) := by
  unfold Scope.areScalars at h
  split at h
  · split at h
    · rename_i hfind
      simp only [traceValue, traceNamed, hfind]
    · cases h
  · cases h

theorem traceValue_null_of_object {name : String} {o : ObjectType σ ν}
    (hfind : scope.registry.find? name = some (.object o)) (inside : TraceInside σ ν) (s : σ) :
    traceValue scope inside (.named name) .null s = inside o scope.root s := by
  simp only [traceValue, traceNamed, hfind]

/-- A null is refused where it is neither a leaf nor taken for the root value. -/
theorem exists_traceValue_null (hitem : item.isNonNull = false)
    (hscalar : scope.areScalars item = false)
    (hobject : ∀ name o, item = .named name → scope.registry.find? name ≠ some (.object o)) :
    ∃ issue, ∀ (inside : TraceInside σ ν) (s : σ),
      traceValue scope inside item .null s = (.failure (.request issue), s) := by
  cases item with
  | nonNull inner => cases hitem
  | list inner => exact ⟨_, fun inside s => rfl⟩
  | named name =>
    refine ⟨.nullItem name, fun inside s => ?_⟩
    cases hfind : scope.registry.find? name with
    | none => simp only [traceValue, traceNamed, hfind]
    | some t =>
      cases t with
      | scalar t => simp [Scope.areScalars, hfind] at hscalar
      | object o => exact absurd hfind (hobject name o rfl)
      | enum e => simp only [traceValue, traceNamed, hfind]
      | interface i => simp only [traceValue, traceNamed, hfind]

end

variable [Node ν] {scope : Scope σ ν} {object : ObjectType σ ν} {field : Field σ ν}
  {head : FieldHead} {item : TypeRef} {parent : ν} {bound : BoundArguments}
  {items : List (FieldValue ν)} {s s' : σ}

/-- A field whose resolver gives a list comes to the traces of its items. -/
theorem traceOne_of_list (hname : head.name ≠ Plan.typeNameField)
    (hobject : scope.registry.object? object.name = some object)
    (hfield : object.field? head.name = some field) (hrole : field.role = .ordinary)
    (htype : field.type = .list item ∨ field.type = .nonNull (.list item))
    (hbound : scope.boundArguments? field head.arguments = some bound)
    (hresult : fieldResult object.name field parent bound s = (.ok (.list items), s'))
    {completed : List (Completed ν)}
    (hcomplete : scope.registry.complete (.list item) (.list items) =
      .ok (some (.list completed))) (plans : List Plan) :
    let inside : TraceInside σ ν := fun o v s =>
      (.object (traceAll scope o v plans s).1, (traceAll scope o v plans s).2)
    let traces := traceEach item (traceValue scope inside item) completed s'
    traceOne scope object parent (.field head plans) s =
      ([(⟨head.key, field.type, true⟩, .list item traces.1)], traces.2) := by
  intro inside traces
  obtain ⟨values, hwritten, hbind⟩ := Scope.boundArguments?_eq_some_iff.1 hbound
  have hresolve : resolveDeclared scope.registry object.name field.name parent
      (withDefaults field.arguments values) s = (.ok (some (.list completed)), s') := by
    rw [resolveDeclared_eq (Registry.field?_of_object hobject hfield),
      resolveField_of_bind hbind hresult]
    rcases htype with htype | htype
    · rw [htype, hcomplete]
    · rw [htype, Registry.complete, if_neg (by simp [FieldValue.isNull]), hcomplete]
  have hvalue : traceValue scope inside field.type (.list completed) s' =
      (.list item traces.1, traces.2) := by
    rcases htype with htype | htype <;> rw [htype] <;> rfl
  rw [traceOne, if_neg hname, hfield]
  dsimp only
  rw [traceAt, hwritten]
  dsimp only
  rw [traceWith, hresolve]
  dsimp only
  rw [hvalue, hrole]
  rfl

/-- What becomes of the nulls in a list whose items can be null.  Among scalars each of them is null
at its index, nothing runs for it and nothing is reported at its place.  For an object the
selections run on the root value, and anything else is null with an error at its place. -/
theorem results_of_nullItems (hname : head.name ≠ Plan.typeNameField)
    (hobject : scope.registry.object? object.name = some object)
    (hfield : object.field? head.name = some field) (hrole : field.role = .ordinary)
    (htype : field.type = .list item ∨ field.type = .nonNull (.list item))
    (hitem : item.isNonNull = false)
    (hbound : scope.boundArguments? field head.arguments = some bound)
    (hresult : fieldResult object.name field parent bound s = (.ok (.list items), s'))
    (hcomplete : ∀ v ∈ items, v.isNull = false → ∃ c, scope.registry.complete item v = .ok c)
    (plans : List Plan) (path : Path) :
    ∃ traces values caught s'',
      traceOne scope object parent (.field head plans) s =
        ([(⟨head.key, field.type, true⟩, .list item traces)], s'') ∧
      (∀ recorded, executeOne scope object parent path (.field head plans) ⟨s, recorded⟩ =
        (.ok [(head.key, .list values)], ⟨s'', recorded ++ caught⟩)) ∧
      values.length = items.length ∧
      ∀ i v, items[i]? = some v → v.isNull →
        let place := path ++ [.key head.key, .index i]
        let reported := caught.filter (·.liesAt place)
        (scope.areScalars item → traces[i]? = some .null ∧ values[i]? = some .null ∧
          reported = []) ∧
        (∀ name o, item = .named name → scope.registry.find? name = some (.object o) →
          ∃ before value, let t := Trace.object (traceAll scope o scope.root plans before).1
            traces[i]? = some t ∧ values[i]? = some value ∧
              (t.settle place).position item place = ⟨.ok value, reported⟩) ∧
        (scope.areScalars item = false →
          (∀ name o, item = .named name → scope.registry.find? name ≠ some (.object o)) →
          ∃ issue, traces[i]? = some (.failure (.request issue)) ∧ values[i]? = some .null ∧
            reported = [⟨.request issue, some place⟩]) := by
  obtain ⟨completed, hlist, hnulls⟩ := Registry.exists_complete_list hitem hcomplete
  have htrace := traceOne_of_list hname hobject hfield hrole htype hbound hresult hlist plans
  extract_lets inside traces at htrace
  have hget := getElem?_traceEach hitem (traceValue scope inside item) completed s'
  obtain ⟨values, hvalues, hlength, hitems⟩ :=
    Trace.exists_settleItems hitem (path ++ [.key head.key]) 0 traces.1
  -- the field is a position, and no error leaves its list
  have hsettle : Trace.settleMembers path [(⟨head.key, field.type, true⟩, .list item traces.1)] =
      ⟨.ok [(head.key, .list values)],
        (Trace.settleItems (path ++ [.key head.key]) item 0 traces.1).caught⟩ := by
    have hsettled : (Trace.settle (path ++ [.key head.key]) (.list item traces.1)) =
        ⟨.ok (.list values),
          (Trace.settleItems (path ++ [.key head.key]) item 0 traces.1).caught⟩ := by
      rw [Trace.settle, Settled.map, hvalues]
      rfl
    rw [Trace.settleMembers_singleton, Trace.settleMember, if_pos rfl, hsettled]
    rfl
  have hrun := executeOne_comes scope object parent path (.field head plans) s
  rw [htrace, hsettle] at hrun
  refine ⟨traces.1, values, _, traces.2, htrace, hrun, ?_, fun i v hv hnull => ?_⟩
  · rw [hlength, length_traceEach hitem, hnulls.length_eq]
  intro place reported
  obtain ⟨c, hc, hcnull⟩ := exists_of_getElem?_right hnulls.flip hv
  obtain rfl := hcnull hnull
  have ht := hget i
  rw [hc, Option.map_some] at ht
  obtain ⟨value, houtcome, hvalue, hreported⟩ := hitems i _ ht
  have hplace : path ++ [.key head.key] ++ [.index (0 + i)] = place := by
    rw [Nat.zero_add, List.append_assoc]
    rfl
  rw [hplace] at hreported
  rw [Trace.settleItem, hplace] at houtcome hreported
  refine ⟨fun hscalar => ?_, fun name o hnamed hfind => ?_, fun hscalar hobject => ?_⟩
  · rw [traceValue_null_of_areScalars hscalar] at ht houtcome hreported
    obtain rfl := Except.ok.inj houtcome
    exact ⟨ht, hvalue, hreported⟩
  · rw [hnamed, traceValue_null_of_object hfind, ← hnamed] at ht houtcome hreported
    refine ⟨_, value, ht, hvalue, ?_⟩
    rw [← houtcome, show reported = _ from hreported]
  · obtain ⟨issue, hissue⟩ := exists_traceValue_null hitem hscalar hobject
    rw [hissue] at ht houtcome hreported
    rw [Trace.settle, Settled.position_of_error rfl, hitem] at houtcome hreported
    obtain rfl := Except.ok.inj houtcome
    exact ⟨issue, ht, hvalue, hreported⟩

end Execution

namespace Bookshop

/-! ## A list with a null -/

/-- Tags for books, one of which is missing. -/
def tags : Field Unit Thing := constant "tags" (.namedList builtin.string)
  (.list [.string "new", .null, .leaf .null])

/-- Copies of a book, one of which is missing. -/
def copies : Field Unit Thing := constant "copies" (.namedList "Book")
  (.list [.node (.book "Emma"), .null])

/-- The root of a shop that shows a stack of copies. -/
def stack : ObjectType Unit Thing where
  name := "Stack"
  fields := [tags, copies]

/-- A stack of books that lies on a book. -/
def stackSchema : Schema Unit Thing where
  registry := ⟨Registry.builtinScalars.map .scalar ++ [.object book, .object stack], "Stack", none⟩
  root := .book "Persuasion"
  depthLimit := Schema.defaultDepthLimit

/-- The selection of the tags. -/
def tagsHead : FieldHead := ⟨none, "tags", [], [], 0⟩

theorem results_of_nullItems_tags :
    let scope : Execution.Scope Unit Thing :=
      ⟨stackSchema.registry, stackSchema.root, [], fun _ => none, []⟩
    ∃ traces values caught,
      Execution.traceOne scope stack stackSchema.root (.field tagsHead []) () =
        ([(⟨"tags", .namedList builtin.string, true⟩, .list (.named builtin.string) traces)], ()) ∧
      Execution.executeOne scope stack stackSchema.root [] (.field tagsHead []) ⟨(), []⟩ =
        (.ok [("tags", .list values)], ⟨(), caught⟩) ∧
      values.length = 3 ∧ ∀ i, i = 1 ∨ i = 2 →
        traces[i]? = some .null ∧ values[i]? = some .null ∧
          caught.filter (·.liesAt [.key "tags", .index i]) = [] := by
  intro scope
  have hobject : scope.registry.object? stack.name = some stack := rfl
  have hfield : stack.field? tagsHead.name = some tags := rfl
  have hbound : scope.boundArguments? tags tagsHead.arguments = some (.empty "tags") := rfl
  have hresult : Execution.fieldResult stack.name tags stackSchema.root (.empty "tags") () =
      (.ok (.list [.string "new", .null, .leaf .null]), ()) := rfl
  have hitems : ∀ v ∈ [FieldValue.string "new", .null, .leaf .null], v.isNull = false →
      ∃ c, scope.registry.complete (.named builtin.string) v = .ok c := by
    intro v hv hnull
    rcases List.mem_cons.1 hv with rfl | hv
    · exact ⟨_, rfl⟩
    · simp only [List.mem_cons, List.not_mem_nil, or_false] at hv
      rcases hv with rfl | rfl <;> cases hnull
  obtain ⟨traces, values, caught, _, htrace, hrun, hlength, hnulls⟩ :=
    Execution.results_of_nullItems (by decide) hobject hfield rfl (.inl rfl) rfl hbound hresult
      hitems [] []
  refine ⟨traces, values, caught, htrace, hrun [], hlength, fun i hi => ?_⟩
  obtain ⟨v, hv, hnull⟩ : ∃ v, [FieldValue.string "new", .null, .leaf .null][i]? = some v ∧
      v.isNull := by
    rcases hi with rfl | rfl <;> exact ⟨_, rfl, rfl⟩
  exact (hnulls i v hv hnull).1 rfl

/-- A query for the titles of all copies. -/
def copiesQuery : Request where
  query := "\x7b copies \x7b title \x7d \x7d"

/-- In place of the missing copy stands a book, with the title of the root value. -/
theorem not_null_copy :
    Execution.fieldResult stack.name copies stackSchema.root (.empty copies.name) () =
        (.ok (.list [.node (.book "Emma"), .null]), ()) ∧
      let data := (stackSchema.respond copiesQuery ()).1.data
      (data.at? [.key "copies", .index 1]).any (fun v => !v.isNull) ∧
      (data.at? [.key "copies", .index 1, .key "title"]).map Value.text =
        some (Value.string "Persuasion").text := by
  refine ⟨rfl, ?_, ?_⟩
  · decide +kernel
  · decide +kernel

end Bookshop

end Gazette
