import Gazette.Proofs.Request.Nulls

/-!
# Where errors leave null

An error goes up to the nearest position that can be null (`Step.nearest`) and leaves null there, or
it leaves no data.  The null is found in the data if the run does not come to a place above it
several times (`Schema.meetsNull_of_error`).  If it does, results under one key are merged, and an
earlier result stays where a later one is null (`Bookshop.not_meetsNull_best`).
-/

namespace Gazette.Execution

namespace Step

/-- The longest part of a way that ends at a position that can be null. -/
def nearest : List Step → Option (List Step)
  | [] => none
  | step :: rest =>
    match nearest rest with
    | some place => some (step :: place)
    | none => if step.catches then some [step] else none

theorem not_catches_of_nearest {place : List Step} (h : nearest place = none) :
    ∀ step ∈ place, step.catches = false := by
  induction place with
  | nil => exact fun step hstep => absurd hstep List.not_mem_nil
  | cons step rest ih =>
    rw [nearest] at h
    split at h
    · cases h
    · rename_i hrest
      intro step' hstep'
      rcases List.mem_cons.1 hstep' with rfl | hstep'
      · simpa using h
      · exact ih hrest step' hstep'

theorem exists_of_nearest {place found : List Step} (h : nearest place = some found) :
    ∃ front step rest, found = front ++ [step] ∧ place = found ++ rest ∧ step.catches ∧
      ∀ step ∈ rest, step.catches = false := by
  induction place generalizing found with
  | nil => cases h
  | cons step rest ih =>
    rw [nearest] at h
    split at h
    · rename_i place hrest
      obtain rfl := Option.some.inj h
      obtain ⟨front, last, more, rfl, rfl, hlast, hmore⟩ := ih hrest
      exact ⟨step :: front, last, more, rfl, rfl, hlast, hmore⟩
    · rename_i hrest
      split at h
      · rename_i hstep
        obtain rfl := Option.some.inj h
        exact ⟨[], step, rest, rfl, rfl, hstep, not_catches_of_nearest hrest⟩
      · cases h

end Step

namespace Trace

/-! ## Errors that leave a trace -/

theorem anyFails_of_mem {items : List Trace} {t : Trace} (ht : t ∈ items) (h : t.fails) :
    anyFails items := by
  induction items with
  | nil => cases ht
  | cons u rest ih =>
    rw [anyFails, Bool.or_eq_true]
    rcases List.mem_cons.1 ht with rfl | ht
    · exact .inl h
    · exact .inr (ih ht)

theorem anyFailsIn_of_mem {members : List (Slot × Trace)} {m : Slot × Trace} (hm : m ∈ members)
    (hpasses : m.1.passes) (h : m.2.fails) : anyFailsIn members := by
  induction members with
  | nil => cases hm
  | cons m' rest ih =>
    obtain ⟨slot, t⟩ := m'
    rw [anyFailsIn, Bool.or_eq_true]
    rcases List.mem_cons.1 hm with rfl | hm
    · exact .inl (by rw [hpasses, h]; rfl)
    · exact .inr (ih hm)

/-- An error leaves a trace if it leaves a child that does not catch it. -/
theorem fails_of_child {t : Trace} {c : Step × Trace} (hc : c ∈ t.children)
    (hcatches : c.1.catches = false) (h : c.2.fails) : t.fails := by
  cases t with
  | list item items =>
    obtain ⟨ht, j, hstep⟩ := mem_of_mem_ranItems hc
    rw [hstep] at hcatches
    have hitem : item.isNonNull = true := by simpa [Step.catches, Step.item] using hcatches
    rw [fails, hitem, anyFails_of_mem ht h]
    rfl
  | object members =>
    obtain ⟨slot, hslot, hstep⟩ := exists_of_mem_ranMembers hc
    rw [hstep] at hcatches
    have hpasses : slot.passes = true := by
      rw [Slot.passes, ← Bool.not_not slot.type.isNonNull, ← Bool.not_and]
      exact congrArg _ hcatches
    rw [fails]
    exact anyFailsIn_of_mem hslot hpasses h
  | _ => cases hc

/-- An error goes up along a way without a position that can be null. -/
theorem fails_of_mem_visits {t u : Trace} {place : List Step} (hu : ⟨place, u⟩ ∈ t.visits)
    (hcatches : ∀ step ∈ place, step.catches = false) (h : u.fails) : t.fails := by
  induction place generalizing t with
  | nil =>
    obtain rfl := congrArg Visit.trace (eq_root_of_type?_eq_none hu rfl)
    exact h
  | cons step rest ih =>
    obtain ⟨t', hc, hrest⟩ := exists_child_of_mem_visits hu rfl
    exact fails_of_child hc (hcatches step (.head _))
      (ih hrest fun step' hstep' => hcatches step' (.tail _ hstep'))

/-! ## Nulls that errors leave -/

theorem not_settles_of_fails {t : Trace} (h : t.fails) {path : Path} {value : Value} :
    (t.settle path).outcome ≠ .ok value := by
  intro hvalue
  have hok := Settled.eq_false_of_ok hvalue (isOk_settle path t)
  rw [h] at hok
  cases hok

/-- Where an error is caught, the data is null, or it is so above, if the run comes to each place on
the way once. -/
theorem meetsNull_of_fails {t u : Trace} {front : List Step} {step : Step}
    (hu : ⟨front ++ [step], u⟩ ∈ t.visits) (h : u.fails) {path : Path} {value : Value}
    (hvalue : (t.settle path).outcome = .ok value)
    (honce : ∀ route, route <+: (front ++ [step]).map Step.segment → t.timesAt route ≤ 1) :
    value.meetsNull ((front ++ [step]).map Step.segment) := by
  induction front generalizing t path value with
  | nil =>
    obtain ⟨t', hc, hroot⟩ := exists_child_of_mem_visits hu rfl
    obtain rfl := congrArg Visit.trace (eq_root_of_type?_eq_none hroot rfl)
    obtain ⟨x, hx, hchild⟩ := child?_of_unique hvalue hc
      (Nat.le_trans (count_children_le t _) (honce _ (List.prefix_refl _)))
    -- the error leaves the trace at the step, so only null can be there
    rcases settle_of_settleChild hx with ⟨path', hok⟩ | ⟨-, -, rfl⟩
    · exact absurd hok (not_settles_of_fails h)
    · exact Value.meetsNull_of_child hchild rfl
  | cons first rest ih =>
    obtain ⟨t', hc, hrest⟩ := exists_child_of_mem_visits hu rfl
    obtain ⟨x, hx, hchild⟩ := child?_of_unique hvalue hc
      (Nat.le_trans (count_children_le t _) (honce [first.segment] ⟨_, rfl⟩))
    refine Value.meetsNull_of_child hchild ?_
    -- the child has its own result, or another error has left null above already
    rcases settle_of_settleChild hx with ⟨path', hok⟩ | ⟨-, -, rfl⟩
    · exact ih hrest hok fun route hroute =>
        Nat.le_trans (timesAt_le hc route) (honce _ (List.cons_prefix_cons.2 ⟨rfl, hroute⟩))
    · exact Value.meetsNull_null _

/-- An error that is caught leaves null at the nearest position that catches it. -/
theorem meetsNull_of_nearest {t : Trace} {v : Visit} (hv : v ∈ t.visits) (h : v.trace.fails)
    {place : List Step} (hnearest : Step.nearest v.place = some place) {path : Path} {value : Value}
    (hvalue : (t.settle path).outcome = .ok value)
    (honce : ∀ route, route <+: place.map Step.segment → t.timesAt route ≤ 1) :
    value.meetsNull (place.map Step.segment) := by
  obtain ⟨front, step, rest, rfl, hplace, -, hrest⟩ := Step.exists_of_nearest hnearest
  obtain ⟨u, hu, hbelow⟩ := exists_visit_of_append hv hplace
  exact meetsNull_of_fails hu (fails_of_mem_visits hbelow hrest h) hvalue honce

end Trace

end Gazette.Execution

namespace Gazette

/-- A visit where a field failed is left by an error. -/
theorem Execution.Visit.fails_of_failure? {v : Visit} {f : Failure} (h : v.failure? = some f) :
    v.trace.fails := by
  unfold failure? at h
  split at h
  · rename_i heq
    rw [heq]
    rfl
  · cases h

theorem Response.exists_of_failures {response : Response} {f : Failure}
    (h : response.errors.map (fun e => e.failure? []) = [some f]) :
    ∃ e ∈ response.errors, e.failure? [] = some f :=
  List.mem_map.1 (h ▸ List.mem_singleton_self (some f))

variable {σ ν : Type} [Node ν]

/-- An error of a field leaves no data if there is no position around the field that can be null,
and else null at the nearest one or above, if the run comes to each place on the way once. -/
theorem Schema.meetsNull_of_error {schema : Schema σ ν} {request : Request} {s : σ}
    {e : ResponseError} (he : e ∈ (schema.respond request s).1.errors) {f : Failure}
    (hf : e.failure? [] = some f) :
    ∃ selected, schema.select request = .ok selected ∧
      let data := (schema.respond request s).1.data
      let trace := schema.trace request selected s
      ∃ v ∈ trace.visits, v.failure? = some f ∧
        (Execution.Step.nearest v.place = none → data.isNull) ∧
        ∀ place, Execution.Step.nearest v.place = some place →
          (∀ route, route <+: place.map Execution.Step.segment → trace.timesAt route ≤ 1) →
          data.meetsNull (place.map Execution.Step.segment) := by
  cases hselect : schema.select request with
  | error issues =>
    rw [respond_of_select_error hselect] at he
    obtain ⟨issue, -, rfl⟩ := List.mem_map.1 he
    cases hf
  | ok selected =>
    refine ⟨selected, rfl, ?_⟩
    intro data trace
    obtain ⟨herrors, -, hfailures, -⟩ := errors_eq_failures hselect s
    have hmem : f ∈ trace.failures := by
      show f ∈ (schema.trace request selected s).failures
      rw [← hfailures]
      rw [herrors] at he
      exact List.mem_filterMap.2 ⟨e, List.perm_append_comm.mem_iff.1 he, hf⟩
    obtain ⟨v, hv, hvf⟩ := List.mem_filterMap.1 hmem
    refine ⟨v, hv, hvf, ?_⟩
    have hfails := Execution.Visit.fails_of_failure? hvf
    have hdata : data = ((trace.settle []).response).data := by
      show (schema.respond request s).1.data = _
      rw [respond_eq_response hselect]
    rw [Execution.Settled.response] at hdata
    cases hvalue : (trace.settle []).outcome with
    | error e =>
      rw [hvalue] at hdata
      rw [hdata]
      exact ⟨fun _ => rfl, fun _ _ _ => Value.meetsNull_null _⟩
    | ok value =>
      rw [hvalue] at hdata
      rw [hdata]
      refine ⟨fun hnearest => ?_, fun place hnearest =>
        Execution.Trace.meetsNull_of_nearest hv hfails hnearest hvalue⟩
      exact absurd hvalue (Execution.Trace.not_settles_of_fails
        (Execution.Trace.fails_of_mem_visits hv
          (Execution.Step.not_catches_of_nearest hnearest) hfails))

namespace Bookshop

/-- The step to the book, which can be null. -/
def bestStep : Execution.Step := ⟨.key "best", .named "Book", true⟩

/-- What is wrong with a book that is asked for its number in `column`. -/
def noIsbn (column : Nat) : Failure :=
  ⟨[.key "best", .key "isbn"], .missingAttribute "Book" "isbn", ⟨1, column⟩⟩

/-- A query for a book where one selection fails. -/
def isbnQuery : Request where
  query := "\x7b best \x7b title isbn \x7d motto \x7d"

theorem meetsNull_best :
    let response := (schema.respond isbnQuery ()).1
    ∃ e ∈ response.errors, e.failure? [] = some (noIsbn 16) ∧
      ∃ selected, schema.select isbnQuery = .ok selected ∧
        ∃ v ∈ (schema.trace isbnQuery selected ()).visits, v.failure? = some (noIsbn 16) ∧
          Execution.Step.nearest v.place = some [bestStep] ∧
          response.data.meetsNull [.key "best"] := by
  have herrors : (schema.respond isbnQuery ()).1.errors.map (fun e => e.failure? []) =
      [some (noIsbn 16)] := by
    decide +kernel
  have hselects : schema.selects isbnQuery fun selected =>
      decide ((∀ v ∈ (schema.trace isbnQuery selected ()).visits,
        v.failure? = some (noIsbn 16) → Execution.Step.nearest v.place = some [bestStep]) ∧
        (schema.trace isbnQuery selected ()).timesAt [] ≤ 1 ∧
        (schema.trace isbnQuery selected ()).timesAt [.key "best"] ≤ 1) := by
    decide +kernel
  obtain ⟨e, he, hf⟩ := Response.exists_of_failures herrors
  obtain ⟨selected, hselect, v, hv, hvf, -, hmeets⟩ := Schema.meetsNull_of_error he hf
  obtain ⟨hall, hroot, hbest⟩ := of_decide_eq_true (Schema.check_of_selects hselects hselect)
  have hnearest := hall v hv hvf
  have hdata := hmeets _ hnearest fun route h => by
    rcases List.prefix_cons_iff.1 h with rfl | ⟨rest, rfl, hrest⟩
    · exact hroot
    · rw [List.prefix_nil.1 hrest]
      exact hbest
  exact ⟨e, he, hf, selected, hselect, v, hv, hvf, hnearest, hdata⟩

/-- A query for a book where the second of two merged selections fails. -/
def mergedIsbnQuery : Request where
  query := "\x7b best \x7b title \x7d best \x7b isbn \x7d \x7d"

/-- The book is not null although the error goes up to it: its first result stays. -/
theorem not_meetsNull_best :
    let response := (schema.respond mergedIsbnQuery ()).1
    ∃ e ∈ response.errors, e.failure? [] = some (noIsbn 25) ∧
      ∃ selected, schema.select mergedIsbnQuery = .ok selected ∧
        ∃ v ∈ (schema.trace mergedIsbnQuery selected ()).visits, v.failure? = some (noIsbn 25) ∧
          Execution.Step.nearest v.place = some [bestStep] ∧
          response.data.meetsNull [.key "best"] = false := by
  have herrors : (schema.respond mergedIsbnQuery ()).1.errors.map (fun e => e.failure? []) =
      [some (noIsbn 25)] := by
    decide +kernel
  have hselects : schema.selects mergedIsbnQuery fun selected =>
      (schema.trace mergedIsbnQuery selected ()).visits.any fun v =>
        v.failure? = some (noIsbn 25) ∧ Execution.Step.nearest v.place = some [bestStep] := by
    decide +kernel
  have hdata : (schema.respond mergedIsbnQuery ()).1.data.meetsNull [.key "best"] = false := by
    decide +kernel
  obtain ⟨e, he, hf⟩ := Response.exists_of_failures herrors
  obtain ⟨selected, hselect, hany⟩ := Schema.exists_of_selects hselects
  obtain ⟨v, hv, hcheck⟩ := List.any_eq_true.1 hany
  obtain ⟨hvf, hnearest⟩ := of_decide_eq_true hcheck
  exact ⟨e, he, hf, selected, hselect, v, hv, hvf, hnearest, hdata⟩

end Bookshop

end Gazette
