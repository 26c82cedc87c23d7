import Gazette.Proofs.Lists
import Gazette.Proofs.Request.Trace

/-!
# Where errors are reported

Every error that is caught has a path, and what is inside a position reports errors at the path of
the position or below (`Trace.lies_settle`).  An error leaves a field of an object without a path
only if the field is no position, as one whose arguments have no values.
-/

namespace Gazette

/-- Whether an error is reported at a path or below. -/
def ResponseError.liesAt (path : Path) (e : ResponseError) : Bool := e.path.any path.isPrefixOf

namespace ResponseError

variable {path more : Path} {e : ResponseError}

theorem liesAt_iff : e.liesAt path ↔ ∃ place, e.path = some place ∧ path <+: place := by
  simp only [liesAt, Option.any_eq_true, List.isPrefixOf_iff_prefix]

theorem liesAt_of_append (h : e.liesAt (path ++ more)) : e.liesAt path := by
  obtain ⟨place, hplace, hprefix⟩ := liesAt_iff.1 h
  exact liesAt_iff.2 ⟨place, hplace, (List.prefix_append path more).trans hprefix⟩

/-- An error at one item of a list is at no other. -/
theorem not_liesAt_of_ne {i j : Nat} (hne : j ≠ i) (h : e.liesAt (path ++ [.index j])) :
    e.liesAt (path ++ [.index i]) = false := by
  obtain ⟨place, hplace, rest, rfl⟩ := liesAt_iff.1 h
  rw [← Bool.not_eq_true]
  intro h'
  obtain ⟨place', hplace', more, rfl⟩ := liesAt_iff.1 h'
  rw [hplace] at hplace'
  have heq : path ++ [.index j] ++ rest = path ++ [.index i] ++ more := Option.some.inj hplace'
  simp only [List.append_assoc, List.append_cancel_left_eq, List.cons_append, List.nil_append,
    List.cons.injEq, Segment.index.injEq] at heq
  exact hne heq.1

end ResponseError

namespace Execution

namespace Settled

variable {α β : Type} {path more : Path}

/-- Whether errors are reported at a path or below, but for one that leaves without a path. -/
structure Lies (path : Path) (x : Settled α) : Prop where
  caught : ∀ e ∈ x.caught, e.liesAt path
  raised : ∀ e, x.outcome = .error e → e.path.isSome → e.liesAt path

theorem lies_done (a : α) : (done a).Lies path := ⟨nofun, nofun⟩

theorem lies_fail (cause : Cause) : (fail ⟨cause, none⟩ : Settled α).Lies path where
  caught := nofun
  raised e he hpath := by
    obtain rfl := Except.error.inj he
    cases hpath

theorem Lies.map {x : Settled α} (h : x.Lies path) (f : α → β) : (x.map f).Lies path where
  caught := h.caught
  raised e he := by
    cases hx : x.outcome with
    | ok a => rw [Settled.map, hx] at he; cases he
    | error e' =>
      rw [Settled.map, hx] at he
      obtain rfl := Except.error.inj he
      exact h.raised _ hx

theorem Lies.andThen {x : Settled α} {next : α → Settled β} (h : x.Lies path)
    (hnext : ∀ a, (next a).Lies path) : (x.andThen next).Lies path := by
  cases hx : x.outcome with
  | error e =>
    rw [andThen_of_error hx]
    exact ⟨h.caught, fun e' he => h.raised e' (hx.trans (congrArg _ (Except.error.inj he)))⟩
  | ok a =>
    rw [andThen_of_ok hx]
    refine ⟨fun e he => ?_, (hnext a).raised⟩
    exact (List.mem_append.1 he).elim (h.caught e) ((hnext a).caught e)

/-- An error that leaves a position has a path. -/
theorem liesAt_of_position_error {x : Settled Value} (h : x.Lies path) {type : TypeRef}
    {e : ResponseError} (he : (x.position type path).outcome = .error e) : e.liesAt path := by
  cases hx : x.outcome with
  | ok value => rw [position_of_ok hx, hx] at he; cases he
  | error e' =>
    rw [position_of_error hx] at he
    dsimp only at he
    split at he
    · obtain rfl := Except.error.inj he
      rw [ResponseError.liesAt_iff]
      cases hpath : e'.path with
      | none => exact ⟨path, rfl, List.prefix_refl path⟩
      | some place =>
        have hlies := h.raised e' hx (by rw [hpath]; rfl)
        obtain ⟨place', hplace, hprefix⟩ := ResponseError.liesAt_iff.1 hlies
        exact ⟨place', hpath.symm.trans hplace, hprefix⟩
    · cases he

theorem Lies.position {x : Settled Value} (h : x.Lies path) (type : TypeRef) :
    (x.position type path).Lies path where
  caught e he := by
    cases hx : x.outcome with
    | ok value => rw [position_of_ok hx] at he; exact h.caught e he
    | error e' =>
      rw [position_of_error hx] at he
      dsimp only at he
      split at he
      · exact h.caught e he
      · rcases List.mem_append.1 he with he | he
        · exact h.caught e he
        · obtain rfl := List.mem_singleton.1 he
          have herror : (x.position (.nonNull type) path).outcome =
              .error ⟨e'.cause, e'.path.or (some path)⟩ := by
            rw [position_of_error hx]
            rfl
          exact liesAt_of_position_error h herror
  raised e he _ := liesAt_of_position_error h he

theorem Lies.of_append {x : Settled α} (h : x.Lies (path ++ more)) : x.Lies path where
  caught e he := ResponseError.liesAt_of_append (h.caught e he)
  raised e he hpath := ResponseError.liesAt_of_append (h.raised e he hpath)

end Settled

namespace Trace

open Settled (lies_done lies_fail)

mutual

/-- What a trace at a path settles to reports errors there or below. -/
theorem lies_settle (path : Path) (t : Trace) : (t.settle path).Lies path := by
  cases t with
  | null => exact lies_done _
  | leaf value => exact lies_done _
  | failure cause => exact lies_fail cause
  | list item items => exact (lies_settleItems path item 0 items).map _
  | object members => exact (lies_settleMembers path members).map _

theorem lies_settleItems (path : Path) (item : TypeRef) (i : Nat) (items : List Trace) :
    (settleItems path item i items).Lies path := by
  cases items with
  | nil => exact lies_done _
  | cons t rest =>
    rw [settleItems]
    exact ((lies_settle _ t).position item).of_append.andThen fun value =>
      (lies_settleItems path item (i + 1) rest).map _

theorem lies_settleMembers (path : Path) (members : List (Slot × Trace)) :
    (settleMembers path members).Lies path := by
  cases members with
  | nil => exact lies_done _
  | cons m rest =>
    rw [settleMembers]
    exact (lies_settleMember path m).andThen fun value => (lies_settleMembers path rest).map _

theorem lies_settleMember (path : Path) (m : Slot × Trace) : (settleMember path m).Lies path := by
  obtain ⟨slot, t⟩ := m
  rw [settleMember]
  split
  · exact ((lies_settle _ t).position slot.type).of_append
  · exact lies_settle path t

end

end Trace

/-! ## Errors without a path -/

variable {σ ν : Type} [Node ν] {scope : Scope σ ν} {object : ObjectType σ ν} {parent : ν}
  {e : ResponseError}

/-- An error leaves an ordinary field without a path only if the written arguments have no values,
and then nothing has run. -/
theorem exists_written_error (hordinary : ∀ field ∈ object.fields, field.role = .ordinary)
    {f : FieldPlan} {path : Path} {p p' : Progress σ}
    (h : executeOne scope object parent path f.toPlan p = (.error e, p')) (hpath : e.path = none) :
    f.head.name ≠ Plan.typeNameField ∧
      (∃ issue, scope.written f.head.arguments = .error issue) ∧ p'.state = p.state := by
  have hcomes := executeOne_comes scope object parent path f.toPlan p.state p.recorded
  obtain ⟨houtcome, rfl⟩ := Prod.mk.inj (h.symm.trans hcomes)
  dsimp only
  rw [FieldPlan.toPlan, traceOne] at houtcome ⊢
  split at houtcome
  · cases houtcome
  rename_i hname
  rw [if_neg hname]
  cases hfield : object.field? f.head.name with
  | none => rw [hfield] at houtcome; cases houtcome
  | some field =>
    rw [hfield] at houtcome
    dsimp only at houtcome ⊢
    rw [Trace.settleMembers_singleton] at houtcome
    have he := map_eq_error_iff.1 houtcome.symm
    refine ⟨hname, ?_⟩
    cases hwritten : scope.written f.head.arguments with
    | error issue => exact ⟨⟨issue, rfl⟩, by rw [traceAt, hwritten]⟩
    | ok values =>
      -- the position has begun, so it gives its path to the error
      have hrole := hordinary field (List.mem_of_find?_eq_some hfield)
      rw [traceAt, hwritten, hrole] at he
      have hlies := Settled.liesAt_of_position_error (Trace.lies_settle _ _) he
      obtain ⟨place, hplace, -⟩ := ResponseError.liesAt_iff.1 hlies
      rw [hpath] at hplace
      cases hplace

end Execution

end Gazette
