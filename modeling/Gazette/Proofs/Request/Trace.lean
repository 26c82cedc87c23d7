import Gazette.Proofs.Request.Selection

/-!
# Traces of runs

A run resolves fields one after the other, and what becomes of their failures is decided by the
types of the positions around them.  This file takes the two apart.  The trace of a run holds what
the run came to at each field and each item of a list: null, a leaf, a failure, or what is inside
(`Trace`).  It has no paths, and no error is caught in it.  `Trace.settle` is what a trace leads to:
errors rise to the nearest position that can be null and are recorded there.

Execution comes to what the trace of its selections settles to (`executeAll_comes`,
`respond_eq_response`), so a response depends on the trace only.
-/

namespace Gazette.Execution

/-- A field as a run comes to it: the key of its result, its declared type, and whether it is a
position.  A field whose arguments have no values is none, as its position does not begin. -/
structure Slot where
  key : String
  type : TypeRef
  isPosition : Bool
  deriving DecidableEq

/-- Whether an error inside a field goes on to the position around the field. -/
def Slot.passes (slot : Slot) : Bool := !slot.isPosition || slot.type.isNonNull

/-- What a run came to at a position.  The items of a list and the fields of an object stand in the
order in which they ran, up to the first one that an error leaves. -/
inductive Trace where
  | null
  | leaf (value : Value)
  | failure (cause : Cause)
  | list (item : TypeRef) (items : List Trace)
  | object (members : List (Slot × Trace))
  deriving Inhabited

namespace Trace

mutual

/-- Whether an error leaves the trace. -/
def fails : Trace → Bool
  | null | leaf _ => false
  | failure _ => true
  | list item items => item.isNonNull && anyFails items
  | object members => anyFailsIn members

/-- Whether one of the traces of items fails. -/
def anyFails : List Trace → Bool
  | [] => false
  | t :: rest => t.fails || anyFails rest

/-- Whether one of the traces of members fails where the failure passes on. -/
def anyFailsIn : List (Slot × Trace) → Bool
  | [] => false
  | (slot, t) :: rest => (slot.passes && t.fails) || anyFailsIn rest

end

end Trace

/-! ## What a trace settles to -/

/-- What a run comes to, apart from the state: its result, and the errors that it records, in
order. -/
structure Settled (α : Type) where
  outcome : Except ResponseError α
  caught : List ResponseError

namespace Settled

variable {α β γ : Type}

/-- A run that has a result and has caught nothing. -/
def done (a : α) : Settled α := ⟨.ok a, []⟩

/-- A run that has failed and has caught nothing. -/
def fail (e : ResponseError) : Settled α := ⟨.error e, []⟩

/-- One run and then another that depends on its result. -/
def andThen (x : Settled α) (next : α → Settled β) : Settled β :=
  match x.outcome with
  | .ok a => ⟨(next a).outcome, x.caught ++ (next a).caught⟩
  | .error e => ⟨.error e, x.caught⟩

/-- A run with its result mapped. -/
def map (f : α → β) (x : Settled α) : Settled β := ⟨x.outcome.map f, x.caught⟩

/-- What a position of type `type` at `path` comes to, given what is inside it. -/
def position (type : TypeRef) (path : Path) (x : Settled Value) : Settled Value :=
  match x.outcome with
  | .ok _ => x
  | .error e =>
    let e := { e with path := e.path.or (some path) }
    if type.isNonNull then ⟨.error e, x.caught⟩ else ⟨.ok .null, x.caught ++ [e]⟩

/-- The response of a request whose root comes to `x`. -/
def response (x : Settled Value) : Response :=
  match x.outcome with
  | .ok data => ⟨data, x.caught⟩
  | .error e => ⟨.null, e :: x.caught⟩

theorem exists_ok {x : Settled α} (h : x.outcome.isOk = true) : ∃ a, x.outcome = .ok a := by
  cases hx : x.outcome with
  | ok a => exact ⟨a, rfl⟩
  | error e => rw [hx] at h; cases h

theorem exists_error {x : Settled α} (h : x.outcome.isOk = false) : ∃ e, x.outcome = .error e := by
  cases hx : x.outcome with
  | ok a => rw [hx] at h; cases h
  | error e => exact ⟨e, rfl⟩

theorem eq_false_of_ok {x : Settled α} {a : α} {b : Bool} (h : x.outcome = .ok a)
    (hb : x.outcome.isOk = !b) : b = false := by
  rw [h] at hb
  cases b with
  | false => rfl
  | true => cases hb

theorem andThen_of_ok {x : Settled α} {a : α} (h : x.outcome = .ok a) (next : α → Settled β) :
    x.andThen next = ⟨(next a).outcome, x.caught ++ (next a).caught⟩ := by
  rw [andThen, h]

theorem andThen_of_error {x : Settled α} {e : ResponseError} (h : x.outcome = .error e)
    (next : α → Settled β) : x.andThen next = ⟨.error e, x.caught⟩ := by
  rw [andThen, h]

theorem map_eq_andThen (f : α → β) (x : Settled α) : x.map f = x.andThen fun a => done (f a) := by
  unfold map andThen
  cases x.outcome with
  | error e => rfl
  | ok a => simp only [done, List.append_nil]; rfl

theorem map_id (x : Settled α) : x.map (fun a => a) = x := by
  cases x with
  | mk outcome caught => cases outcome <;> rfl

theorem andThen_assoc (x : Settled α) (next : α → Settled β) (last : β → Settled γ) :
    (x.andThen next).andThen last = x.andThen fun a => (next a).andThen last := by
  cases h : x.outcome with
  | error e => simp only [andThen, h]
  | ok a =>
    rw [andThen_of_ok h, andThen_of_ok h]
    cases h' : (next a).outcome with
    | error e => simp only [andThen, h']
    | ok b => simp only [andThen, h', List.append_assoc]

theorem position_of_ok {x : Settled Value} {value : Value} (h : x.outcome = .ok value)
    (type : TypeRef) (path : Path) : x.position type path = x := by
  rw [position, h]

theorem position_of_error {x : Settled Value} {e : ResponseError} (h : x.outcome = .error e)
    (type : TypeRef) (path : Path) :
    x.position type path =
      let e := { e with path := e.path.or (some path) }
      if type.isNonNull then ⟨.error e, x.caught⟩ else ⟨.ok .null, x.caught ++ [e]⟩ := by
  rw [position, h]

end Settled

namespace Trace

mutual

/-- What a trace at a path settles to. -/
def settle (path : Path) : Trace → Settled Value
  | null => .done .null
  | leaf value => .done value
  | failure cause => .fail ⟨cause, none⟩
  | list item items => (settleItems path item 0 items).map .list
  | object members => (settleMembers path members).map Value.ofSelections

/-- What the items of a list settle to, from the index `i` on. -/
def settleItems (path : Path) (item : TypeRef) (i : Nat) : List Trace → Settled (List Value)
  | [] => .done []
  | t :: rest =>
    ((t.settle (path ++ [.index i])).position item (path ++ [.index i])).andThen fun value =>
      (settleItems path item (i + 1) rest).map (value :: ·)

/-- What the fields of an object settle to, one after the other.  What is inside a field that is no
position belongs to the position around it. -/
def settleMembers (path : Path) : List (Slot × Trace) → Settled (List (String × Value))
  | [] => .done []
  | m :: rest =>
    (settleMember path m).andThen fun value =>
      (settleMembers path rest).map ((m.1.key, value) :: ·)

/-- What the trace of a member settles to, at its position if it is one. -/
def settleMember (path : Path) : Slot × Trace → Settled Value
  | (slot, t) =>
    if slot.isPosition then
      (t.settle (path ++ [.key slot.key])).position slot.type (path ++ [.key slot.key])
    else t.settle path

end

theorem settleMembers_append (path : Path) (members more : List (Slot × Trace)) :
    settleMembers path (members ++ more) = (settleMembers path members).andThen fun first =>
      (settleMembers path more).map (first ++ ·) := by
  induction members with
  | nil =>
    rw [settleMembers, Settled.andThen_of_ok rfl]
    simp only [List.nil_append, Settled.map_id]
    rfl
  | cons m rest ih =>
    rw [List.cons_append, settleMembers, settleMembers, ih, Settled.andThen_assoc]
    simp only [Settled.map_eq_andThen, Settled.andThen_assoc]
    rfl

theorem settleMembers_singleton (path : Path) (m : Slot × Trace) :
    settleMembers path [m] = (settleMember path m).map fun value => [(m.1.key, value)] := by
  rw [settleMembers, settleMembers, Settled.map_eq_andThen]
  rfl

/-! ### Which traces fail -/

theorem isOk_position (x : Settled Value) (type : TypeRef) (path : Path) :
    (x.position type path).outcome.isOk = (x.outcome.isOk || !type.isNonNull) := by
  cases h : x.outcome with
  | ok value => rw [Settled.position_of_ok h, h]; rfl
  | error e =>
    rw [Settled.position_of_error h]
    cases type.isNonNull <;> rfl

theorem isOk_andThen_map {α β γ : Type} (x : Settled α) (y : Settled β) (f : α → β → γ) :
    (x.andThen fun a => y.map (f a)).outcome.isOk = (x.outcome.isOk && y.outcome.isOk) := by
  cases h : x.outcome with
  | error e => rw [Settled.andThen_of_error h]; rfl
  | ok a =>
    rw [Settled.andThen_of_ok h]
    cases h' : y.outcome <;> simp only [Settled.map, h'] <;> rfl

theorem isOk_map {α β : Type} (x : Settled α) (f : α → β) :
    (x.map f).outcome.isOk = x.outcome.isOk := by
  cases h : x.outcome <;> simp only [Settled.map, h] <;> rfl

theorem isOk_position_settle {path : Path} {t : Trace}
    (h : (t.settle path).outcome.isOk = !t.fails) (type : TypeRef) :
    ((t.settle path).position type path).outcome.isOk = !(type.isNonNull && t.fails) := by
  rw [isOk_position, h, Bool.not_and, Bool.or_comm]

mutual

/-- A trace settles to a result unless an error leaves it. -/
theorem isOk_settle (path : Path) (t : Trace) : (t.settle path).outcome.isOk = !t.fails := by
  cases t with
  | null => rfl
  | leaf value => rfl
  | failure cause => rfl
  | list item items => rw [settle, isOk_map, isOk_settleItems path item 0 items, fails]
  | object members => rw [settle, isOk_map, isOk_settleMembers path members, fails]

theorem isOk_settleItems (path : Path) (item : TypeRef) (i : Nat) (items : List Trace) :
    (settleItems path item i items).outcome.isOk = !(item.isNonNull && anyFails items) := by
  cases items with
  | nil => rw [settleItems, anyFails, Bool.and_false]; rfl
  | cons t rest =>
    rw [settleItems, isOk_andThen_map, isOk_position_settle (isOk_settle _ t),
      isOk_settleItems path item (i + 1) rest, anyFails]
    cases item.isNonNull <;> cases t.fails <;> rfl

theorem isOk_settleMembers (path : Path) (members : List (Slot × Trace)) :
    (settleMembers path members).outcome.isOk = !anyFailsIn members := by
  cases members with
  | nil => rfl
  | cons m rest =>
    rw [settleMembers, isOk_andThen_map, isOk_settleMember path m, isOk_settleMembers path rest,
      anyFailsIn, Bool.not_or]

theorem isOk_settleMember (path : Path) (m : Slot × Trace) :
    (settleMember path m).outcome.isOk = !(m.1.passes && m.2.fails) := by
  obtain ⟨slot, t⟩ := m
  rw [settleMember, Slot.passes]
  cases slot.isPosition with
  | true =>
    rw [if_pos rfl, isOk_position_settle (isOk_settle _ t)]
    rfl
  | false =>
    rw [if_neg (by simp), isOk_settle path t]
    cases t.fails <;> rfl

end

end Trace

/-! ## The trace of an execution -/

variable {σ ν α : Type}

/-- How the trace of the selections inside a field depends on the object, the value and the
state. -/
abbrev TraceInside (σ ν : Type) := ObjectType σ ν → ν → σ → Trace × σ

/-- The traces of the items of a list, up to the first one that an error leaves. -/
def traceEach (item : TypeRef) (one : α → σ → Trace × σ) : List α → σ → List Trace × σ
  | [], s => ([], s)
  | a :: rest, s =>
    let first := one a s
    if item.isNonNull && first.1.fails then ([first.1], first.2)
    else
      let more := traceEach item one rest first.2
      (first.1 :: more.1, more.2)

/-- The trace for a completed value of the type with a name. -/
def traceNamed (scope : Scope σ ν) (inside : TraceInside σ ν) (name : String)
    (value : Completed ν) (s : σ) : Trace × σ :=
  match scope.registry.find? name, value with
  | some (.scalar _), .leaf v => (.leaf v, s)
  | some (.scalar _), .null => (.null, s)
  | some (.enum _), .leaf v => (.leaf v, s)
  | some (.object o), .node v => inside o v s
  | some (.object o), .null => inside o scope.root s
  | some (.interface _), .tagged tag v =>
    match scope.registry.object? tag with
    | some o => inside o v s
    | none => (.failure (.request (.unknownType tag)), s)
  | _, _ => (.failure (.request (.nullItem name)), s)

/-- The trace for a completed value of a type. -/
def traceValue (scope : Scope σ ν) (inside : TraceInside σ ν) :
    TypeRef → Completed ν → σ → Trace × σ
  | .nonNull inner, value, s => traceValue scope inside inner value s
  | .list item, value, s =>
    match value with
    | .list items =>
      let traces := traceEach item (traceValue scope inside item) items s
      (.list item traces.1, traces.2)
    | _ => (.failure (.request (.nullItem (TypeRef.list item).text)), s)
  | .named name, value, s => traceNamed scope inside name value s

variable [Node ν]

/-- The trace of a field with the values of its written arguments. -/
def traceWith (scope : Scope σ ν) (inside : TraceInside σ ν) (object : String) (field : Field σ ν)
    (head : FieldHead) (parent : ν) (arguments : Entries Value) (s : σ) : Trace × σ :=
  match resolveDeclared scope.registry object field.name parent
    (withDefaults field.arguments arguments) s with
  | (.error e, s) => (.failure (causeOf scope field head.remaining e), s)
  | (.ok none, s) => (.null, s)
  | (.ok (some value), s) => traceValue scope inside field.type value s

/-- The trace of a field of an object.  Where the written arguments have no values, only a field of
a part of the schema has begun its position. -/
def traceAt (scope : Scope σ ν) (inside : TraceInside σ ν) (object : String) (field : Field σ ν)
    (head : FieldHead) (parent : ν) (s : σ) : (Slot × Trace) × σ :=
  match scope.written head.arguments with
  | .ok values =>
    let t := traceWith scope inside object field head parent values s
    ((⟨head.key, field.type, field.role ≠ .gateway⟩, t.1), t.2)
  | .error issue =>
    ((⟨head.key, field.type, field.role = .introspective⟩, .failure (.request issue)), s)

theorem key_traceAt (scope : Scope σ ν) (inside : TraceInside σ ν) (object : String)
    (field : Field σ ν) (head : FieldHead) (parent : ν) (s : σ) :
    (traceAt scope inside object field head parent s).1.1.key = head.key := by
  unfold traceAt
  split <;> rfl

mutual

/-- What selections come to on a value of an object, and the state after them. -/
def traceAll (scope : Scope σ ν) (object : ObjectType σ ν) (parent : ν) :
    List Plan → σ → List (Slot × Trace) × σ
  | [], s => ([], s)
  | p :: rest, s =>
    let first := traceOne scope object parent p s
    if Trace.anyFailsIn first.1 then first
    else
      let more := traceAll scope object parent rest first.2
      (first.1 ++ more.1, more.2)

/-- The traces of the fields that one selection selects. -/
def traceOne (scope : Scope σ ν) (object : ObjectType σ ν) (parent : ν) :
    Plan → σ → List (Slot × Trace) × σ
  | .field head plans, s =>
    if head.name = Plan.typeNameField then
      ([(⟨head.key, .namedNonNull builtin.string, true⟩, .leaf (.string object.name))], s)
    else
      match object.field? head.name with
      | none => ([], s)
      | some field =>
        let inside := fun (o : ObjectType σ ν) (v : ν) (s : σ) =>
          let members := traceAll scope o v plans s
          (Trace.object members.1, members.2)
        let t := traceAt scope inside object.name field head parent s
        ([t.1], t.2)
  | .fragment _ condition _ plans, s =>
    if applies object condition then traceAll scope object parent plans s else ([], s)
  | .missing _, s => ([], s)

end

/-! ## Executions come to what their traces settle to -/

/-- Whether a run from a state comes to `x`, whatever is recorded before it, and where it leaves the
state. -/
def Run.Comes (run : Run σ α) (s : σ) (x : Settled α) (s' : σ) : Prop :=
  ∀ recorded, run ⟨s, recorded⟩ = (x.outcome, ⟨s', recorded ++ x.caught⟩)

namespace Run

variable {β : Type} {s s' s'' : σ}

omit [Node ν]

theorem comes_done (a : α) (s : σ) : Comes (done a) s (.done a) s := by
  intro recorded
  simp only [done, Settled.done, List.append_nil]

theorem comes_fail (e : ResponseError) (s : σ) : Comes (fail e : Run σ α) s (.fail e) s := by
  intro recorded
  simp only [fail, Settled.fail, List.append_nil]

theorem Comes.andThen_of_ok {run : Run σ α} {next : α → Run σ β} {x : Settled α}
    {y : α → Settled β} {a : α} (h : Comes run s x s') (ha : x.outcome = .ok a)
    (hnext : Comes (next a) s' (y a) s'') : Comes (run.andThen next) s (x.andThen y) s'' := by
  intro recorded
  have hrun := h recorded
  rw [ha] at hrun
  rw [Run.andThen_of_ok hrun, hnext, Settled.andThen_of_ok ha, List.append_assoc]

theorem Comes.andThen_of_error {run : Run σ α} {next : α → Run σ β} {x : Settled α}
    {y : α → Settled β} {e : ResponseError} (h : Comes run s x s') (he : x.outcome = .error e) :
    Comes (run.andThen next) s (x.andThen y) s' := by
  intro recorded
  have hrun := h recorded
  rw [he] at hrun
  rw [Run.andThen_of_error hrun, Settled.andThen_of_error he]

theorem Comes.mapResult {run : Run σ α} {x : Settled α} (h : Comes run s x s') (f : α → β) :
    Comes (run.mapResult f) s (x.map f) s' := by
  intro recorded
  rw [mapResult_apply, h recorded]
  rfl

theorem Comes.position {run : Run σ Value} {x : Settled Value} (h : Comes run s x s')
    (type : TypeRef) (path : Path) :
    Comes (position type path run) s (x.position type path) s' := by
  intro recorded
  have hrun := h recorded
  cases hx : x.outcome with
  | ok value =>
    rw [hx] at hrun
    rw [Run.position_of_ok hrun, Settled.position_of_ok hx, hx]
  | error e =>
    rw [hx] at hrun
    rw [Run.position, hrun, Settled.position_of_error hx]
    cases type.isNonNull with
    | true => rfl
    | false => simp only [Bool.false_eq_true, if_false, List.append_assoc]

end Run

open Run (comes_done comes_fail)

omit [Node ν] in
/-- Items come to what their traces settle to, if each item does. -/
theorem comes_eachFrom {path : Path} {item : TypeRef} {one : α → σ → Trace × σ}
    {run : Nat → α → Run σ Value}
    (h : ∀ i a s, Run.Comes (run i a) s
      (((one a s).1.settle (path ++ [.index i])).position item (path ++ [.index i])) (one a s).2)
    (i : Nat) (as : List α) (s : σ) :
    Run.Comes (Run.eachFrom run i as) s (Trace.settleItems path item i (traceEach item one as s).1)
      (traceEach item one as s).2 := by
  induction as generalizing i s with
  | nil => exact comes_done [] s
  | cons a rest ih =>
    have hone := h i a s
    have hok := Trace.isOk_position_settle (Trace.isOk_settle (path ++ [.index i]) (one a s).1) item
    rw [Run.eachFrom, traceEach]
    cases hstop : item.isNonNull && (one a s).1.fails with
    | true =>
      rw [hstop] at hok
      obtain ⟨e, he⟩ := Settled.exists_error hok
      exact hone.andThen_of_error he
    | false =>
      rw [hstop] at hok
      obtain ⟨value, hvalue⟩ := Settled.exists_ok hok
      exact hone.andThen_of_ok hvalue ((ih (i + 1) _).mapResult _)

section

variable (scope : Scope σ ν) {inside : Inside σ ν} {traceInside : TraceInside σ ν}

omit [Node ν] in
theorem comes_presentNamed
    (hinside : ∀ o v path s, Run.Comes (inside o v path) s ((traceInside o v s).1.settle path)
      (traceInside o v s).2) (name : String) (value : Completed ν) (path : Path) (s : σ) :
    Run.Comes (presentNamed scope inside name value path) s
      ((traceNamed scope traceInside name value s).1.settle path)
      (traceNamed scope traceInside name value s).2 := by
  cases hfind : scope.registry.find? name with
  | none =>
    simp only [presentNamed, traceNamed, hfind]
    exact comes_fail _ s
  | some t =>
    cases t with
    | scalar t =>
      cases value <;> simp only [presentNamed, traceNamed, hfind] <;>
        first | exact comes_done _ s | exact comes_fail _ s
    | enum e =>
      cases value <;> simp only [presentNamed, traceNamed, hfind] <;>
        first | exact comes_done _ s | exact comes_fail _ s
    | object o =>
      cases value <;> simp only [presentNamed, traceNamed, hfind] <;>
        first | exact hinside o _ path s | exact comes_fail _ s
    | interface i =>
      cases value <;> simp only [presentNamed, traceNamed, hfind]
      case tagged tag v =>
        cases scope.registry.object? tag with
        | none => exact comes_fail _ s
        | some o => exact hinside o v path s
      all_goals exact comes_fail _ s

omit [Node ν] in
theorem comes_present
    (hinside : ∀ o v path s, Run.Comes (inside o v path) s ((traceInside o v s).1.settle path)
      (traceInside o v s).2) (type : TypeRef) (value : Completed ν) (path : Path) (s : σ) :
    Run.Comes (present scope inside type value path) s
      ((traceValue scope traceInside type value s).1.settle path)
      (traceValue scope traceInside type value s).2 := by
  induction type generalizing value path s with
  | nonNull inner ih => exact ih value path s
  | list item ih =>
    cases value with
    | list items =>
      exact (comes_eachFrom (fun i v s => (ih v _ s).position item _) 0 items s).mapResult _
    | _ => exact comes_fail _ s
  | named name => exact comes_presentNamed scope hinside name value path s

theorem comes_runWith
    (hinside : ∀ o v path s, Run.Comes (inside o v path) s ((traceInside o v s).1.settle path)
      (traceInside o v s).2) (object : String) (field : Field σ ν) (head : FieldHead) (parent : ν)
    (path : Path) (arguments : Entries Value) (s : σ) :
    Run.Comes (runWith scope inside object field head parent path arguments) s
      ((traceWith scope traceInside object field head parent arguments s).1.settle path)
      (traceWith scope traceInside object field head parent arguments s).2 := by
  intro recorded
  unfold runWith traceWith Run.andThen runField
  rcases resolveDeclared scope.registry object field.name parent
    (withDefaults field.arguments arguments) s with ⟨e | completed, s'⟩
  · exact comes_fail _ s' recorded
  · cases completed with
    | none => exact comes_done _ s' recorded
    | some value => exact comes_present scope hinside field.type value path s' recorded

theorem comes_runAt
    (hinside : ∀ o v path s, Run.Comes (inside o v path) s ((traceInside o v s).1.settle path)
      (traceInside o v s).2) (object : String) (field : Field σ ν) (head : FieldHead) (parent : ν)
    (path : Path) (s : σ) :
    Run.Comes (runAt scope inside object field head parent path) s
      (Trace.settleMember path (traceAt scope traceInside object field head parent s).1)
      (traceAt scope traceInside object field head parent s).2 := by
  have hwith (path : Path) (values : Entries Value) :
      Run.Comes (runWith scope inside object field head parent path values) s
        ((traceWith scope traceInside object field head parent values s).1.settle path)
        (traceWith scope traceInside object field head parent values s).2 :=
    comes_runWith scope hinside object field head parent path values s
  unfold runAt traceAt runWritten
  cases hwritten : scope.written head.arguments with
  | error issue =>
    cases hrole : field.role with
    | ordinary => exact comes_fail ⟨.request issue, none⟩ s
    | gateway => exact comes_fail ⟨.request issue, none⟩ s
    | introspective =>
      have hfail := comes_fail (α := Value) ⟨.request issue, none⟩ s
      exact hfail.position field.type (path ++ [.key head.key])
  | ok values =>
    cases hrole : field.role with
    | ordinary => exact (hwith _ values).position _ _
    | gateway => exact hwith path values
    | introspective => exact (hwith _ values).position _ _

end

mutual

/-- Selections come to what their trace settles to. -/
theorem executeAll_comes (scope : Scope σ ν) (object : ObjectType σ ν) (parent : ν) (path : Path)
    (plans : List Plan) (s : σ) :
    Run.Comes (executeAll scope object parent path plans) s
      (Trace.settleMembers path (traceAll scope object parent plans s).1)
      (traceAll scope object parent plans s).2 := by
  cases plans with
  | nil => exact comes_done [] s
  | cons p rest =>
    have hfirst := executeOne_comes scope object parent path p s
    have hok := Trace.isOk_settleMembers path (traceOne scope object parent p s).1
    rw [executeAll, traceAll]
    -- the run and its trace stop in the same place, at a field that an error leaves
    cases hstop : Trace.anyFailsIn (traceOne scope object parent p s).1 with
    | true =>
      rw [hstop] at hok
      obtain ⟨e, he⟩ := Settled.exists_error hok
      intro recorded
      have hrun := hfirst recorded
      rw [he] at hrun
      rw [Run.andThen_of_error hrun, if_pos rfl, he]
    | false =>
      rw [hstop] at hok
      obtain ⟨first, hvalue⟩ := Settled.exists_ok hok
      rw [if_neg (by simp), Trace.settleMembers_append]
      exact hfirst.andThen_of_ok hvalue
        ((executeAll_comes scope object parent path rest _).mapResult _)

theorem executeOne_comes (scope : Scope σ ν) (object : ObjectType σ ν) (parent : ν) (path : Path)
    (p : Plan) (s : σ) :
    Run.Comes (executeOne scope object parent path p) s
      (Trace.settleMembers path (traceOne scope object parent p s).1)
      (traceOne scope object parent p s).2 := by
  cases p with
  | field head plans =>
    rw [executeOne, traceOne]
    split
    · exact comes_done _ s
    · cases object.field? head.name with
      | none => exact comes_done _ s
      | some field =>
        let within : TraceInside σ ν := fun o v s =>
          (.object (traceAll scope o v plans s).1, (traceAll scope o v plans s).2)
        have hwithin (o : ObjectType σ ν) (v : ν) (path : Path) (s : σ) :
            Run.Comes ((executeAll scope o v path plans).mapResult Value.ofSelections) s
              ((within o v s).1.settle path) (within o v s).2 :=
          (executeAll_comes scope o v path plans s).mapResult Value.ofSelections
        have hat := comes_runAt scope hwithin object.name field head parent path s
        have hmap := hat.mapResult fun value => [(head.key, value)]
        dsimp only
        rwa [Trace.settleMembers_singleton, key_traceAt]
  | fragment name condition directives plans =>
    rw [executeOne, traceOne]
    split
    · exact executeAll_comes scope object parent path plans s
    · exact comes_done [] s
  | missing name => exact comes_done [] s

end

/-- The trace of selections on the root value. -/
def trace (scope : Scope σ ν) (object : ObjectType σ ν) (plans : List Plan) (s : σ) : Trace :=
  .object (traceAll scope object scope.root plans s).1

theorem respond_of_comes {scope : Scope σ ν} {object : ObjectType σ ν} {plans : List Plan}
    {s s' : σ} {x : Settled (List (String × Value))}
    (h : Run.Comes (executeAll scope object scope.root [] plans) s x s') :
    respond scope object plans s = ((x.map Value.ofSelections).response, s') := by
  rw [respond, h [], Settled.response, Settled.map]
  cases x.outcome <;> rfl

/-- A response is what the trace of the request settles to. -/
theorem respond_eq_response (scope : Scope σ ν) (object : ObjectType σ ν) (plans : List Plan)
    (s : σ) : respond scope object plans s =
      (((trace scope object plans s).settle []).response,
        (traceAll scope object scope.root plans s).2) := by
  rw [respond_of_comes (executeAll_comes scope object scope.root [] plans s), trace, Trace.settle]

end Gazette.Execution

namespace Gazette.Schema

variable {σ ν : Type} [Node ν]

/-- The trace of what a request runs. -/
def trace (schema : Schema σ ν) (request : Request) (selected : Selected σ (Subject ν)) (s : σ) :
    Execution.Trace :=
  Execution.trace (schema.scope request selected.operation) selected.root selected.plans s

theorem respond_eq_response {schema : Schema σ ν} {request : Request}
    {selected : Selected σ (Subject ν)} (h : schema.select request = .ok selected) (s : σ) :
    (schema.respond request s).1 = ((schema.trace request selected s).settle []).response := by
  rw [respond_of_select_ok h, Execution.respond_eq_response]
  rfl

end Gazette.Schema
