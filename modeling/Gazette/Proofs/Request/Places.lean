import Gazette.Proofs.Request.Reading
import Gazette.Proofs.Request.Trace

/-!
# Responses up to places in the text

An error of a field tells where the field stands in the text of the request.  Apart from these
places, what a run comes to depends only on the fields that are selected, on their keys, and on what
the fields do with their arguments (`sameMembers_of_pairsAll`).  So it does not depend on the text
or on how variables are declared, if arguments have the same values (`Scope.Alike`,
`unplaced_respond`).
-/

namespace Gazette

/-- A cause without its place in the text. -/
def Cause.unplaced : Cause → Cause
  | .field error _ => .field error ⟨0, 0⟩
  | .request issue => .request issue

/-- An error without its place in the text: its cause and its path. -/
def ResponseError.unplaced (e : ResponseError) : ResponseError := ⟨e.cause.unplaced, e.path⟩

/-- A response without the places of its errors in the text. -/
def Response.unplaced (r : Response) : Response := ⟨r.data, r.errors.map ResponseError.unplaced⟩

namespace Execution

namespace Settled

variable {α β : Type}

/-- What a run has settled to, without places in the text. -/
def unplaced (x : Settled α) : Settled α :=
  ⟨x.outcome.mapError ResponseError.unplaced, x.caught.map ResponseError.unplaced⟩

theorem unplaced_map (f : α → β) (x : Settled α) : (x.map f).unplaced = x.unplaced.map f := by
  cases h : x.outcome <;> simp only [unplaced, map, h] <;> rfl

theorem unplaced_andThen (x : Settled α) (next : α → Settled β) :
    (x.andThen next).unplaced = x.unplaced.andThen fun a => (next a).unplaced := by
  cases h : x.outcome with
  | error e =>
    have hx : x.unplaced.outcome = .error e.unplaced := by rw [unplaced, h]; rfl
    rw [andThen_of_error h, andThen_of_error hx]
    rfl
  | ok a =>
    have hx : x.unplaced.outcome = .ok a := by rw [unplaced, h]; rfl
    rw [andThen_of_ok h, andThen_of_ok hx]
    simp only [unplaced, List.map_append]

theorem unplaced_position (x : Settled Value) (type : TypeRef) (path : Path) :
    (x.position type path).unplaced = x.unplaced.position type path := by
  cases h : x.outcome with
  | ok value =>
    have hx : x.unplaced.outcome = .ok value := by rw [unplaced, h]; rfl
    rw [position_of_ok h, position_of_ok hx]
  | error e =>
    have hx : x.unplaced.outcome = .error e.unplaced := by rw [unplaced, h]; rfl
    rw [position_of_error h, position_of_error hx]
    cases type.isNonNull with
    | true => rfl
    | false =>
      simp only [Bool.false_eq_true, if_false, unplaced, List.map_append]
      rfl

theorem unplaced_response (x : Settled Value) : x.response.unplaced = x.unplaced.response := by
  cases h : x.outcome <;> simp only [response, unplaced, h] <;> rfl

end Settled

/-! ## Traces -/

namespace Trace

mutual

/-- A trace without places in the text. -/
def unplaced : Trace → Trace
  | null => null
  | leaf value => leaf value
  | failure cause => failure cause.unplaced
  | list item items => list item (unplacedItems items)
  | object members => object (unplacedMembers members)

/-- The traces of items without places in the text. -/
def unplacedItems : List Trace → List Trace
  | [] => []
  | t :: rest => t.unplaced :: unplacedItems rest

/-- The traces of members without places in the text. -/
def unplacedMembers : List (Slot × Trace) → List (Slot × Trace)
  | [] => []
  | (slot, t) :: rest => (slot, t.unplaced) :: unplacedMembers rest

end

theorem unplacedMembers_append (members more : List (Slot × Trace)) :
    unplacedMembers (members ++ more) = unplacedMembers members ++ unplacedMembers more := by
  induction members with
  | nil => rfl
  | cons m rest ih =>
    obtain ⟨slot, t⟩ := m
    rw [List.cons_append, unplacedMembers, unplacedMembers, ih, List.cons_append]

mutual

theorem fails_unplaced (t : Trace) : t.unplaced.fails = t.fails := by
  cases t with
  | list item items => rw [unplaced, fails, fails, anyFails_unplacedItems items]
  | object members => rw [unplaced, fails, fails, anyFailsIn_unplacedMembers members]
  | _ => rfl

theorem anyFails_unplacedItems (items : List Trace) :
    anyFails (unplacedItems items) = anyFails items := by
  cases items with
  | nil => rfl
  | cons t rest =>
    rw [unplacedItems, anyFails, anyFails, fails_unplaced t, anyFails_unplacedItems rest]

theorem anyFailsIn_unplacedMembers (members : List (Slot × Trace)) :
    anyFailsIn (unplacedMembers members) = anyFailsIn members := by
  cases members with
  | nil => rfl
  | cons m rest =>
    obtain ⟨slot, t⟩ := m
    rw [unplacedMembers, anyFailsIn, anyFailsIn, fails_unplaced t, anyFailsIn_unplacedMembers rest]

end

mutual

/-- Traces settle to the same with and without places. -/
theorem settle_unplaced (path : Path) (t : Trace) :
    t.unplaced.settle path = (t.settle path).unplaced := by
  cases t with
  | null => rfl
  | leaf value => rfl
  | failure cause => rfl
  | list item items =>
    rw [unplaced, settle, settle, Settled.unplaced_map, settleItems_unplaced path item 0 items]
  | object members =>
    rw [unplaced, settle, settle, Settled.unplaced_map, settleMembers_unplaced path members]

theorem settleItems_unplaced (path : Path) (item : TypeRef) (i : Nat) (items : List Trace) :
    settleItems path item i (unplacedItems items) = (settleItems path item i items).unplaced := by
  cases items with
  | nil => rfl
  | cons t rest =>
    rw [unplacedItems, settleItems, settleItems, Settled.unplaced_andThen,
      Settled.unplaced_position, settle_unplaced _ t, settleItems_unplaced path item (i + 1) rest]
    simp only [Settled.unplaced_map]

theorem settleMembers_unplaced (path : Path) (members : List (Slot × Trace)) :
    settleMembers path (unplacedMembers members) = (settleMembers path members).unplaced := by
  cases members with
  | nil => rfl
  | cons m rest =>
    obtain ⟨slot, t⟩ := m
    rw [unplacedMembers, settleMembers, settleMembers, Settled.unplaced_andThen,
      settleMember_unplaced path (slot, t), settleMembers_unplaced path rest]
    simp only [Settled.unplaced_map]

theorem settleMember_unplaced (path : Path) (m : Slot × Trace) :
    settleMember path (m.1, m.2.unplaced) = (settleMember path m).unplaced := by
  obtain ⟨slot, t⟩ := m
  rw [settleMember, settleMember]
  split
  · rw [settle_unplaced _ t, Settled.unplaced_position]
  · rw [settle_unplaced path t]

end

end Trace

/-! ## Runs that come to the same -/

variable {σ ν α : Type}

/-- Whether two runs come to the same, up to places. -/
def SameTrace (a b : Trace × σ) : Prop := a.1.unplaced = b.1.unplaced ∧ a.2 = b.2

/-- Whether two runs of selections have traced the same, up to places in the text, in one state. -/
def SameMembers (a b : List (Slot × Trace) × σ) : Prop :=
  Trace.unplacedMembers a.1 = Trace.unplacedMembers b.1 ∧ a.2 = b.2

theorem SameTrace.fails_eq {a b : Trace × σ} (h : SameTrace a b) : a.1.fails = b.1.fails := by
  rw [← Trace.fails_unplaced, h.1, Trace.fails_unplaced]

theorem SameMembers.anyFailsIn_eq {a b : List (Slot × Trace) × σ} (h : SameMembers a b) :
    Trace.anyFailsIn a.1 = Trace.anyFailsIn b.1 := by
  rw [← Trace.anyFailsIn_unplacedMembers, h.1, Trace.anyFailsIn_unplacedMembers]

theorem sameTrace_rfl (a : Trace × σ) : SameTrace a a := ⟨rfl, rfl⟩

theorem sameTrace_traceEach (item : TypeRef) {one one' : α → σ → Trace × σ} {as : List α}
    (h : ∀ a ∈ as, ∀ s, SameTrace (one a s) (one' a s)) (s : σ) :
    let t := traceEach item one as s
    let u := traceEach item one' as s
    Trace.unplacedItems t.1 = Trace.unplacedItems u.1 ∧ t.2 = u.2 := by
  induction as generalizing s with
  | nil => exact ⟨rfl, rfl⟩
  | cons a rest ih =>
    have hone := h a (.head _) s
    rw [traceEach, traceEach]
    dsimp only
    rw [hone.fails_eq]
    cases item.isNonNull && (one' a s).1.fails with
    | true =>
      rw [if_pos rfl, if_pos rfl]
      exact ⟨congrArg (· :: []) hone.1, hone.2⟩
    | false =>
      rw [if_neg Bool.false_ne_true, if_neg Bool.false_ne_true, hone.2]
      obtain ⟨hrest, hstate⟩ := ih (fun b hb => h b (.tail _ hb)) (one' a s).2
      refine ⟨?_, hstate⟩
      dsimp only
      rw [Trace.unplacedItems, Trace.unplacedItems, hone.1, hrest]

namespace Scope

/-- Whether two scopes have the same types and the same root value. -/
structure Shares (scope scope' : Scope σ ν) : Prop where
  registry_eq : scope.registry = scope'.registry
  root_eq : scope.root = scope'.root

/-- Whether a field does the same with written arguments of two requests: they have no values for
the same reason, or the field resolves to the same with their values. -/
def Agrees [Node ν] (scope scope' : Scope σ ν) (o : ObjectType σ ν) (field : Field σ ν)
    (arguments arguments' : Arguments) : Prop :=
  (∃ issue, scope.written arguments = .error issue ∧ scope'.written arguments' = .error issue) ∨
    ∃ values values', scope.written arguments = .ok values ∧
      scope'.written arguments' = .ok values' ∧ ∀ parent s,
        resolveField scope.registry o.name field parent (withDefaults field.arguments values) s =
          resolveField scope.registry o.name field parent (withDefaults field.arguments values') s

theorem agrees_of_written_eq [Node ν] {scope scope' : Scope σ ν} {arguments arguments' : Arguments}
    (h : scope.written arguments = scope'.written arguments') (o : ObjectType σ ν)
    (field : Field σ ν) : scope.Agrees scope' o field arguments arguments' := by
  cases hwritten : scope.written arguments with
  | error issue => exact .inl ⟨issue, hwritten, h ▸ hwritten⟩
  | ok values => exact .inr ⟨values, values, hwritten, h ▸ hwritten, fun _ _ => rfl⟩

end Scope

section

variable {scope scope' : Scope σ ν} {inside inside' : TraceInside σ ν} [Node ν]

theorem sameTrace_traceNamed (hshares : scope.Shares scope') {name : String} {value : Completed ν}
    (hfits : value = .null ∨ value.FitsNamed scope.registry .nothing name)
    (hinside : ∀ o v s, scope.registry.Possible name o → SameTrace (inside o v s) (inside' o v s))
    (s : σ) :
    SameTrace (traceNamed scope inside name value s) (traceNamed scope' inside' name value s) := by
  unfold traceNamed
  rw [← hshares.registry_eq, ← hshares.root_eq]
  split
  · exact sameTrace_rfl _
  · exact sameTrace_rfl _
  · exact sameTrace_rfl _
  · rename_i hfind
    exact hinside _ _ s (.object hfind)
  · rename_i hfind
    exact hinside _ _ s (.object hfind)
  · rename_i i tag v hfind
    obtain ⟨o, ho, hpossible⟩ := Completed.exists_possible_of_fits hfind hfits
    rw [ho]
    exact hinside o v s hpossible
  · exact sameTrace_rfl _

theorem sameTrace_traceValue (hshares : scope.Shares scope') {type : TypeRef} {value : Completed ν}
    (hfits : value.Fits scope.registry .nothing type)
    (hinside : ∀ o v s, scope.registry.Possible type.baseName o →
      SameTrace (inside o v s) (inside' o v s)) (s : σ) :
    SameTrace (traceValue scope inside type value s) (traceValue scope' inside' type value s) := by
  induction type generalizing value s with
  | nonNull inner ih => exact ih hfits.2 hinside s
  | list item ih =>
    unfold traceValue
    split
    · obtain ⟨htraces, hstate⟩ :=
        sameTrace_traceEach item (fun v hv s => ih (hfits.of_mem hv) hinside s) s
      exact ⟨congrArg (Trace.list item) htraces, hstate⟩
    · exact sameTrace_rfl _
  | named name => exact sameTrace_traceNamed hshares hfits hinside s

omit [Node ν] in
theorem unplaced_causeOf (scope scope' : Scope σ ν) (field : Field σ ν) (remaining remaining' : Nat)
    (e : FieldError) : (causeOf scope field remaining e).unplaced =
      (causeOf scope' field remaining' e).unplaced := by
  unfold causeOf
  split <;> rfl

variable {object : ObjectType σ ν} {field : Field σ ν} {parent : ν} {s : σ}
  (hdeclared : scope.registry.field? object.name field.name = some field)
include hdeclared

theorem sameTrace_traceWith (hshares : scope.Shares scope')
    (hinside : ∀ o v s, scope.registry.Possible field.type.baseName o →
      SameTrace (inside o v s) (inside' o v s)) {head head' : FieldHead}
    {arguments arguments' : Entries Value}
    (hresolve : resolveField scope.registry object.name field parent
        (withDefaults field.arguments arguments) s =
      resolveField scope.registry object.name field parent
        (withDefaults field.arguments arguments') s) :
    SameTrace (traceWith scope inside object.name field head parent arguments s)
      (traceWith scope' inside' object.name field head' parent arguments' s) := by
  unfold traceWith
  rw [← hshares.registry_eq, resolveDeclared_eq hdeclared, ← hresolve]
  split
  · exact ⟨congrArg Trace.failure (unplaced_causeOf scope scope' field _ _ _), rfl⟩
  · exact sameTrace_rfl _
  · rename_i heq
    exact sameTrace_traceValue hshares (fits_of_resolveField heq) hinside _

theorem sameTrace_traceAt (hshares : scope.Shares scope')
    (hinside : ∀ o v s, scope.registry.Possible field.type.baseName o →
      SameTrace (inside o v s) (inside' o v s)) {head head' : FieldHead}
    (hkey : head.key = head'.key)
    (hagrees : scope.Agrees scope' object field head.arguments head'.arguments) (parent : ν)
    (s : σ) :
    let a := traceAt scope inside object.name field head parent s
    let b := traceAt scope' inside' object.name field head' parent s
    a.1.1 = b.1.1 ∧ SameTrace (a.1.2, a.2) (b.1.2, b.2) := by
  unfold traceAt
  rw [hkey]
  rcases hagrees with ⟨issue, herror, herror'⟩ | ⟨values, values', hok, hok', hresolve⟩
  · rw [herror, herror']
    exact ⟨rfl, sameTrace_rfl _⟩
  · rw [hok, hok']
    exact ⟨rfl, sameTrace_traceWith hdeclared hshares hinside (hresolve parent s)⟩

end

/-! ## Selections of the same fields -/

namespace Scope

mutual

/-- Whether selections on an object select the same fields under the same keys, with arguments that
are related on every object to which the selections can come. -/
def PairsAll (scope : Scope σ ν)
    (rel : ObjectType σ ν → Field σ ν → Arguments → Arguments → Prop) (o : ObjectType σ ν) :
    List Plan → List Plan → Prop
  | [], [] => True
  | p :: rest, q :: rest' => scope.Pairs rel o p q ∧ scope.PairsAll rel o rest rest'
  | _, _ => False

/-- Whether two selections are alike up to their arguments, which are related. -/
def Pairs (scope : Scope σ ν)
    (rel : ObjectType σ ν → Field σ ν → Arguments → Arguments → Prop) (o : ObjectType σ ν) :
    Plan → Plan → Prop
  | .field head plans, .field head' plans' =>
    head.key = head'.key ∧ head.name = head'.name ∧ ∀ field, o.field? head.name = some field →
      rel o field head.arguments head'.arguments ∧
        ∀ o', scope.registry.Possible field.type.baseName o' → scope.PairsAll rel o' plans plans'
  | .fragment _ condition _ plans, .fragment _ condition' _ plans' =>
    condition = condition' ∧ scope.PairsAll rel o plans plans'
  | .missing _, .missing _ => True
  | _, _ => False

end

end Scope

variable [Node ν] {scope scope' : Scope σ ν}
  {rel : ObjectType σ ν → Field σ ν → Arguments → Arguments → Prop}

mutual

/-- Selections of the same fields come to the same, up to places, if the fields do the same with
their arguments. -/
theorem sameMembers_of_pairsAll (hshares : scope.Shares scope')
    (hrel : ∀ o field arguments arguments', rel o field arguments arguments' →
      scope.Agrees scope' o field arguments arguments') {object : ObjectType σ ν}
    (hobject : scope.registry.object? object.name = some object) (parent : ν)
    {plans plans' : List Plan} (h : scope.PairsAll rel object plans plans') (s : σ) :
    SameMembers (traceAll scope object parent plans s)
      (traceAll scope' object parent plans' s) := by
  cases plans with
  | nil =>
    cases plans' with
    | nil => exact ⟨rfl, rfl⟩
    | cons q rest' => exact h.elim
  | cons p rest =>
    cases plans' with
    | nil => exact h.elim
    | cons q rest' =>
      have hone := sameMembers_of_pairs hshares hrel hobject parent h.1 s
      rw [traceAll, traceAll]
      dsimp only
      -- both runs stop behind the first selection, or neither does
      rw [hone.anyFailsIn_eq]
      split
      · exact hone
      · rw [hone.2]
        have hrest := sameMembers_of_pairsAll hshares hrel hobject parent h.2
          (traceOne scope' object parent q s).2
        refine ⟨?_, hrest.2⟩
        rw [Trace.unplacedMembers_append, Trace.unplacedMembers_append, hone.1, hrest.1]

theorem sameMembers_of_pairs (hshares : scope.Shares scope')
    (hrel : ∀ o field arguments arguments', rel o field arguments arguments' →
      scope.Agrees scope' o field arguments arguments') {object : ObjectType σ ν}
    (hobject : scope.registry.object? object.name = some object) (parent : ν)
    {p q : Plan} (h : scope.Pairs rel object p q) (s : σ) :
    SameMembers (traceOne scope object parent p s) (traceOne scope' object parent q s) := by
  cases p with
  | field head plans =>
    cases q with
    | field head' plans' =>
      obtain ⟨hkey, hname, hfields⟩ := h
      rw [traceOne, traceOne, ← hname, ← hkey]
      split
      · exact ⟨rfl, rfl⟩
      · cases hfield : object.field? head.name with
        | none => exact ⟨rfl, rfl⟩
        | some field =>
          obtain ⟨harguments, hplans⟩ := hfields field hfield
          have hinside (o : ObjectType σ ν) (v : ν) (s : σ)
              (ho : scope.registry.Possible field.type.baseName o) :
              SameTrace (.object (traceAll scope o v plans s).1, (traceAll scope o v plans s).2)
                (.object (traceAll scope' o v plans' s).1, (traceAll scope' o v plans' s).2) := by
            have hmembers := sameMembers_of_pairsAll hshares hrel ho.object?_eq v (hplans o ho) s
            exact ⟨congrArg Trace.object hmembers.1, hmembers.2⟩
          obtain ⟨hslot, hsame, hstate⟩ := sameTrace_traceAt
            (Registry.field?_of_object hobject hfield) hshares hinside hkey
            (hrel _ _ _ _ harguments) parent s
          refine ⟨?_, hstate⟩
          show [(_, Trace.unplaced _)] = [(_, Trace.unplaced _)]
          rw [hslot, hsame]
    | _ => exact h.elim
  | fragment name condition directives plans =>
    cases q with
    | fragment name' condition' directives' plans' =>
      obtain ⟨hcondition, hplans⟩ := h
      rw [traceOne, traceOne, hcondition]
      split
      · exact sameMembers_of_pairsAll hshares hrel hobject parent hplans s
      · exact ⟨rfl, rfl⟩
    | _ => exact h.elim
  | missing name =>
    cases q with
    | missing name' => exact ⟨rfl, rfl⟩
    | _ => exact h.elim

end

/-- Requests that select the same fields have the same response, up to places, and the same effect,
if the fields do the same with their arguments. -/
theorem unplaced_respond_of_pairsAll (hshares : scope.Shares scope')
    (hrel : ∀ o field arguments arguments', rel o field arguments arguments' →
      scope.Agrees scope' o field arguments arguments') {object : ObjectType σ ν}
    (hobject : scope.registry.object? object.name = some object) {plans plans' : List Plan}
    (h : scope.PairsAll rel object plans plans') (s : σ) :
    (respond scope object plans s).1.unplaced = (respond scope' object plans' s).1.unplaced ∧
      (respond scope object plans s).2 = (respond scope' object plans' s).2 := by
  have hsame := sameMembers_of_pairsAll hshares hrel hobject scope.root h s
  have htrace : (trace scope object plans s).unplaced =
      (trace scope' object plans' s).unplaced := by
    rw [trace, trace, ← hshares.root_eq, Trace.unplaced, Trace.unplaced, hsame.1]
  rw [respond_eq_response, respond_eq_response, ← hshares.root_eq]
  refine ⟨?_, hsame.2⟩
  rw [Settled.unplaced_response, Settled.unplaced_response, ← Trace.settle_unplaced,
    ← Trace.settle_unplaced, htrace]

/-! ### Selections that are alike -/

namespace Scope

mutual

/-- Whether selections of two requests select the same fields under the same keys, with the same
values of arguments. -/
def AlikeAll (scope scope' : Scope σ ν) : List Plan → List Plan → Prop
  | [], [] => True
  | p :: rest, q :: rest' => scope.Alike scope' p q ∧ scope.AlikeAll scope' rest rest'
  | _, _ => False

/-- Whether two selections are alike: the same fields with arguments of the same values. -/
def Alike (scope scope' : Scope σ ν) : Plan → Plan → Prop
  | .field head plans, .field head' plans' =>
    head.key = head'.key ∧ head.name = head'.name ∧
      scope.written head.arguments = scope'.written head'.arguments ∧
      scope.AlikeAll scope' plans plans'
  | .fragment _ condition _ plans, .fragment _ condition' _ plans' =>
    condition = condition' ∧ scope.AlikeAll scope' plans plans'
  | .missing _, .missing _ => True
  | _, _ => False

end

omit [Node ν]

mutual

theorem AlikeAll.pairsAll (hrel : ∀ o field arguments arguments',
      scope.written arguments = scope'.written arguments' → rel o field arguments arguments')
    {plans plans' : List Plan} (h : scope.AlikeAll scope' plans plans') (o : ObjectType σ ν) :
    scope.PairsAll rel o plans plans' := by
  cases plans with
  | nil =>
    cases plans' with
    | nil => trivial
    | cons q rest' => exact h.elim
  | cons p rest =>
    cases plans' with
    | nil => exact h.elim
    | cons q rest' => exact ⟨Alike.pairs hrel h.1 o, AlikeAll.pairsAll hrel h.2 o⟩

theorem Alike.pairs (hrel : ∀ o field arguments arguments',
      scope.written arguments = scope'.written arguments' → rel o field arguments arguments')
    {p q : Plan} (h : scope.Alike scope' p q) (o : ObjectType σ ν) : scope.Pairs rel o p q := by
  cases p with
  | field head plans =>
    cases q with
    | field head' plans' =>
      obtain ⟨hkey, hname, hwritten, hplans⟩ := h
      exact ⟨hkey, hname, fun field _ =>
        ⟨hrel o field _ _ hwritten, fun o' _ => AlikeAll.pairsAll hrel hplans o'⟩⟩
    | _ => exact h.elim
  | fragment name condition directives plans =>
    cases q with
    | fragment name' condition' directives' plans' =>
      exact ⟨h.1, AlikeAll.pairsAll hrel h.2 o⟩
    | _ => exact h.elim
  | missing name =>
    cases q with
    | missing name' => trivial
    | _ => exact h.elim

end

end Scope

/-- Responses to selections that are alike are the same, up to places. -/
theorem unplaced_respond (hshares : scope.Shares scope') {object : ObjectType σ ν}
    (hobject : scope.registry.object? object.name = some object) {plans plans' : List Plan}
    (h : scope.AlikeAll scope' plans plans') (s : σ) :
    (respond scope object plans s).1.unplaced = (respond scope' object plans' s).1.unplaced := by
  have hpairs : scope.PairsAll
      (fun _ _ arguments arguments' => scope.written arguments = scope'.written arguments') object
      plans plans' := h.pairsAll (fun _ _ _ _ hwritten => hwritten) object
  exact (unplaced_respond_of_pairsAll hshares
    (fun o field _ _ hwritten => Scope.agrees_of_written_eq hwritten o field) hobject hpairs s).1

end Execution

end Gazette
