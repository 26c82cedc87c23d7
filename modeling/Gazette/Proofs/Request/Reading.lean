import Gazette.Proofs.Request.Selection
import Gazette.Proofs.Schema.Completion

/-!
# Runs that only read

A run only reads below a path if it leaves the state as it is and every error of a field that it
records or fails with lies strictly below the path (`Run.ReadsBelow`).  Selections on an object do
so if the resolvers of its fields leave the state as it is, and so on for all objects that the
fields lead to (`Registry.ReadOnly`, `executeAll_readsBelow`).  The fields of introspection read
(`Introspection.types_read`, `Introspection.rootFields_read`).
-/

namespace Gazette

/-- Whether an error, if it is one of a field, lies strictly below a path. -/
def ResponseError.IsBelow (path : Path) (e : ResponseError) : Prop :=
  ∀ error location, e.cause = .field error location →
    ∃ segment rest, e.path = some (path ++ segment :: rest)

namespace ResponseError

theorem isBelow_request (path : Path) (issue : Issue) (at? : Option Path) :
    IsBelow path ⟨.request issue, at?⟩ := by
  intro error location hcause
  cases hcause

theorem IsBelow.of_append {path : Path} {segment : Segment} {e : ResponseError}
    (h : e.IsBelow (path ++ [segment])) : e.IsBelow path := by
  intro error location hcause
  obtain ⟨next, rest, hpath⟩ := h error location hcause
  refine ⟨segment, next :: rest, ?_⟩
  rw [hpath, List.append_assoc, List.singleton_append]

/-- An error of a field that lies below a path has its path already. -/
theorem IsBelow.withPath {path : Path} {e : ResponseError} (h : e.IsBelow path) (other : Path) :
    IsBelow path { e with path := e.path.or (some other) } := by
  intro error location hcause
  obtain ⟨segment, rest, hpath⟩ := h error location hcause
  exact ⟨segment, rest, by simp [hpath]⟩

end ResponseError

namespace Execution

variable {σ ν α β : Type}

namespace Run

/-! ## Rules for runs -/

/-- What a run from `p` that only reads comes to: the state is the same, recorded errors are added
to those before, and a failure is with an error of some other kind. -/
structure Unchanged (recorded raised : ResponseError → Prop) (p : Progress σ)
    (outcome : Except ResponseError α × Progress σ) : Prop where
  state_eq : outcome.2.state = p.state
  recorded_eq : ∃ added, outcome.2.recorded = p.recorded ++ added ∧ ∀ e ∈ added, recorded e
  raised_of_error : ∀ e, outcome.1 = .error e → raised e

/-- A run that leaves the state as it is, with the errors that it may record and fail with. -/
def Reads (recorded raised : ResponseError → Prop) (run : Run σ α) : Prop :=
  ∀ p, Unchanged recorded raised p (run p)

/-- A run that leaves the state as it is, and whose errors of fields all lie below a path. -/
abbrev ReadsBelow (path : Path) (run : Run σ α) : Prop :=
  Reads (ResponseError.IsBelow path) (ResponseError.IsBelow path) run

variable {recorded raised recorded' raised' : ResponseError → Prop} {path : Path}

theorem exists_added_nil (p : Progress σ) :
    ∃ added, p.recorded = p.recorded ++ added ∧ ∀ e ∈ added, recorded e :=
  ⟨[], (List.append_nil _).symm, by simp⟩

theorem reads_done (a : α) : Reads recorded raised (done a : Run σ α) := by
  intro p
  refine ⟨rfl, exists_added_nil p, fun e he => ?_⟩
  cases he

theorem reads_fail {e : ResponseError} (h : raised e) :
    Reads recorded raised (fail e : Run σ α) := by
  intro p
  refine ⟨rfl, exists_added_nil p, fun e' he' => ?_⟩
  obtain rfl : e = e' := Except.error.inj he'
  exact h

theorem Reads.mono {run : Run σ α} (h : Reads recorded raised run)
    (hrecorded : ∀ e, recorded e → recorded' e) (hraised : ∀ e, raised e → raised' e) :
    Reads recorded' raised' run := by
  intro p
  obtain ⟨added, hadded, hall⟩ := (h p).recorded_eq
  exact ⟨(h p).state_eq, ⟨added, hadded, fun e he => hrecorded e (hall e he)⟩,
    fun e he => hraised e ((h p).raised_of_error e he)⟩

/-- The second run may count on what the first one gives. -/
theorem Reads.andThen {run : Run σ α} {next : α → Run σ β} (h : Reads recorded raised run)
    (hnext : ∀ p a p', run p = (.ok a, p') → Reads recorded raised (next a)) :
    Reads recorded raised (run.andThen next) := by
  intro p
  obtain ⟨hstate, ⟨added, hadded, hall⟩, hraised⟩ := h p
  rcases hrun : run p with ⟨e | a, p'⟩
  · rw [hrun] at hstate hadded hraised
    rw [andThen_of_error hrun]
    refine ⟨hstate, ⟨added, hadded, hall⟩, fun e' he' => ?_⟩
    obtain rfl : e = e' := Except.error.inj he'
    exact hraised e rfl
  · rw [hrun] at hstate hadded
    rw [andThen_of_ok hrun]
    obtain ⟨hstate', ⟨more, hmore, hall'⟩, hraised'⟩ := hnext p a p' hrun p'
    refine ⟨hstate'.trans hstate, ⟨added ++ more, ?_, fun e he => ?_⟩, hraised'⟩
    · rw [hmore, hadded, List.append_assoc]
    · exact (List.mem_append.1 he).elim (hall e) (hall' e)

theorem Reads.mapResult {run : Run σ α} (h : Reads recorded raised run) (f : α → β) :
    Reads recorded raised (run.mapResult f) :=
  h.andThen fun _ a _ _ => reads_done (f a)

/-- What holds of one outcome holds of the outcome with its result changed. -/
theorem Unchanged.mapResult {run : Run σ α} {start p : Progress σ}
    (h : Unchanged recorded raised start (run p)) (f : α → β) :
    Unchanged recorded raised start (run.mapResult f p) := by
  rw [mapResult_apply]
  refine ⟨h.state_eq, h.recorded_eq, fun e he => h.raised_of_error e ?_⟩
  cases hrun : (run p).1 with
  | error e' => rw [hrun] at he; exact congrArg _ (Except.error.inj he)
  | ok a => rw [hrun] at he; cases he

/-- A position that cannot be null hands errors on. -/
theorem Unchanged.position {run : Run σ Value} {start p : Progress σ}
    (h : Unchanged (ResponseError.IsBelow path) (ResponseError.IsBelow path) start (run p))
    {type : TypeRef} (htype : type.isNonNull) (at' : Path) :
    Unchanged (ResponseError.IsBelow path) (ResponseError.IsBelow path) start
      (Run.position type at' run p) := by
  rcases hrun : run p with ⟨e | value, p'⟩
  · rw [hrun] at h
    rw [position_of_error hrun htype]
    refine ⟨h.state_eq, h.recorded_eq, fun e' he' => ?_⟩
    obtain rfl := Except.error.inj he'
    exact (h.raised_of_error e rfl).withPath at'
  · rw [hrun] at h
    rw [position_of_ok hrun]
    refine ⟨h.state_eq, h.recorded_eq, fun e he => ?_⟩
    cases he

/-- An error that has no path yet gets that of the position. -/
theorem Reads.position {run : Run σ Value} {segment : Segment}
    (h : Reads (ResponseError.IsBelow path) (fun e => e.path = none ∨ e.IsBelow path) run)
    (type : TypeRef) : ReadsBelow path (position type (path ++ [segment]) run) := by
  intro p
  obtain ⟨hstate, ⟨added, hadded, hall⟩, hraised⟩ := h p
  unfold Run.position
  rcases hrun : run p with ⟨e | value, p'⟩
  · rw [hrun] at hstate hadded hraised
    have below : ResponseError.IsBelow path
      { e with path := e.path.or (some (path ++ [segment])) } := by
      intro error location hcause
      rcases hraised e rfl with hnone | he
      · exact ⟨segment, [], by simp [hnone]⟩
      · exact he.withPath _ error location hcause
    dsimp only
    split
    · refine ⟨hstate, ⟨added, hadded, hall⟩, fun e' he' => ?_⟩
      obtain rfl := Except.error.inj he'
      exact below
    · refine ⟨hstate, ⟨added ++ [{ e with path := e.path.or (some (path ++ [segment])) }],
        ?_, fun e' he' => ?_⟩, fun e' he' => ?_⟩
      · show p'.recorded ++ _ = _
        rw [hadded, List.append_assoc]
      · rcases List.mem_append.1 he' with he' | he'
        · exact hall e' he'
        · obtain rfl := List.mem_singleton.1 he'
          exact below
      · cases he'
  · rw [hrun] at hstate hadded
    refine ⟨hstate, ⟨added, hadded, hall⟩, fun e he => ?_⟩
    cases he

theorem ReadsBelow.of_append {run : Run σ α} {segment : Segment}
    (h : ReadsBelow (path ++ [segment]) run) : ReadsBelow path run :=
  h.mono (fun _ => .of_append) fun _ => .of_append

theorem ReadsBelow.position {run : Run σ Value} {segment : Segment}
    (h : ReadsBelow (path ++ [segment]) run) (type : TypeRef) :
    ReadsBelow path (position type (path ++ [segment]) run) :=
  Reads.position (h.of_append.mono (fun _ he => he) fun _ => .inr) type

theorem reads_eachFrom {run : Nat → α → Run σ β} {items : List α}
    (h : ∀ i, ∀ a ∈ items, Reads recorded raised (run i a)) (i : Nat) :
    Reads recorded raised (eachFrom run i items) := by
  induction items generalizing i with
  | nil => exact reads_done []
  | cons a rest ih =>
    refine (h i a (by simp)).andThen fun _ b _ _ => ?_
    exact (ih (fun j c hc => h j c (by simp [hc])) (i + 1)).mapResult (b :: ·)

end Run

end Execution

/-! ## Selections -/

variable {σ ν : Type}

/-- Whether the resolver of a field leaves the state as it is. -/
def Field.Reads (f : Field σ ν) : Prop :=
  ∀ resolve, f.resolver = some resolve → ∀ parent arguments s, (resolve parent arguments s).2 = s

/-- Objects whose fields only read, and lead to such objects again. -/
structure Registry.ReadOnly (r : Registry σ ν) (p : ObjectType σ ν → Prop) : Prop where
  registered : ∀ o, p o → r.object? o.name = some o
  reads : ∀ o, p o → ∀ f ∈ o.fields, f.Reads
  leads : ∀ o, p o → ∀ f ∈ o.fields, ∀ o', r.Possible f.type.baseName o' → p o'

namespace Execution

variable [Node ν] {scope : Scope σ ν} {recorded raised : ResponseError → Prop} {path : Path}

theorem snd_resolveField (registry : Registry σ ν) (object : String) {field : Field σ ν}
    (h : field.Reads) (parent : ν) (arguments : Entries Value) (s : σ) :
    (resolveField registry object field parent arguments s).2 = s := by
  have hresult (bound : BoundArguments) : (fieldResult object field parent bound s).2 = s := by
    unfold fieldResult
    cases hresolver : field.resolver with
    | some resolve => exact h resolve hresolver parent bound s
    | none => dsimp only; split <;> rfl
  unfold resolveField
  split
  · rfl
  · rename_i bound hbound
    split
    · rename_i heq
      exact (congrArg Prod.snd heq).symm.trans (hresult bound)
    · rename_i heq
      exact (congrArg Prod.snd heq).symm.trans (hresult bound)

/-- A completed result of a field is one of its type. -/
theorem fits_of_resolveField {registry : Registry σ ν} {object : String} {field : Field σ ν}
    {parent : ν} {arguments : Entries Value} {s s' : σ} {value : Completed ν}
    (h : resolveField registry object field parent arguments s = (.ok (some value), s')) :
    value.Fits registry .nothing field.type := by
  unfold resolveField at h
  split at h
  · cases h
  · split at h
    · cases h
    · exact (Registry.fits_of_complete (congrArg Prod.fst h)).1

/-- Completed values of a type only lead to objects that its values can be. -/
theorem presentNamed_readsBelow {inside : Inside σ ν} {name : String} {value : Completed ν}
    (hfits : value = .null ∨ value.FitsNamed scope.registry .nothing name)
    (hinside : ∀ o v, scope.registry.Possible name o → Run.ReadsBelow path (inside o v path)) :
    Run.ReadsBelow path (presentNamed scope inside name value path) := by
  unfold presentNamed
  split
  · exact Run.reads_done _
  · exact Run.reads_done _
  · exact Run.reads_done _
  · rename_i hfind
    exact hinside _ _ (.object hfind)
  · rename_i hfind
    exact hinside _ _ (.object hfind)
  · rename_i i tag v hfind
    obtain ⟨o, ho, hpossible⟩ := Completed.exists_possible_of_fits hfind hfits
    rw [ho]
    exact hinside o v hpossible
  · exact Run.reads_fail (ResponseError.isBelow_request _ _ _)

theorem present_readsBelow {inside : Inside σ ν} {type : TypeRef} {value : Completed ν}
    (hfits : value.Fits scope.registry .nothing type)
    (hinside : ∀ o v path, scope.registry.Possible type.baseName o →
      Run.ReadsBelow path (inside o v path)) :
    Run.ReadsBelow path (present scope inside type value path) := by
  induction type generalizing value path with
  | nonNull inner ih => exact ih hfits.2 hinside
  | list item ih =>
    unfold present
    split
    · refine (Run.reads_eachFrom (fun i v hv => ?_) 0).mapResult _
      exact (ih (hfits.of_mem hv) hinside).position item
    · exact Run.reads_fail (ResponseError.isBelow_request _ _ _)
  | named name => exact presentNamed_readsBelow hfits fun o v => hinside o v path

omit [Node ν] in
theorem reads_runWritten (arguments : Arguments)
    (hraised : ∀ issue, raised ⟨.request issue, none⟩) :
    Run.Reads recorded raised (runWritten scope arguments) := by
  unfold runWritten
  split
  · exact Run.reads_done _
  · exact Run.reads_fail (hraised _)

section

variable {object : String} {field : Field σ ν}
  (hdeclared : scope.registry.field? object field.name = some field)
include hdeclared

theorem reads_runField (h : field.Reads) (parent : ν) (arguments : Entries Value) (remaining : Nat)
    (hraised : ∀ e, raised ⟨causeOf scope field remaining e, none⟩) :
    Run.Reads recorded raised (runField scope object field parent arguments remaining) := by
  intro p
  have hsnd := snd_resolveField scope.registry object h parent arguments p.state
  unfold runField
  rw [resolveDeclared_eq hdeclared]
  split
  · rename_i heq
    rw [heq] at hsnd
    refine ⟨hsnd, Run.exists_added_nil p, fun e he => ?_⟩
    cases he
  · rename_i e s heq
    rw [heq] at hsnd
    refine ⟨hsnd, Run.exists_added_nil p, fun e' he' => ?_⟩
    obtain rfl := Except.error.inj he'
    exact hraised e

/-- What runs inside a field, where the field has a value. -/
theorem present_of_runField {inside : Inside σ ν} {parent : ν} {arguments : Entries Value}
    {remaining : Nat} {p p' : Progress σ} {value : Completed ν}
    (h : runField scope object field parent arguments remaining p = (.ok (some value), p'))
    (hinside : ∀ o v path, scope.registry.Possible field.type.baseName o →
      Run.ReadsBelow path (inside o v path)) :
    Run.ReadsBelow path (present scope inside field.type value path) := by
  unfold runField at h
  rw [resolveDeclared_eq hdeclared] at h
  split at h
  · rename_i heq
    cases h
    exact present_readsBelow (fits_of_resolveField heq) hinside
  · cases h

end

section

variable {inside : Inside σ ν} {object : String} {field : Field σ ν} {head : FieldHead} {parent : ν}
  (hdeclared : scope.registry.field? object field.name = some field)
include hdeclared

theorem reads_runWith (hfield : field.Reads)
    (hinside : ∀ o v path, scope.registry.Possible field.type.baseName o →
      Run.ReadsBelow path (inside o v path))
    (hcause : ∀ e, raised ⟨causeOf scope field head.remaining e, none⟩)
    (hbelow : ∀ e : ResponseError, e.IsBelow path → raised e) (arguments : Entries Value) :
    Run.Reads (ResponseError.IsBelow path) raised
      (runWith scope inside object field head parent path arguments) := by
  refine (reads_runField hdeclared hfield parent _ head.remaining hcause).andThen
    fun p value p' hvalue => ?_
  cases value with
  | none => exact Run.reads_done _
  | some value => exact (present_of_runField hdeclared hvalue hinside).mono (fun _ he => he) hbelow

theorem runAt_readsBelow (hfield : field.Reads)
    (hinside : ∀ o v path, scope.registry.Possible field.type.baseName o →
      Run.ReadsBelow path (inside o v path)) (path : Path) :
    Run.ReadsBelow path (runAt scope inside object field head parent path) := by
  unfold runAt
  cases hrole : field.role with
  | ordinary =>
    refine (reads_runWritten _ fun _ => ResponseError.isBelow_request _ _ _).andThen
      fun _ values _ _ => Run.Reads.position ?_ field.type
    have pending : Run.Reads (ResponseError.IsBelow (path ++ [.key head.key]))
        (fun e => e.path = none ∨ e.IsBelow path) (runWith scope inside object field head parent
          (path ++ [.key head.key]) values) :=
      reads_runWith hdeclared hfield hinside (fun _ => .inl rfl) (fun _ he => .inr he.of_append)
        values
    exact pending.mono (fun _ => .of_append) fun _ he => he
  | gateway =>
    refine (reads_runWritten _ fun _ => ResponseError.isBelow_request _ _ _).andThen
      fun _ values _ _ => ?_
    refine reads_runWith hdeclared hfield hinside (fun e => ?_) (fun _ he => he) values
    simp only [causeOf, hrole]
    exact ResponseError.isBelow_request _ _ _
  | introspective =>
    refine Run.ReadsBelow.position ?_ field.type
    refine (reads_runWritten _ fun _ => ResponseError.isBelow_request _ _ _).andThen
      fun _ values _ _ => ?_
    refine reads_runWith hdeclared hfield hinside (fun e => ?_) (fun _ he => he) values
    simp only [causeOf, hrole]
    exact ResponseError.isBelow_request _ _ _

end

variable {p : ObjectType σ ν → Prop}

mutual

/-- Selections on an object whose fields only read do nothing else. -/
theorem executeAll_readsBelow (h : scope.registry.ReadOnly p) {object : ObjectType σ ν}
    (hobject : p object) (parent : ν) (path : Path) (plans : List Plan) :
    Run.ReadsBelow path (executeAll scope object parent path plans) := by
  cases plans with
  | nil => rw [executeAll]; exact Run.reads_done []
  | cons plan rest =>
    rw [executeAll]
    exact (executeOne_readsBelow h hobject parent path plan).andThen fun _ first _ _ =>
      (executeAll_readsBelow h hobject parent path rest).mapResult (first ++ ·)

theorem executeOne_readsBelow (h : scope.registry.ReadOnly p) {object : ObjectType σ ν}
    (hobject : p object) (parent : ν) (path : Path) (plan : Plan) :
    Run.ReadsBelow path (executeOne scope object parent path plan) := by
  cases plan with
  | field head plans =>
    rw [executeOne]
    split
    · exact Run.reads_done _
    · split
      · exact Run.reads_done _
      · rename_i field hfield
        have hmem : field ∈ object.fields := List.mem_of_find?_eq_some hfield
        refine (runAt_readsBelow (Registry.field?_of_object (h.registered object hobject) hfield)
          (h.reads object hobject field hmem) (fun o v path ho => ?_) path).mapResult _
        have leads : p o := h.leads object hobject field hmem o ho
        exact (executeAll_readsBelow h leads v path plans).mapResult _
  | fragment name condition directives plans =>
    rw [executeOne]
    split
    · exact executeAll_readsBelow h hobject parent path plans
    · exact Run.reads_done []
  | missing name => rw [executeOne]; exact Run.reads_done []

end

end Execution

/-! ## Introspection -/

theorem Introspection.partField_reads (k : Knowledge) (name : String) (type : TypeRef)
    (arguments : List ArgumentSpec) (description : Option String) :
    (partField (σ := σ) (ν := ν) k name type arguments description).Reads := by
  intro resolve hresolve parent bound s
  obtain rfl := Option.some.inj hresolve
  cases parent <;> rfl

theorem Introspection.types_read (k : Knowledge) {o : ObjectType σ (Subject ν)}
    (ho : .object o ∈ types k) : ∀ f ∈ o.fields, f.Reads := by
  simp only [types, List.mem_cons, NamedType.object.injEq, reduceCtorEq, List.not_mem_nil, or_false]
    at ho
  rcases ho with rfl | rfl | rfl | rfl | rfl | rfl
  all_goals
    simp only [List.forall_mem_cons, partField_reads, List.not_mem_nil, false_imp_iff, implies_true,
      and_self]

theorem Introspection.rootFields_read (k : Knowledge) :
    ∀ f ∈ rootFields (σ := σ) (ν := ν) k, f.Reads := by
  intro f hf resolve hresolve parent arguments s
  simp only [rootFields, List.mem_cons, List.not_mem_nil, or_false] at hf
  rcases hf with rfl | rfl
  · obtain rfl := Option.some.inj hresolve
    rfl
  · obtain rfl := Option.some.inj hresolve
    rfl

theorem Registry.liftField_reads {root : ν} {f : Field σ ν} (h : f.Reads) :
    (liftField root f).Reads := by
  intro resolve hresolve parent arguments s
  obtain ⟨resolve', hresolve', rfl⟩ := Option.map_eq_some_iff.1 hresolve
  exact h resolve' hresolve' _ arguments s

/-- An object of a registry with introspection is one of the registry, where the query root has
further fields, or one of introspection. -/
theorem Registry.mem_withIntrospection {r : Registry σ ν} {root : ν}
    {o : ObjectType σ (Subject ν)} (h : .object o ∈ (r.withIntrospection root).types) :
    (∃ b, .object b ∈ r.types ∧ o = {
        name := b.name
        description := b.description
        implements := b.implements
        fields := b.fields.map (liftField root) ++
          if b.name = r.query then Introspection.rootFields r.knowledge else [] }) ∨
      .object o ∈ Introspection.types r.knowledge := by
  rcases List.mem_append.1 h with h | h
  · obtain ⟨t, ht, heq⟩ := List.mem_map.1 h
    cases t with
    | object b => exact .inl ⟨b, ht, (NamedType.object.inj heq).symm⟩
    | _ => cases heq
  · exact .inr h

end Gazette
