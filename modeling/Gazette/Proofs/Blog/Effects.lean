import Gazette.Proofs.Blog.Creations

/-!
# Effects of requests

What a request does to the store (`effects_of_request`).  A query leaves it as it is.  The creations
of a mutation are made one after the other, up to the first selection that fails (`Performed`); one
that is refused leaves no trace.
-/

namespace Gazette

open Store (Call Record)

/-- The store accepts each of the calls, made one after the other. -/
def Store.Accepts (s : Store) : List Call → Prop
  | [] => True
  | c :: rest => (∃ r, (c.run s).1 = .ok r) ∧ Accepts (c.run s).2 rest

namespace Blog

open Execution

/-! ## Mutations -/

/-- All the fields before run, and then the run of the field fails. -/
def FailsAfter (scope : BlogScope) (p : Progress Store) (before : List FieldPlan) (f : FieldPlan) :
    Prop :=
  ∃ results p' e p'',
    executeFields scope mutationObject scope.root [] before p = (.ok results, p') ∧
    executeOne scope mutationObject scope.root [] f.toPlan p' = (.error e, p'')

/-- How `calls` account for a mutation of `fields` from `p` on, with the errors of the response,
whether it is completed, and the store after it. -/
structure Performed (scope : BlogScope) (fields : List FieldPlan) (p : Progress Store)
    (errors : List ResponseError) (completed : Bool) (after : Store) (calls : List Call) :
    Prop where
  /-- The calls are those of the first creations. -/
  calls_eq : ((creations fields).take calls.length).map (callOf? scope) = calls.map some
  store_eq : after = p.state.after (calls.map .call)
  accepted : p.state.Accepts calls.dropLast
  /-- No call is made behind the first field that fails. -/
  stops : ∀ before f later, fields = before ++ f :: later → FailsAfter scope p before f →
    calls.length ≤ (creations (before ++ [f])).length
  /-- A creation that is reported as refused is the last one, and leaves no trace. -/
  refused : ∀ e ∈ errors, ∀ error location key, e.cause = .field (.store error) location →
    e.path = some [.key key] → ∃ earlier c, calls = earlier ++ [c] ∧
      ((creations fields)[earlier.length]?).map FieldPlan.key = some key ∧
      (c.run (p.state.after (earlier.map .call))).1 = .error error ∧
      after = p.state.after (earlier.map .call)
  complete : completed → calls.length = (creations fields).length ∧ p.state.Accepts calls

section

variable {scope : BlogScope} {f : FieldPlan} {rest : List FieldPlan} {p p' : Progress Store}
  {errors : List ResponseError} {completed : Bool} {after : Store} {calls : List Call}
  {results : List (String × Value)}

theorem creations_cons (hf : isCreation f) (rest : List FieldPlan) :
    creations (f :: rest) = f :: creations rest :=
  List.filter_cons_of_pos hf

theorem FailsAfter.tail {before : List FieldPlan} {g : FieldPlan}
    (hok : executeOne scope mutationObject scope.root [] f.toPlan p = (.ok results, p'))
    (h : FailsAfter scope p (f :: before) g) : FailsAfter scope p' before g := by
  obtain ⟨all, q, e, q', hbefore, hg⟩ := h
  rw [executeFields_cons_of_ok _ _ _ _ hok] at hbefore
  obtain ⟨hresults, rfl⟩ := Prod.mk.inj hbefore
  obtain ⟨others, hothers, -⟩ := map_eq_ok_iff.1 hresults
  exact ⟨others, _, e, q', Prod.ext hothers rfl, hg⟩

theorem not_failsAfter_nil
    (hok : executeOne scope mutationObject scope.root [] f.toPlan p = (.ok results, p')) :
    ¬ FailsAfter scope p [] f := by
  rintro ⟨_, q, e, q', hnil, hf⟩
  obtain ⟨-, rfl⟩ := Prod.mk.inj hnil
  rw [hok] at hf
  cases hf

/-- If the first field succeeds, the one that fails is among the others. -/
theorem FailsAfter.exists_tail {before later : List FieldPlan} {g : FieldPlan}
    (hok : executeOne scope mutationObject scope.root [] f.toPlan p = (.ok results, p'))
    (h : FailsAfter scope p before g) (heq : f :: rest = before ++ g :: later) :
    ∃ others, before = f :: others ∧ rest = others ++ g :: later ∧
      FailsAfter scope p' others g := by
  cases before with
  | nil =>
    obtain ⟨rfl, rfl⟩ := List.cons.inj heq
    exact absurd h (not_failsAfter_nil hok)
  | cons _ others =>
    obtain ⟨rfl, hrest⟩ := List.cons.inj heq
    exact ⟨others, rfl, hrest, h.tail hok⟩

theorem performed_nil : Performed scope [] p [] true p.state [] where
  calls_eq := rfl
  store_eq := rfl
  accepted := trivial
  stops before f later h := by simp at h
  refused e he := by simp at he
  complete _ := ⟨rfl, trivial⟩

/-- A field that creates nothing changes nothing. -/
theorem Performed.skip (hf : ¬ isCreation f)
    (hok : executeOne scope mutationObject scope.root [] f.toPlan p = (.ok results, p))
    (h : Performed scope rest p errors completed after calls) :
    Performed scope (f :: rest) p errors completed after calls := by
  have hcreations (fields : List FieldPlan) : creations (f :: fields) = creations fields :=
    List.filter_cons_of_neg hf
  refine ⟨?_, h.store_eq, h.accepted, fun before g later heq hfails => ?_, ?_, ?_⟩
  · rw [hcreations]
    exact h.calls_eq
  · obtain ⟨others, rfl, hrest, hfails⟩ := hfails.exists_tail hok heq
    rw [List.cons_append, hcreations]
    exact h.stops others g later hrest hfails
  · rw [hcreations]
    exact h.refused
  · rw [hcreations]
    exact h.complete

theorem not_path_of_isBelow {e : ResponseError} {key key' : String} (h : e.IsBelow [.key key])
    {error : StoreError} {location : Location} (hcause : e.cause = .field (.store error) location) :
    e.path ≠ some [.key key'] := by
  obtain ⟨segment, rest, hpath⟩ := h _ _ hcause
  rw [hpath]
  simp

/-- A creation whose arguments are wrong makes no call. -/
theorem performed_unread {e : ResponseError}
    (hcause : ∀ error location, e.cause ≠ .field (.store error) location) :
    Performed scope (f :: rest) p [e] false p.state [] where
  calls_eq := rfl
  store_eq := rfl
  accepted := trivial
  stops _ _ _ _ _ := Nat.zero_le _
  refused e' he' error location _ h := by
    obtain rfl := List.mem_singleton.1 he'
    exact absurd h (hcause error location)
  complete hdone := by cases hdone

theorem length_creations_pos {before later : List FieldPlan} {g : FieldPlan} (hf : isCreation f)
    (h : f :: rest = before ++ g :: later) : 1 ≤ (creations (before ++ [g])).length := by
  cases before with
  | nil =>
    obtain ⟨rfl, -⟩ := List.cons.inj h
    rw [List.nil_append, creations_cons hf, List.length_cons]
    omega
  | cons _ before =>
    obtain ⟨rfl, -⟩ := List.cons.inj h
    rw [List.cons_append, creations_cons hf, List.length_cons]
    omega

/-- The call of a creation is refused. -/
theorem performed_refused (hf : isCreation f) {c : Call} {error : StoreError} {location : Location}
    (hcall : callOf? scope f = some c) (hrun : (c.run p.state).1 = .error error) :
    Performed scope (f :: rest) p [⟨.field (.store error) location, some [.key f.key]⟩] false
      p.state
      [c] where
  calls_eq := by simp [creations_cons hf, hcall]
  store_eq := (Store.run_eq_of_error hrun).symm
  accepted := trivial
  stops _ _ _ h _ := length_creations_pos hf h
  refused e' he' error' location' key hcause hpath := by
    obtain rfl := List.mem_singleton.1 he'
    obtain ⟨hstore, -⟩ := Cause.field.inj hcause
    obtain rfl := FieldError.store.inj hstore
    obtain rfl : f.key = key := by simpa using hpath
    exact ⟨[], c, rfl, by simp [creations_cons hf], hrun, rfl⟩
  complete hdone := by cases hdone

/-- A creation is made, and something that is selected inside it fails. -/
theorem performed_stopped (hf : isCreation f) {c : Call} (hcall : callOf? scope f = some c)
    (hstate : p'.state = (c.run p.state).2) (hbelow : ∀ e ∈ errors, e.IsBelow [.key f.key]) :
    Performed scope (f :: rest) p errors false p'.state [c] where
  calls_eq := by simp [creations_cons hf, hcall]
  store_eq := hstate
  accepted := trivial
  stops _ _ _ h _ := length_creations_pos hf h
  refused e he _ _ _ hcause hpath := absurd hpath (not_path_of_isBelow (hbelow e he) hcause)
  complete hdone := by cases hdone

theorem accepts_cons {s : Store} {c : Call} {record : Record} (hrun : (c.run s).1 = .ok record)
    (h : (c.run s).2.Accepts calls) : s.Accepts (c :: calls) := ⟨⟨record, hrun⟩, h⟩

/-- A creation is made and shown, and the other fields go on from there. -/
theorem Performed.cons (hf : isCreation f) {c : Call} {record : Record}
    {added : List ResponseError} (hcall : callOf? scope f = some c)
    (hrun : (c.run p.state).1 = .ok record) (hstate : p'.state = (c.run p.state).2)
    (hok : executeOne scope mutationObject scope.root [] f.toPlan p = (.ok results, p'))
    (hbelow : ∀ e ∈ added, e.IsBelow [.key f.key])
    (h : Performed scope rest p' errors completed after calls) {all : List ResponseError}
    (hall : ∀ e ∈ all, e ∈ added ∨ e ∈ errors) :
    Performed scope (f :: rest) p all completed after (c :: calls) := by
  have hcreations := creations_cons hf rest
  refine ⟨?_, ?_, ?_, fun before g later heq hfails => ?_, ?_, fun hdone => ?_⟩
  · rw [hcreations, List.length_cons, List.take_succ_cons, List.map_cons, List.map_cons, hcall,
      h.calls_eq]
  · rw [h.store_eq, hstate]
    rfl
  · cases calls with
    | nil => trivial
    | cons d calls =>
      rw [List.dropLast_cons_cons]
      exact accepts_cons hrun (hstate ▸ h.accepted)
  · obtain ⟨others, rfl, hrest, hfails⟩ := hfails.exists_tail hok heq
    rw [List.cons_append, creations_cons hf, List.length_cons, List.length_cons]
    exact Nat.succ_le_succ (h.stops others g later hrest hfails)
  · intro e he error location key hcause hpath
    rcases hall e he with he | he
    · exact absurd hpath (not_path_of_isBelow (hbelow e he) hcause)
    · obtain ⟨earlier, d, rfl, hkey, hrefused, hafter⟩ :=
        h.refused e he error location key hcause hpath
      refine ⟨c :: earlier, d, rfl, ?_, ?_, ?_⟩
      · simpa [hcreations] using hkey
      · rwa [hstate] at hrefused
      · rwa [hstate] at hafter
  · obtain ⟨hlength, haccepts⟩ := h.complete hdone
    rw [hcreations, List.length_cons, List.length_cons, hlength]
    exact ⟨rfl, accepts_cons hrun (hstate ▸ haccepts)⟩

end

variable {scope : BlogScope}

/-- Whether a name is that of a field of the mutation root. -/
theorem field?_of_isCreation {f : FieldPlan} (hf : isCreation f) :
    (∃ field, mutationObject.field? f.head.name = some field) ∧
      f.head.name ≠ Plan.typeNameField := by
  simp only [isCreation, Bool.or_eq_true, decide_eq_true_eq] at hf
  rcases hf with h | h
  · rw [h]
    exact ⟨⟨_, rfl⟩, by decide⟩
  · rw [h]
    exact ⟨⟨_, rfl⟩, by decide⟩

theorem executeOne_of_not_isCreation (scope : BlogScope) {f : FieldPlan} (hf : ¬ isCreation f)
    (p : Progress Store) :
    ∃ results, executeOne scope mutationObject scope.root [] f.toPlan p = (.ok results, p) := by
  simp only [isCreation, Bool.or_eq_true, decide_eq_true_eq, not_or] at hf
  rw [FieldPlan.toPlan, executeOne]
  split
  · exact ⟨_, rfl⟩
  · have hnone : mutationObject.field? f.head.name = none := by
      simp only [ObjectType.field?, mutationObject, List.find?_eq_none, List.mem_cons,
        List.not_mem_nil, or_false, forall_eq_or_imp, forall_eq, decide_eq_true_eq]
      exact ⟨Ne.symm hf.1, Ne.symm hf.2⟩
    rw [hnone]
    exact ⟨[], rfl⟩

/-- Fields of the mutation root perform creations in order, up to the first field that fails. -/
theorem executeFields_performed (hregistry : scope.registry = Service.schema.executable)
    (fields : List FieldPlan) (p : Progress Store) :
    let outcome := executeFields scope mutationObject scope.root [] fields p
    ∃ added calls, outcome.2.recorded = p.recorded ++ added ∧
      Performed scope fields p (raised outcome.1 ++ added) outcome.1.isOk outcome.2.state
        calls := by
  induction fields generalizing p with
  | nil => exact ⟨[], [], (List.append_nil _).symm, performed_nil⟩
  | cons f rest ih =>
    intro outcome
    by_cases hf : isCreation f
    · obtain ⟨⟨field, hfield⟩, hname⟩ := field?_of_isCreation hf
      have hstop {e : ResponseError} {p' : Progress Store}
          (h : executeOne scope mutationObject scope.root [] f.toPlan p = (.error e, p')) :
          outcome = (.error e, p') := Run.andThen_of_error h
      cases executeOne_creation hregistry hfield hname scope.root p with
      | unread e hcall houtcome hcause =>
        rw [hstop houtcome]
        exact ⟨[], [], (List.append_nil _).symm, performed_unread hcause⟩
      | refused c error location hcall hrun houtcome =>
        rw [hstop houtcome]
        exact ⟨[], [c], (List.append_nil _).symm, performed_refused hf hcall hrun⟩
      | made c record hcall hrun houtcome =>
        obtain ⟨hstate, ⟨added, hadded, hbelow⟩, hraised⟩ := houtcome
        rcases hone : executeOne scope mutationObject scope.root [] f.toPlan p with
          ⟨e | results, p'⟩
        · rw [hone] at hstate hadded hraised
          rw [hstop hone]
          refine ⟨added, [c], hadded, performed_stopped hf hcall hstate fun e' he' => ?_⟩
          rcases List.mem_cons.1 he' with rfl | he'
          · exact hraised e' rfl
          · exact hbelow e' he'
        · rw [hone] at hstate hadded
          obtain ⟨more, calls, hmore, h⟩ := ih p'
          rw [show outcome = _ from executeFields_cons_of_ok _ _ _ _ hone rest, raised_map,
            isOk_map]
          refine ⟨added ++ more, c :: calls, ?_,
            h.cons hf hcall hrun hstate hone hbelow fun e he => ?_⟩
          · rw [hmore, hadded, List.append_assoc]
          · simp only [List.mem_append] at he ⊢
            tauto
    · obtain ⟨results, hok⟩ := executeOne_of_not_isCreation scope hf p
      obtain ⟨added, calls, hadded, h⟩ := ih p
      rw [show outcome = _ from executeFields_cons_of_ok _ _ _ _ hok rest, raised_map, isOk_map]
      exact ⟨added, calls, hadded, h.skip hf hok⟩

/-! ## Requests -/

/-- Selections on the query root leave the store as it is. -/
theorem snd_respond_query (hregistry : scope.registry = Service.schema.executable)
    {root : ObjectType Store (Subject BlogNode)}
    (hroot : Service.schema.executable.object? queryType = some root) (plans : List Plan)
    (s : Store) :
    (Execution.respond scope root plans s).2 = s := by
  have hname : root.name = queryType := (Registry.mem_of_object? hroot).2
  have hreader : IsReader root := by rw [IsReader, hname]; exact ⟨hroot, by decide⟩
  have hreads := executeAll_readsBelow (hregistry ▸ readOnly) hreader scope.root [] plans ⟨s, []⟩
  rw [executeAll_eq] at hreads
  exact (respond_eq scope root plans s).1.trans hreads.state_eq

theorem respond_mutation (hregistry : scope.registry = Service.schema.executable)
    (plans : List Plan) (s : Store) :
    let outcome := Execution.respond scope mutationObject plans s
    ∃ calls, Performed scope (Plan.fieldsOn mutationObject plans) ⟨s, []⟩ outcome.1.errors
      (!outcome.1.data.isNull) outcome.2 calls := by
  intro outcome
  obtain ⟨hstate, herrors, hdata⟩ := respond_eq scope mutationObject plans s
  obtain ⟨added, calls, hadded, h⟩ := executeFields_performed hregistry
    (Plan.fieldsOn mutationObject plans) ⟨s, []⟩
  rw [List.nil_append] at hadded
  rw [← hadded, ← herrors, ← hdata, ← hstate] at h
  exact ⟨calls, h⟩

section

variable {request : Request} {selected : Schema.Selected Store (Subject BlogNode)}

/-- What is selected is a query or a mutation, as the blog has no other root. -/
theorem root_of_select (hselect : Service.schema.select request = .ok selected) :
    (selected.operation.kind = .query ∧
      Service.schema.executable.object? queryType = some selected.root) ∨
    (selected.operation.kind = .mutation ∧ selected.root = mutationObject) := by
  have hroot := Schema.rootOf?_of_select hselect
  cases hkind : selected.operation.kind with
  | query =>
    rw [hkind] at hroot
    exact .inl ⟨rfl, hroot⟩
  | mutation =>
    rw [hkind] at hroot
    exact .inr ⟨rfl, (Option.some.inj hroot).symm⟩
  | subscription =>
    rw [hkind] at hroot
    cases hroot

theorem root_eq_mutationObject (hselect : Service.schema.select request = .ok selected)
    (hkind : selected.operation.kind = .mutation) : selected.root = mutationObject := by
  rcases root_of_select hselect with ⟨hquery, -⟩ | ⟨-, hroot⟩
  · cases hquery.symm.trans hkind
  · exact hroot

end

/-- A request that is refused, or that selects a query, leaves the store as it is.  One that selects
a mutation makes calls for the first of its creations, in order, and stops where a field fails. -/
theorem effects_of_request (request : Request) (s : Store) :
    let outcome := Service.schema.respond request s
    match Service.schema.select request with
    | .error _ => outcome.2 = s
    | .ok selected =>
      (selected.operation.kind = .query ∧ outcome.2 = s) ∨
        (selected.operation.kind = .mutation ∧ ∃ calls,
          Performed (Service.schema.scope request selected.operation)
            (Plan.fieldsOn mutationObject selected.plans) ⟨s, []⟩ outcome.1.errors
            (!outcome.1.data.isNull) outcome.2 calls) := by
  intro outcome
  split
  · rename_i issues hselect
    rw [show outcome = _ from Schema.respond_of_select_error hselect s]
  · rename_i selected hselect
    have hroot := Schema.rootOf?_of_select hselect
    rw [show outcome = _ from Schema.respond_of_select_ok hselect s]
    cases hkind : selected.operation.kind with
    | query =>
      rw [hkind] at hroot
      exact .inl ⟨rfl, snd_respond_query rfl hroot selected.plans s⟩
    | mutation =>
      rw [hkind] at hroot
      have hobject : selected.root = mutationObject := (Option.some.inj hroot).symm
      rw [hobject]
      exact .inr ⟨rfl, respond_mutation rfl selected.plans s⟩
    | subscription =>
      rw [hkind] at hroot
      cases hroot

/-- A mutation of three creations, the second of which repeats an id. -/
def repeatingMutation : Request where
  query :=
    "mutation \x7b a: createAuthor(id: \"a\", name: \"A\") \x7b id \x7d" ++
      " b: createAuthor(id: \"a\", name: \"B\") \x7b id \x7d" ++
      " c: createAuthor(id: \"c\", name: \"C\") \x7b id \x7d \x7d"

/-- The first creation stays, and the third one is not made. -/
theorem effects_of_request_repeating :
    let s := Store.empty .epoch
    let outcome := Service.schema.respond repeatingMutation s
    outcome.2.authors = [⟨"a", "A", none⟩] ∧ ∃ selected calls,
      Service.schema.select repeatingMutation = .ok selected ∧
        Performed (Service.schema.scope repeatingMutation selected.operation)
          (Plan.fieldsOn mutationObject selected.plans) ⟨s, []⟩ outcome.1.errors
          (!outcome.1.data.isNull) outcome.2 calls := by
  have performs (request : Request) (s : Store) (authors : List Author)
      (hauthors : (Service.schema.respond request s).2.authors = authors)
      (hne : authors ≠ s.authors) :
      ∃ selected calls, Service.schema.select request = .ok selected ∧
        Performed (Service.schema.scope request selected.operation)
          (Plan.fieldsOn mutationObject selected.plans) ⟨s, []⟩
          (Service.schema.respond request s).1.errors
          (!(Service.schema.respond request s).1.data.isNull)
          (Service.schema.respond request s).2 calls := by
    have hchanged : (Service.schema.respond request s).2 ≠ s :=
      fun heq => hne (hauthors.symm.trans (congrArg Store.authors heq))
    have h := effects_of_request request s
    cases hselect : Service.schema.select request with
    | error issues =>
      rw [hselect] at h
      exact absurd h hchanged
    | ok selected =>
      rw [hselect] at h
      rcases h with ⟨-, hsame⟩ | ⟨-, calls, hperformed⟩
      · exact absurd hsame hchanged
      · exact ⟨selected, calls, rfl, hperformed⟩
  have hauthors : (Service.schema.respond repeatingMutation (Store.empty .epoch)).2.authors =
      [⟨"a", "A", none⟩] := by decide +kernel
  have hne : [(⟨"a", "A", none⟩ : Author)] ≠ (Store.empty .epoch).authors := List.cons_ne_nil _ _
  exact ⟨hauthors, performs _ _ _ hauthors hne⟩

end Blog

end Gazette
