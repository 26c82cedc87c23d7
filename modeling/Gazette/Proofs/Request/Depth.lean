import Gazette.Proofs.Request.Accepted

/-!
# How deep requests go

Fragments may refer to themselves, and so may types; what bounds a run is the document.  Writing out
its fragments ends within a limit of levels or not at all (`Plan.expand_eq_some_iff`), and then
fields are nested only as deep as the limit for them allows.  So whatever fields below that would
do, a run does not come to them (`Execution.executeAllTo_eq`), and the paths of its errors go
through no more fields (`Schema.runs_within_limit`).
-/

namespace Gazette

/-! ## Writing out fragments -/

namespace Plan

mutual

/-- Whether plans are selections with their fragments written out, and the fragments in these. -/
inductive Unfolds (d : Document) : List Selection → List Plan → Prop
  | nil : Unfolds d [] []
  | cons {s : Selection} {p : Plan} {rest : List Selection} {plans : List Plan}
    (h : UnfoldsOne d s p) (hrest : Unfolds d rest plans) : Unfolds d (s :: rest) (p :: plans)

/-- Whether a plan is one selection written out. -/
inductive UnfoldsOne (d : Document) : Selection → Plan → Prop
  | field {head : FieldHead} {selections : List Selection} {plans : List Plan}
    (h : Unfolds d selections plans) : UnfoldsOne d (.field head selections) (.field head plans)
  | spread {name : String} {directives : List Directive} {f : Fragment} {plans : List Plan}
    (hf : d.fragment? name = some f) (h : Unfolds d f.selections plans) :
    UnfoldsOne d (.spread name directives)
      (.fragment (some name) (some f.condition) directives plans)
  | missing {name : String} {directives : List Directive} (hf : d.fragment? name = none) :
    UnfoldsOne d (.spread name directives) (.missing name)
  | inline {condition : Option String} {directives : List Directive}
    {selections : List Selection} {plans : List Plan} (h : Unfolds d selections plans) :
    UnfoldsOne d (.inline condition directives selections)
      (.fragment none condition directives plans)

end

mutual

/-- How many levels of selections there are inside plans. -/
def levels : List Plan → Nat
  | [] => 0
  | p :: rest => max p.levelsOne (levels rest)

/-- How many levels of selections are inside one selection. -/
def levelsOne : Plan → Nat
  | field _ plans => if plans.isEmpty then 0 else levels plans + 1
  | fragment _ _ _ plans => levels plans + 1
  | missing _ => 0

end

/-- How selections inside other ones are written out, where these may have `limit` levels. -/
def expandInside (d : Document) : (limit : Nat) → List Selection → Option (List Plan)
  | 0 => fun _ => none
  | limit + 1 => expand d limit

variable {d : Document}

theorem expand_eq (limit : Nat) (selections : List Selection) :
    expand d limit selections = selections.mapM (expandOne d (expandInside d limit)) := by
  cases limit <;> rfl

theorem expand_cons_eq_some_iff {limit : Nat} {s : Selection} {rest : List Selection}
    {plans : List Plan} : expand d limit (s :: rest) = some plans ↔
      ∃ p more, expandOne d (expandInside d limit) s = some p ∧ expand d limit rest = some more ∧
        plans = p :: more := by
  simp only [expand_eq, List.mapM_cons, Option.bind_eq_bind, Option.bind_eq_some_iff,
    Option.pure_def, Option.some.injEq]
  constructor
  · rintro ⟨p, hp, more, hmore, rfl⟩
    exact ⟨p, more, hp, hmore, rfl⟩
  · rintro ⟨p, more, hp, hmore, rfl⟩
    exact ⟨p, hp, more, hmore, rfl⟩

theorem unfoldsOne_of_expandOne {inside : List Selection → Option (List Plan)} {limit : Nat}
    (hinside : ∀ selections plans, inside selections = some plans →
      Unfolds d selections plans ∧ levels plans < limit) {s : Selection} {p : Plan}
    (h : expandOne d inside s = some p) : UnfoldsOne d s p ∧ p.levelsOne ≤ limit := by
  cases s with
  | field head selections =>
    cases selections with
    | nil =>
      obtain rfl := Option.some.inj h
      exact ⟨.field .nil, Nat.zero_le _⟩
    | cons first rest =>
      obtain ⟨plans, hplans, rfl⟩ := Option.map_eq_some_iff.1 h
      obtain ⟨hunfolds, hlevels⟩ := hinside _ _ hplans
      refine ⟨.field hunfolds, ?_⟩
      rw [levelsOne]
      split
      · exact Nat.zero_le _
      · exact hlevels
  | spread name directives =>
    rw [expandOne] at h
    split at h
    · rename_i f hf
      obtain ⟨plans, hplans, rfl⟩ := Option.map_eq_some_iff.1 h
      obtain ⟨hunfolds, hlevels⟩ := hinside _ _ hplans
      exact ⟨.spread hf hunfolds, hlevels⟩
    · rename_i hf
      obtain rfl := Option.some.inj h
      exact ⟨.missing hf, Nat.zero_le _⟩
  | inline condition directives selections =>
    obtain ⟨plans, hplans, rfl⟩ := Option.map_eq_some_iff.1 h
    obtain ⟨hunfolds, hlevels⟩ := hinside _ _ hplans
    exact ⟨.inline hunfolds, hlevels⟩

theorem unfolds_of_expand {limit : Nat} {selections : List Selection} {plans : List Plan}
    (h : expand d limit selections = some plans) :
    Unfolds d selections plans ∧ levels plans ≤ limit := by
  induction limit using Nat.strongRecOn generalizing selections plans with
  | _ limit ih =>
    have hinside : ∀ selections plans, expandInside d limit selections = some plans →
        Unfolds d selections plans ∧ levels plans < limit := by
      intro selections plans hplans
      cases limit with
      | zero => cases hplans
      | succ limit =>
        obtain ⟨hunfolds, hlevels⟩ := ih limit (Nat.lt_succ_self limit) hplans
        exact ⟨hunfolds, Nat.lt_succ_of_le hlevels⟩
    induction selections generalizing plans with
    | nil =>
      rw [expand_eq] at h
      obtain rfl := Option.some.inj h
      exact ⟨.nil, Nat.zero_le _⟩
    | cons s rest ihrest =>
      obtain ⟨p, more, hp, hmore, rfl⟩ := expand_cons_eq_some_iff.1 h
      obtain ⟨hone, hlevelsOne⟩ := unfoldsOne_of_expandOne hinside hp
      obtain ⟨hunfolds, hlevels⟩ := ihrest hmore
      exact ⟨.cons hone hunfolds, Nat.max_le.2 ⟨hlevelsOne, hlevels⟩⟩

mutual

theorem expand_of_unfolds (plans : List Plan) {limit : Nat} {selections : List Selection}
    (h : Unfolds d selections plans) (hlevels : levels plans ≤ limit) :
    expand d limit selections = some plans := by
  cases plans with
  | nil =>
    cases h
    rw [expand_eq]
    rfl
  | cons p more =>
    cases h with
    | cons hone hrest =>
      obtain ⟨hp, hmore⟩ := Nat.max_le.1 hlevels
      exact expand_cons_eq_some_iff.2
        ⟨p, more, expandOne_of_unfolds p hone hp, expand_of_unfolds more hrest hmore, rfl⟩

theorem expandOne_of_unfolds (p : Plan) {limit : Nat} {s : Selection} (h : UnfoldsOne d s p)
    (hlevels : p.levelsOne ≤ limit) : expandOne d (expandInside d limit) s = some p := by
  cases p with
  | field head plans =>
    cases h with
    | @field _ selections _ hunfolds =>
      cases hunfolds with
      | nil => rfl
      | cons hone hrest =>
        cases limit with
        | zero => cases hlevels
        | succ limit =>
          have hinside := expand_of_unfolds _ (.cons hone hrest) (Nat.le_of_succ_le_succ hlevels)
          rw [expandOne, expandInside, hinside]
          · rfl
          · exact nofun
  | fragment name condition directives plans =>
    cases limit with
    | zero => cases hlevels
    | succ limit =>
      cases h with
      | spread hf hunfolds =>
        have hinside := expand_of_unfolds plans hunfolds (Nat.le_of_succ_le_succ hlevels)
        simp only [expandOne, hf, expandInside, hinside, Option.map_some]
      | inline hunfolds =>
        have hinside := expand_of_unfolds plans hunfolds (Nat.le_of_succ_le_succ hlevels)
        simp only [expandOne, expandInside, hinside, Option.map_some]
  | missing name =>
    cases h with
    | missing hf => simp only [expandOne, hf]

end

/-- Selections are written out within a limit if what they unfold to has no more levels. -/
theorem expand_eq_some_iff {limit : Nat} {selections : List Selection} {plans : List Plan} :
    expand d limit selections = some plans ↔ Unfolds d selections plans ∧ levels plans ≤ limit :=
  ⟨unfolds_of_expand, fun h => expand_of_unfolds plans h.1 h.2⟩

/-! ## What directives leave -/

theorem depth_append (plans more : List Plan) :
    depth (plans ++ more) = max (depth plans) (depth more) := by
  induction plans with
  | nil => rw [List.nil_append, depth, Nat.zero_max]
  | cons p rest ih => rw [List.cons_append, depth, depth, ih, Nat.max_assoc]

mutual

theorem depth_prune_le (given : String → Option Value) (plans : List Plan) :
    depth (prune given plans) ≤ depth plans := by
  cases plans with
  | nil => exact Nat.le_refl _
  | cons p rest =>
    have hone := depth_pruneOne_le given p
    have hrest := depth_prune_le given rest
    rw [prune, depth_append, depth]
    omega

theorem depth_pruneOne_le (given : String → Option Value) (p : Plan) :
    depth (p.pruneOne given) ≤ p.depthOne := by
  have hone (q : Plan) : depth [q] = q.depthOne := Nat.max_zero _
  cases p with
  | field head plans =>
    rw [pruneOne]
    split
    · rw [hone, depthOne, depthOne]
      split
      · exact Nat.le_refl _
      · exact Nat.succ_le_succ (depth_prune_le given plans)
    · exact Nat.zero_le _
  | fragment name condition directives plans =>
    rw [pruneOne]
    split
    · rw [hone]
      exact depth_prune_le given plans
    · exact Nat.zero_le _
  | missing name => exact Nat.le_refl _

end

end Plan

namespace Execution

variable {σ ν α β : Type}

/-! ## Fields below a limit -/

mutual

/-- Selections as they run, but with fields other than those for names of types do what `beyond`
says where they are nested more than `limit` deep. -/
def executeAllTo [Node ν] (scope : Scope σ ν)
    (beyond : FieldHead → Run σ (List (String × Value))) (limit : Nat) (object : ObjectType σ ν)
    (parent : ν) (path : Path) : List Plan → Run σ (List (String × Value))
  | [] => .done []
  | p :: rest =>
    (executeOneTo scope beyond limit object parent path p).andThen fun first =>
      (executeAllTo scope beyond limit object parent path rest).mapResult (first ++ ·)

/-- The run for one selection up to a limit, below which fields do as `beyond` says. -/
def executeOneTo [Node ν] (scope : Scope σ ν)
    (beyond : FieldHead → Run σ (List (String × Value))) (limit : Nat) (object : ObjectType σ ν)
    (parent : ν) (path : Path) : Plan → Run σ (List (String × Value))
  | .field head plans =>
    if head.name = Plan.typeNameField then .done [(head.key, .string object.name)]
    else
      match limit with
      | 0 => beyond head
      | limit + 1 =>
        match object.field? head.name with
        | none => .done []
        | some field =>
          let inside := fun (o : ObjectType σ ν) (v : ν) (path : Path) =>
            (executeAllTo scope beyond limit o v path plans).mapResult Value.ofSelections
          (runAt scope inside object.name field head parent path).mapResult
            fun value => [(head.key, value)]
  | .fragment _ condition _ plans =>
    if applies object condition then executeAllTo scope beyond limit object parent path plans
    else .done []
  | .missing _ => .done []

end

section

variable [Node ν] (scope : Scope σ ν) (beyond : FieldHead → Run σ (List (String × Value)))

mutual

/-- Selections that are nested no deeper than a limit run without coming to fields below it. -/
theorem executeAllTo_eq (plans : List Plan) {limit : Nat} (h : Plan.depth plans ≤ limit)
    (object : ObjectType σ ν) (parent : ν) (path : Path) :
    executeAllTo scope beyond limit object parent path plans =
      executeAll scope object parent path plans := by
  cases plans with
  | nil => rw [executeAllTo, executeAll]
  | cons p rest =>
    obtain ⟨hp, hrest⟩ := Nat.max_le.1 h
    rw [executeAllTo, executeAll, executeOneTo_eq p hp, executeAllTo_eq rest hrest]

theorem executeOneTo_eq (p : Plan) {limit : Nat} (h : p.depthOne ≤ limit)
    (object : ObjectType σ ν) (parent : ν) (path : Path) :
    executeOneTo scope beyond limit object parent path p =
      executeOne scope object parent path p := by
  cases p with
  | field head plans =>
    unfold executeOneTo
    rw [executeOne]
    by_cases hname : head.name = Plan.typeNameField
    · rw [if_pos hname, if_pos hname]
    · rw [if_neg hname, if_neg hname]
      rw [Plan.depthOne, if_neg hname] at h
      cases limit with
      | zero => cases h
      | succ limit =>
        have hinside := executeAllTo_eq plans (Nat.le_of_succ_le_succ h)
        cases object.field? head.name with
        | none => rfl
        | some field => simp only [hinside]
  | fragment name condition directives plans =>
    rw [executeOneTo, executeOne, executeAllTo_eq plans h]
  | missing name => rw [executeOneTo, executeOne]

end

end

/-! ## Paths of errors -/

/-- How many fields a path leads through. -/
def fieldCount (path : Path) : Nat :=
  path.countP fun
    | .key _ => true
    | .index _ => false

theorem fieldCount_key (path : Path) (key : String) :
    fieldCount (path ++ [.key key]) = fieldCount path + 1 := by
  rw [fieldCount, List.countP_append]
  rfl

theorem fieldCount_index (path : Path) (i : Nat) :
    fieldCount (path ++ [.index i]) = fieldCount path := by
  rw [fieldCount, List.countP_append]
  rfl

/-- Whether the path of an error leads through at most `n` fields. -/
def IsWithin (n : Nat) (e : ResponseError) : Prop :=
  ∀ path, e.path = some path → fieldCount path ≤ n

theorem isWithin_none (n : Nat) (cause : Cause) : IsWithin n ⟨cause, none⟩ := nofun

namespace Run

variable {n : Nat}

/-- Whether a run that has met only errors with paths through `n` fields meets no others. -/
def StaysWithin (n : Nat) (run : Run σ α) : Prop :=
  ∀ p, (∀ e ∈ p.recorded, IsWithin n e) →
    ∀ e ∈ raised (run p).1 ++ (run p).2.recorded, IsWithin n e

theorem staysWithin_done (a : α) : StaysWithin n (done a : Run σ α) := fun _ h => h

theorem staysWithin_fail (cause : Cause) : StaysWithin n (fail ⟨cause, none⟩ : Run σ α) :=
  fun _ h => List.forall_mem_cons.2 ⟨isWithin_none n cause, h⟩

theorem StaysWithin.andThen {run : Run σ α} {next : α → Run σ β} (h : run.StaysWithin n)
    (hnext : ∀ a, (next a).StaysWithin n) : (run.andThen next).StaysWithin n := by
  intro p hp
  have hrun := h p hp
  unfold Run.andThen
  rcases hr : run p with ⟨e | a, p'⟩ <;> rw [hr] at hrun
  · exact hrun
  · exact hnext a p' hrun

theorem StaysWithin.mapResult {run : Run σ α} (h : run.StaysWithin n) (f : α → β) :
    (run.mapResult f).StaysWithin n := h.andThen fun a => staysWithin_done (f a)

theorem StaysWithin.position {run : Run σ Value} (h : run.StaysWithin n) (type : TypeRef)
    {path : Path} (hpath : fieldCount path ≤ n) : (position type path run).StaysWithin n := by
  intro p hp
  have hrun := h p hp
  unfold Run.position
  rcases hr : run p with ⟨e | value, p'⟩ <;> rw [hr] at hrun
  · obtain ⟨he, hrecorded⟩ := List.forall_mem_cons.1 hrun
    have hplaced : IsWithin n { e with path := e.path.or (some path) } := by
      intro at' hat
      cases hnone : e.path with
      | none =>
        rw [hnone] at hat
        exact Option.some.inj hat ▸ hpath
      | some own =>
        rw [hnone] at hat
        exact he at' (hnone.trans hat)
    dsimp only
    split
    · exact List.forall_mem_cons.2 ⟨hplaced, hrecorded⟩
    · have hall := List.forall_mem_append.2 ⟨hrecorded, List.forall_mem_singleton.2 hplaced⟩
      exact hall
  · exact hrun

theorem staysWithin_eachFrom {run : Nat → α → Run σ β} (h : ∀ i a, (run i a).StaysWithin n)
    (i : Nat) (as : List α) : (eachFrom run i as).StaysWithin n := by
  induction as generalizing i with
  | nil => exact staysWithin_done []
  | cons a rest ih => exact (h i a).andThen fun b => (ih (i + 1)).mapResult (b :: ·)

end Run

open Run (staysWithin_done staysWithin_fail)

section

variable {scope : Scope σ ν} {inside : Inside σ ν} {m n : Nat}

theorem staysWithin_presentNamed {path : Path}
    (hinside : ∀ o v, (inside o v path).StaysWithin n) (name : String) (value : Completed ν) :
    (presentNamed scope inside name value path).StaysWithin n := by
  unfold presentNamed
  split
  · exact staysWithin_done _
  · exact staysWithin_done _
  · exact staysWithin_done _
  · exact hinside _ _
  · exact hinside _ _
  · split
    · exact hinside _ _
    · exact staysWithin_fail _
  · exact staysWithin_fail _

theorem staysWithin_present (hm : m ≤ n)
    (hinside : ∀ o v path, fieldCount path ≤ m → (inside o v path).StaysWithin n)
    (type : TypeRef) (value : Completed ν) {path : Path} (hpath : fieldCount path ≤ m) :
    (present scope inside type value path).StaysWithin n := by
  induction type generalizing value path with
  | nonNull inner ih => exact ih value hpath
  | list item ih =>
    cases value with
    | list items =>
      refine (Run.staysWithin_eachFrom (fun i v => ?_) 0 items).mapResult _
      have hitem : fieldCount (path ++ [.index i]) ≤ m := (fieldCount_index path i).symm ▸ hpath
      exact (ih v hitem).position item (Nat.le_trans hitem hm)
    | _ => exact staysWithin_fail _
  | named name => exact staysWithin_presentNamed (fun o v => hinside o v path hpath) name value

variable [Node ν]

theorem staysWithin_runWith (hm : m ≤ n)
    (hinside : ∀ o v path, fieldCount path ≤ m → (inside o v path).StaysWithin n)
    (object : String) (field : Field σ ν) (head : FieldHead) (parent : ν) {path : Path}
    (hpath : fieldCount path ≤ m) (arguments : Entries Value) :
    (runWith scope inside object field head parent path arguments).StaysWithin n := by
  refine Run.StaysWithin.andThen (fun p hp => ?_) fun value => ?_
  · unfold runField
    split
    · exact hp
    · exact List.forall_mem_cons.2 ⟨isWithin_none n _, hp⟩
  · cases value with
    | none => exact staysWithin_done _
    | some value => exact staysWithin_present hm hinside field.type value hpath

theorem staysWithin_runAt (hm : m < n)
    (hinside : ∀ o v path, fieldCount path ≤ m + 1 → (inside o v path).StaysWithin n)
    (object : String) (field : Field σ ν) (head : FieldHead) (parent : ν) {around : Path}
    (haround : fieldCount around ≤ m) :
    (runAt scope inside object field head parent around).StaysWithin n := by
  have hpath : fieldCount (around ++ [.key head.key]) ≤ m + 1 :=
    (fieldCount_key around head.key).symm ▸ Nat.succ_le_succ haround
  have hwritten : (runWritten scope head.arguments).StaysWithin n := by
    unfold runWritten
    split
    · exact staysWithin_done _
    · exact staysWithin_fail _
  have hwith {path : Path} (hpath : fieldCount path ≤ m + 1) (values : Entries Value) :
      (runWith scope inside object field head parent path values).StaysWithin n :=
    staysWithin_runWith hm hinside object field head parent hpath values
  have hn : fieldCount (around ++ [.key head.key]) ≤ n := Nat.le_trans hpath hm
  unfold runAt
  cases field.role with
  | ordinary => exact hwritten.andThen fun values => (hwith hpath values).position field.type hn
  | gateway => exact hwritten.andThen (hwith (Nat.le_succ_of_le haround))
  | introspective => exact (hwritten.andThen (hwith hpath)).position field.type hn

mutual

/-- Selections run with errors whose paths lead through no more fields than are nested. -/
theorem staysWithin_executeAll (plans : List Plan) {path : Path}
    (h : fieldCount path + Plan.depth plans ≤ n) (object : ObjectType σ ν) (parent : ν) :
    (executeAll scope object parent path plans).StaysWithin n := by
  cases plans with
  | nil => exact staysWithin_done []
  | cons p rest =>
    have hdepth : Plan.depth (p :: rest) = max p.depthOne (Plan.depth rest) := rfl
    refine (staysWithin_executeOne p (by omega) object parent).andThen fun first => ?_
    exact (staysWithin_executeAll rest (by omega) object parent).mapResult _

theorem staysWithin_executeOne (p : Plan) {path : Path}
    (h : fieldCount path + p.depthOne ≤ n) (object : ObjectType σ ν) (parent : ν) :
    (executeOne scope object parent path p).StaysWithin n := by
  cases p with
  | field head plans =>
    rw [executeOne]
    split
    · exact staysWithin_done _
    · rename_i hname
      rw [Plan.depthOne, if_neg hname] at h
      split
      · exact staysWithin_done _
      · have hinside (o : ObjectType σ ν) (v : ν) (path' : Path)
            (hpath : fieldCount path' ≤ fieldCount path + 1) :
            ((executeAll scope o v path' plans).mapResult Value.ofSelections).StaysWithin n :=
          (staysWithin_executeAll plans (by omega) o v).mapResult _
        exact (staysWithin_runAt (by omega) hinside _ _ head parent (Nat.le_refl _)).mapResult _
  | fragment name condition directives plans =>
    rw [executeOne]
    split
    · exact staysWithin_executeAll plans h object parent
    · exact staysWithin_done _
  | missing name => exact staysWithin_done _

end

theorem isWithin_of_mem_respond {o : ObjectType σ ν} {plans : List Plan}
    (h : Plan.depth plans ≤ n) {s : σ} {e : ResponseError}
    (he : e ∈ (respond scope o plans s).1.errors) : IsWithin n e := by
  have hdepth : fieldCount [] + Plan.depth plans ≤ n := (Nat.zero_add _).symm ▸ h
  have hrun : (executeAll scope o scope.root [] plans).StaysWithin n :=
    staysWithin_executeAll plans hdepth o scope.root
  refine hrun ⟨s, []⟩ (List.forall_mem_nil _) e ?_
  unfold respond at he
  rcases hr : executeAll scope o scope.root [] plans ⟨s, []⟩ with ⟨error | results, p⟩ <;>
    rw [hr] at he <;> exact he

end

end Execution

namespace Schema

open Execution

variable {σ ν : Type}

theorem issues_ne_nil_of_select {schema : Schema σ ν} {request : Request} {issues : List Issue}
    (h : schema.select request = .error issues) : issues ≠ [] := by
  unfold select at h
  rintro rfl
  split at h
  · cases h
  · split at h
    · split at h
      · cases h
      · split at h <;> cases h
    · rename_i hissues
      exact hissues (Except.error.inj h)

theorem depth_le_of_documentIssues {scope : Validation.Scope} {d : Document} {limit : Nat}
    (hissues : Validation.documentIssues scope d limit = []) {o : Operation}
    (ho : o ∈ d.operations) {plans : List Plan}
    (hexpand : Plan.expand d limit o.selections = some plans) : Plan.depth plans ≤ limit := by
  rw [Validation.documentIssues, List.append_eq_nil_iff, List.flatMap_eq_nil_iff] at hissues
  have hoperation := (List.append_eq_nil_iff.1 (hissues.2 o ho)).2
  rw [Validation.operationIssues, hexpand] at hoperation
  simp only [List.append_eq_nil_iff, ite_eq_right_iff, List.cons_ne_nil, imp_false,
    Nat.not_lt] at hoperation
  exact hoperation.1.2

/-- A request is refused and does nothing, or its document has a finite form without fragments in
which fields are nested no deeper than the limit.  Then what it does is the same whatever fields
below that would do, and the paths of its errors lead through no more fields. -/
theorem runs_within_limit [Node ν] (schema : Schema σ ν) (request : Request) :
    (∃ issues, issues ≠ [] ∧ ∀ s, schema.respond request s = (Response.refusal issues, s)) ∨
    ∃ d selected plans, Document.ofText? request.query = some d ∧
      schema.select request = .ok selected ∧
      d.select? request.operation = some selected.operation ∧
      Plan.Unfolds d selected.operation.selections plans ∧
      selected.plans = Plan.prune request.given plans ∧
      Plan.levels plans ≤ schema.depthLimit ∧ Plan.depth plans ≤ schema.depthLimit ∧
      let scope := schema.scope request selected.operation
      (∀ beyond, executeAllTo scope beyond schema.depthLimit selected.root scope.root []
          selected.plans =
        executeAll scope selected.root scope.root [] selected.plans) ∧
      ∀ s, schema.respond request s = Execution.respond scope selected.root selected.plans s ∧
        ∀ e ∈ (schema.respond request s).1.errors, ∀ path, e.path = some path →
          fieldCount path ≤ schema.depthLimit := by
  cases hselect : schema.select request with
  | error issues =>
    exact .inl ⟨issues, issues_ne_nil_of_select hselect, respond_of_select_error hselect⟩
  | ok selected =>
    obtain ⟨d, plans, hread, hissues, hoperation, -, hexpand, hplans⟩ :=
      exists_document_of_select hselect
    obtain ⟨hunfolds, hlevels⟩ := Plan.expand_eq_some_iff.1 hexpand
    have hdepth : Plan.depth plans ≤ schema.depthLimit :=
      depth_le_of_documentIssues hissues (Document.mem_of_select? hoperation) hexpand
    have hrun : Plan.depth selected.plans ≤ schema.depthLimit :=
      hplans ▸ Nat.le_trans (Plan.depth_prune_le request.given plans) hdepth
    refine .inr ⟨d, selected, plans, hread, rfl, hoperation, hunfolds, hplans, hlevels, hdepth,
      fun beyond => executeAllTo_eq _ beyond selected.plans hrun .., fun s => ?_⟩
    have hrespond := respond_of_select_ok hselect s
    exact ⟨hrespond, fun e he => isWithin_of_mem_respond hrun (hrespond ▸ he)⟩

end Schema

end Gazette
