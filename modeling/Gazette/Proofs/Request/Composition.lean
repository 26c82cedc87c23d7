import Gazette.Proofs.Request.Failures
import Gazette.Proofs.Request.Merging
import Gazette.Proofs.Request.Places

/-!
# Responses to several selections

Where resolvers only read, selections do not meet: the response to selections under different keys
is made of the responses to each of them (`Response.Composes`).  If each alone has data, they are
put together in order, and so are the errors.  Else the first one that has no data alone ends the
run, and the error that leaves none comes first (`Schema.composes_of_reads`).
-/

namespace Gazette

/-- Whether a response to several selections is made of the responses to each of them. -/
structure Response.Composes (parts : List Response) (whole : Response) : Prop where
  data : (∀ r ∈ parts, r.data.isNull = false) →
    ∃ members : List (List (String × Value)), parts.map Response.data = members.map .object ∧
      whole = ⟨.object members.flatten, parts.flatMap Response.errors⟩
  null : ∀ before r after, parts = before ++ r :: after → (∀ q ∈ before, q.data.isNull = false) →
    r.data.isNull → ∃ e caught, r.errors = e :: caught ∧
      whole = ⟨.null, e :: (before.flatMap Response.errors ++ caught)⟩

theorem Response.Composes.unplaced {parts : List Response} {whole : Response}
    (h : Composes parts whole) : Composes (parts.map Response.unplaced) whole.unplaced where
  data hdata := by
    obtain ⟨members, hmembers, hwhole⟩ := h.data fun r hr =>
      hdata r.unplaced (List.mem_map_of_mem hr)
    refine ⟨members, by rw [List.map_map]; exact hmembers, ?_⟩
    rw [hwhole, Response.unplaced, List.map_flatMap, List.flatMap_map]
    rfl
  null before r after hparts hbefore hr := by
    obtain ⟨before', rest, rfl, rfl, hrest⟩ := List.map_eq_append_iff.1 hparts
    obtain ⟨r', after', rfl, rfl, -⟩ := List.map_eq_cons_iff.1 hrest
    obtain ⟨e, caught, herrors, hwhole⟩ := h.null before' r' after' rfl
      (fun q hq => hbefore q.unplaced (List.mem_map_of_mem hq)) hr
    refine ⟨e.unplaced, caught.map ResponseError.unplaced, ?_, ?_⟩
    · rw [Response.unplaced, herrors, List.map_cons]
    · rw [hwhole, Response.unplaced, List.map_cons, List.map_append, List.map_flatMap,
        List.flatMap_map]
      rfl

namespace Execution

namespace Settled

variable {α β : Type}

/-- Results one after the other. -/
def sequence (x : α → Settled (List β)) : List α → Settled (List β)
  | [] => done []
  | a :: rest => (x a).andThen fun first => (sequence x rest).map (first ++ ·)

/-- What a list has settled to, or nothing if it has failed. -/
def results (x : Settled (List β)) : List β := x.outcome.toOption.getD []

theorem results_of_ok {x : Settled (List β)} {bs : List β} (h : x.outcome = .ok bs) :
    x.results = bs := by
  rw [results, h]
  rfl

variable {x : α → Settled (List β)} {f : α → List β}

theorem sequence_singleton (x : α → Settled (List β)) (a : α) : sequence x [a] = x a := by
  have hdone : (fun first : List β => (sequence x []).map (first ++ ·)) = done := by
    funext first
    simp only [sequence, done, map, Except.map, List.append_nil]
  rw [sequence, hdone]
  exact (map_eq_andThen (fun bs => bs) (x a)).symm.trans (map_id (x a))

theorem sequence_of_ok {as : List α} (h : ∀ a ∈ as, (x a).outcome = .ok (f a)) :
    sequence x as = ⟨.ok (as.flatMap f), as.flatMap fun a => (x a).caught⟩ := by
  induction as with
  | nil => rfl
  | cons a rest ih =>
    rw [sequence, andThen_of_ok (h a (.head _)), ih fun b hb => h b (.tail _ hb)]
    rfl

theorem sequence_of_error {before : List α} {a : α} {e : ResponseError}
    (h : ∀ b ∈ before, (x b).outcome = .ok (f b)) (ha : (x a).outcome = .error e)
    (after : List α) :
    sequence x (before ++ a :: after) =
      ⟨.error e, (before.flatMap fun b => (x b).caught) ++ (x a).caught⟩ := by
  induction before with
  | nil =>
    rw [List.nil_append, sequence, andThen_of_error ha]
    rfl
  | cons b rest ih =>
    rw [List.cons_append, sequence, andThen_of_ok (h b (.head _)),
      ih fun c hc => h c (.tail _ hc), List.flatMap_cons, List.append_assoc]
    rfl

end Settled

/-- The response of selections whose results are `x`. -/
def responseOf (x : Settled (List (String × Value))) : Response :=
  (x.map Value.ofSelections).response

theorem responseOf_of_ok {x : Settled (List (String × Value))} {results : List (String × Value)}
    (h : x.outcome = .ok results) : responseOf x = ⟨Value.ofSelections results, x.caught⟩ := by
  rw [responseOf, Settled.response, Settled.map, h]
  rfl

theorem responseOf_of_error {x : Settled (List (String × Value))} {e : ResponseError}
    (h : x.outcome = .error e) : responseOf x = ⟨.null, e :: x.caught⟩ := by
  rw [responseOf, Settled.response, Settled.map, h]
  rfl

theorem outcome_eq_of_data {x : Settled (List (String × Value))}
    (h : (responseOf x).data.isNull = false) : x.outcome = .ok x.results := by
  cases hx : x.outcome with
  | ok results => rw [Settled.results_of_ok hx]
  | error e => rw [responseOf_of_error hx] at h; cases h

theorem exists_of_no_data {x : Settled (List (String × Value))}
    (h : (responseOf x).data.isNull) : ∃ e, x.outcome = .error e := by
  cases hx : x.outcome with
  | ok results => rw [responseOf_of_ok hx] at h; cases h
  | error e => exact ⟨e, rfl⟩

theorem ofSelections_of_nodup {results : List (String × Value)}
    (h : (Entries.names results).Nodup) : Value.ofSelections results = .object results := by
  have hmerge : Value.mergeMembers [] results = [] ++ results := Value.mergeMembers_of_nodup h
  rw [Value.ofSelections, hmerge, List.nil_append]

/-- Results of different names compose. -/
theorem composes_sequence {α : Type} {x : α → Settled (List (String × Value))} {as : List α}
    {key : α → String} (hkeys : (as.map key).Nodup) (hnames : ∀ a ∈ as, ∀ results,
      (x a).outcome = .ok results → (Entries.names results).Sublist [key a]) :
    Response.Composes (as.map fun a => responseOf (x a))
      (responseOf (Settled.sequence x as)) where
  data hdata := by
    have hok : ∀ a ∈ as, (x a).outcome = .ok (x a).results := fun a ha =>
      outcome_eq_of_data (hdata _ (List.mem_map_of_mem ha))
    have heach : ∀ a ∈ as, responseOf (x a) = ⟨.object (x a).results, (x a).caught⟩ := by
      intro a ha
      rw [responseOf_of_ok (hok a ha), ofSelections_of_nodup]
      exact (hnames a ha _ (hok a ha)).nodup (List.nodup_singleton _)
    -- each result has one member of its own key at most, so nothing is merged
    have hall : (Entries.names (as.flatMap fun a => (x a).results)).Nodup := by
      have hsublist : (as.flatMap fun a => Entries.names (x a).results).Sublist
          (as.flatMap fun a => [key a]) :=
        List.Sublist.flatMap_right as fun a ha => hnames a ha _ (hok a ha)
      rw [Entries.names, List.map_flatMap]
      rw [← List.map_eq_flatMap] at hsublist
      exact hsublist.nodup hkeys
    refine ⟨as.map fun a => (x a).results, ?_, ?_⟩
    · rw [List.map_map, List.map_map]
      exact List.map_congr_left fun a ha => congrArg Response.data (heach a ha)
    · have hsequence := Settled.sequence_of_ok hok
      rw [responseOf_of_ok (congrArg Settled.outcome hsequence), hsequence,
        ofSelections_of_nodup hall, List.flatMap_map, List.flatMap_def]
      congr 1
      rw [List.flatMap_def, List.flatMap_def]
      exact congrArg _ (List.map_congr_left fun a ha => congrArg Response.errors (heach a ha).symm)
  null before r after hparts hbefore hr := by
    obtain ⟨front, rest, rfl, rfl, hrest⟩ := List.map_eq_append_iff.1 hparts
    obtain ⟨a, back, rfl, rfl, -⟩ := List.map_eq_cons_iff.1 hrest
    have hok : ∀ b ∈ front, (x b).outcome = .ok (x b).results := fun b hb =>
      outcome_eq_of_data (hbefore _ (List.mem_map_of_mem hb))
    obtain ⟨e, he⟩ := exists_of_no_data hr
    have hsequence := Settled.sequence_of_error hok he back
    refine ⟨e, (x a).caught, by rw [responseOf_of_error he], ?_⟩
    rw [responseOf_of_error (congrArg Settled.outcome hsequence), hsequence, List.flatMap_map]
    have heach : ∀ b ∈ front, (responseOf (x b)).errors = (x b).caught := fun b hb => by
      rw [responseOf_of_ok (hok b hb)]
    rw [List.flatMap_def, List.flatMap_def, List.map_congr_left heach]

/-! ## Selections that only read -/

theorem names_of_settleMembers {path : Path} {members : List (Slot × Trace)}
    {results : List (String × Value)}
    (h : (Trace.settleMembers path members).outcome = .ok results) :
    Entries.names results = members.map fun m => m.1.key := by
  induction members generalizing results with
  | nil =>
    rw [Trace.settleMembers] at h
    obtain rfl := Except.ok.inj h
    rfl
  | cons m rest ih =>
    rw [Trace.settleMembers] at h
    cases hm : (Trace.settleMember path m).outcome with
    | error e => rw [Settled.andThen_of_error hm] at h; cases h
    | ok value =>
      rw [Settled.andThen_of_ok hm] at h
      obtain ⟨results, hresults, rfl⟩ := map_eq_ok_iff.1 h
      rw [List.map_cons, ← ih hresults]
      rfl

variable {σ ν : Type} [Node ν] {scope : Scope σ ν} {p : ObjectType σ ν → Prop}
  {object : ObjectType σ ν}

theorem keys_traceOne (scope : Scope σ ν) (object : ObjectType σ ν) (parent : ν) (f : FieldPlan)
    (s : σ) : ((traceOne scope object parent f.toPlan s).1.map fun m => m.1.key).Sublist
      [f.key] := by
  rw [FieldPlan.toPlan, traceOne]
  split
  · exact List.Sublist.refl _
  · split
    · exact List.nil_sublist _
    · dsimp only
      rw [List.map_cons, List.map_nil, key_traceAt]
      exact List.Sublist.refl _

theorem snd_traceOne (h : scope.registry.ReadOnly p) (hobject : p object) (parent : ν) (plan : Plan)
    (s : σ) : (traceOne scope object parent plan s).2 = s := by
  have hstate := (executeOne_readsBelow h hobject parent [] plan ⟨s, []⟩).state_eq
  rwa [executeOne_comes scope object parent [] plan s []] at hstate

/-- What a field of the root comes to. -/
def fieldSettled (scope : Scope σ ν) (object : ObjectType σ ν) (s : σ) (f : FieldPlan) :
    Settled (List (String × Value)) :=
  Trace.settleMembers [] (traceOne scope object scope.root f.toPlan s).1

/-- Fields that only read come to the same after each other as alone. -/
theorem executeFields_comes (h : scope.registry.ReadOnly p) (hobject : p object)
    (fields : List FieldPlan) (s : σ) :
    Run.Comes (executeFields scope object scope.root [] fields) s
      (Settled.sequence (fieldSettled scope object s) fields) s := by
  induction fields with
  | nil => exact Run.comes_done [] s
  | cons f rest ih =>
    have hone := executeOne_comes scope object scope.root [] f.toPlan s
    rw [snd_traceOne h hobject] at hone
    rw [executeFields, Settled.sequence]
    -- the field leaves the state as it was, so the rest comes to what it comes to from there
    cases hf : (fieldSettled scope object s f).outcome with
    | error e => exact hone.andThen_of_error hf
    | ok first => exact hone.andThen_of_ok hf (ih.mapResult _)

theorem respond_eq_responseOf (h : scope.registry.ReadOnly p) (hobject : p object)
    (plans : List Plan) (s : σ) : (respond scope object plans s).1 =
      responseOf (Settled.sequence (fieldSettled scope object s) (Plan.fieldsOn object plans)) := by
  have hcomes := executeFields_comes h hobject (Plan.fieldsOn object plans) s
  rw [← executeAll_eq] at hcomes
  rw [respond_of_comes hcomes]
  rfl

/-- The response to selections that only read is made of the responses to each field alone. -/
theorem composes_respond (scope : Scope σ ν) (h : scope.registry.ReadOnly p)
    (hobject : p object) {plans : List Plan}
    (hkeys : ((Plan.fieldsOn object plans).map FieldPlan.key).Nodup) (s : σ) :
    Response.Composes
      ((Plan.fieldsOn object plans).map fun f => (respond scope object [f.toPlan] s).1)
      (respond scope object plans s).1 := by
  have halone (f : FieldPlan) : (respond scope object [f.toPlan] s).1 =
      responseOf (fieldSettled scope object s f) := by
    rw [respond_eq_responseOf h hobject]
    exact congrArg responseOf (Settled.sequence_singleton _ f)
  simp only [halone]
  rw [respond_eq_responseOf h hobject]
  refine composes_sequence hkeys fun f _ results hresults => ?_
  rw [names_of_settleMembers hresults]
  exact keys_traceOne scope object scope.root f s

end Execution

/-! ## Requests -/

namespace Schema

variable {σ ν : Type}

/-- Whether no resolver of a schema changes the state. -/
def Reads (schema : Schema σ ν) : Prop :=
  ∀ o, .object o ∈ schema.registry.types → ∀ f ∈ o.fields, f.Reads

theorem Reads.readOnly {schema : Schema σ ν} (h : schema.Reads) :
    schema.executable.ReadOnly fun o => schema.executable.object? o.name = some o where
  registered _ ho := ho
  reads o ho f hf := by
    rcases Registry.mem_withIntrospection (Registry.mem_of_object? ho).1 with ⟨b, hb, rfl⟩ | ho
    · rcases List.mem_append.1 hf with hf | hf
      · obtain ⟨g, hg, rfl⟩ := List.mem_map.1 hf
        exact Registry.liftField_reads (h b hb g hg)
      · split at hf
        · exact Introspection.rootFields_read _ f hf
        · cases hf
    · exact Introspection.types_read _ ho f hf
  leads _ _ _ _ _ ho' := ho'.object?_eq

/-- Whether a request asks for one field only, the field `f` of what another request selects. -/
def IsPart (schema : Schema σ ν) (request : Request) (selected : Selected σ (Subject ν))
    (f : FieldPlan) (part : Request) : Prop :=
  ∃ own g, schema.select part = .ok own ∧ own.operation.kind = selected.operation.kind ∧
    Plan.fieldsOn selected.root own.plans = [g] ∧
    (schema.scope part own.operation).Alike (schema.scope request selected.operation)
      g.toPlan f.toPlan

variable [Node ν] {schema : Schema σ ν} {request : Request} {selected : Selected σ (Subject ν)}

/-- A part has the response that its field has alone in the whole request. -/
theorem IsPart.unplaced_respond {f : FieldPlan} {part : Request}
    (h : schema.select request = .ok selected) (hpart : schema.IsPart request selected f part)
    (s : σ) : (schema.respond part s).1.unplaced =
      (Execution.respond (schema.scope request selected.operation) selected.root [f.toPlan]
        s).1.unplaced := by
  obtain ⟨own, g, hown, hkind, hfields, halike⟩ := hpart
  have hroot : own.root = selected.root := by
    have hroot := rootOf?_of_select hown
    rw [hkind, rootOf?_of_select h] at hroot
    exact (Option.some.inj hroot).symm
  have hsingle : Execution.respond (schema.scope part own.operation) selected.root own.plans s =
      Execution.respond (schema.scope part own.operation) selected.root [g.toPlan] s := by
    have hg : Plan.fieldsOn selected.root [g.toPlan] = [g] := rfl
    rw [Execution.respond, Execution.respond, Execution.executeAll_eq, Execution.executeAll_eq,
      hfields, hg]
  rw [respond_of_select_ok hown, hroot, hsingle]
  have hall : (schema.scope part own.operation).AlikeAll (schema.scope request selected.operation)
      [g.toPlan] [f.toPlan] := ⟨halike, trivial⟩
  have hshares : (schema.scope part own.operation).Shares
      (schema.scope request selected.operation) := ⟨rfl, rfl⟩
  exact Execution.unplaced_respond hshares (object?_root_of_select h) hall s

/-- Where resolvers only read, the response to selections under different keys is made of the
responses to requests for each of them alone, up to the places in the texts. -/
theorem composes_of_reads (hreads : schema.Reads) (h : schema.select request = .ok selected)
    (hkeys : ((Plan.fieldsOn selected.root selected.plans).map FieldPlan.key).Nodup)
    {parts : List Request} (hparts : List.Forall₂ (schema.IsPart request selected)
      (Plan.fieldsOn selected.root selected.plans) parts) (s : σ) :
    Response.Composes (parts.map fun part => (schema.respond part s).1.unplaced)
      (schema.respond request s).1.unplaced := by
  have hcomposes := (Execution.composes_respond (schema.scope request selected.operation)
    hreads.readOnly (object?_root_of_select h) hkeys s).unplaced
  rw [List.map_map] at hcomposes
  have hmap := map_eq_of_forall₂ hparts fun f part hpart => (hpart.unplaced_respond h s).symm
  rw [respond_of_select_ok h, ← hmap]
  exact hcomposes

end Schema

namespace Plan

mutual

/-- Whether selections without arguments are the same, wherever they stand. -/
def sameBareAll : List Plan → List Plan → Bool
  | [], [] => true
  | p :: rest, q :: rest' => p.sameBare q && sameBareAll rest rest'
  | _, _ => false

/-- Whether two selections are the same, without any arguments. -/
def sameBare : Plan → Plan → Bool
  | .field head plans, .field head' plans' =>
    head.key = head'.key && head.name = head'.name && head.arguments.isEmpty &&
      head'.arguments.isEmpty && sameBareAll plans plans'
  | .fragment _ condition _ plans, .fragment _ condition' _ plans' =>
    condition = condition' && sameBareAll plans plans'
  | .missing _, .missing _ => true
  | _, _ => false

end

end Plan

namespace Execution.Scope

variable {σ ν : Type} (scope scope' : Scope σ ν)

mutual

theorem alikeAll_of_sameBareAll {plans plans' : List Plan} (h : Plan.sameBareAll plans plans') :
    scope.AlikeAll scope' plans plans' := by
  cases plans with
  | nil =>
    cases plans' with
    | nil => trivial
    | cons q rest' => cases h
  | cons p rest =>
    cases plans' with
    | nil => cases h
    | cons q rest' =>
      rw [Plan.sameBareAll, Bool.and_eq_true] at h
      exact ⟨alike_of_sameBare h.1, alikeAll_of_sameBareAll h.2⟩

theorem alike_of_sameBare {p q : Plan} (h : p.sameBare q) : scope.Alike scope' p q := by
  cases p with
  | field head plans =>
    cases q with
    | field head' plans' =>
      simp only [Plan.sameBare, Bool.and_eq_true, decide_eq_true_iff, List.isEmpty_iff] at h
      obtain ⟨⟨⟨⟨hkey, hname⟩, hnil⟩, hnil'⟩, hplans⟩ := h
      refine ⟨hkey, hname, ?_, alikeAll_of_sameBareAll hplans⟩
      rw [hnil, hnil']
      rfl
    | _ => cases h
  | fragment name condition directives plans =>
    cases q with
    | fragment name' condition' directives' plans' =>
      rw [Plan.sameBare, Bool.and_eq_true, decide_eq_true_iff] at h
      exact ⟨h.1, alikeAll_of_sameBareAll h.2⟩
    | _ => cases h
  | missing name =>
    cases q with
    | missing name' => trivial
    | _ => cases h

end

end Execution.Scope

namespace Bookshop

theorem reads : schema.Reads := by
  have hconstant (name : String) (type : TypeRef) (result : FieldValue Thing) :
      (constant name type result).Reads := by
    intro resolve hresolve parent arguments s
    obtain rfl := Option.some.inj hresolve
    rfl
  intro o ho
  have hcases : o = book ∨ o = shop := by
    simpa [schema, Registry.builtinScalars] using ho
  rcases hcases with rfl | rfl
  · simp [book, Field.Reads]
  · simp [shop, hconstant]

/-- A query where the third of four selections leaves no data. -/
def shopQuery : Request where
  query := "\x7b owner shelf \x7b isbn \x7d till best \x7b title \x7d \x7d"

/-- Requests for the fields one by one. -/
def shopParts : List Request :=
  [{ query := "\x7b owner \x7d" }, { query := "\x7b shelf \x7b isbn \x7d \x7d" },
    { query := "\x7b till \x7d" }, { query := "\x7b best \x7b title \x7d \x7d" }]

/-- Whether a request asks for `f` only, without arguments. -/
def isBarePart (selected : Schema.Selected Unit (Subject Thing)) (f : FieldPlan)
    (part : Request) : Bool :=
  schema.selects part fun own => own.operation.kind = selected.operation.kind &&
    match Plan.fieldsOn selected.root own.plans with
    | [g] => g.toPlan.sameBare f.toPlan
    | _ => false

theorem isPart_of_isBarePart {request part : Request}
    {selected : Schema.Selected Unit (Subject Thing)} {f : FieldPlan}
    (h : isBarePart selected f part) : schema.IsPart request selected f part := by
  obtain ⟨own, hown, hcheck⟩ := Schema.exists_of_selects h
  rw [Bool.and_eq_true, decide_eq_true_iff] at hcheck
  obtain ⟨hkind, hmatch⟩ := hcheck
  split at hmatch
  · rename_i g hfields
    exact ⟨own, g, hown, hkind, hfields, Execution.Scope.alike_of_sameBare _ _ hmatch⟩
  · cases hmatch

/-- Whether the fields that a request selects have different keys, and are those of `shopParts`. -/
def areBareParts (selected : Schema.Selected Unit (Subject Thing)) : Bool :=
  decide ((Plan.fieldsOn selected.root selected.plans).map FieldPlan.key).Nodup &&
    (Plan.fieldsOn selected.root selected.plans).length = shopParts.length &&
    ((Plan.fieldsOn selected.root selected.plans).zip shopParts).all fun e =>
      isBarePart selected e.1 e.2

theorem forall₂_of_areBareParts {request : Request}
    {selected : Schema.Selected Unit (Subject Thing)} (h : areBareParts selected) :
    ((Plan.fieldsOn selected.root selected.plans).map FieldPlan.key).Nodup ∧
      List.Forall₂ (schema.IsPart request selected)
        (Plan.fieldsOn selected.root selected.plans) shopParts := by
  obtain ⟨h, hparts⟩ := Bool.and_eq_true_iff.1 h
  obtain ⟨hkeys, hlength⟩ := Bool.and_eq_true_iff.1 h
  refine ⟨of_decide_eq_true hkeys, List.forall₂_iff_zip.2 ⟨of_decide_eq_true hlength, ?_⟩⟩
  intro f part hmem
  exact isPart_of_isBarePart (List.all_eq_true.1 hparts (f, part) hmem)

/-- The error of the third selection comes first, and then those of the two before it. -/
theorem composes_of_reads_shop :
    Response.Composes (shopParts.map fun part => (schema.respond part ()).1.unplaced)
        (schema.respond shopQuery ()).1.unplaced ∧
      (schema.respond shopQuery ()).1.data.isNull ∧
      (schema.respond shopQuery ()).1.errors.map ResponseError.path =
        [some [.key "till"], some [.key "shelf", .index 0, .key "isbn"],
          some [.key "shelf", .index 1, .key "isbn"]] := by
  have hselects : schema.selects shopQuery areBareParts := by decide +kernel
  have hdata : (schema.respond shopQuery ()).1.data.isNull = true := by decide +kernel
  have hpaths : (schema.respond shopQuery ()).1.errors.map ResponseError.path =
      [some [.key "till"], some [.key "shelf", .index 0, .key "isbn"],
        some [.key "shelf", .index 1, .key "isbn"]] := by
    decide +kernel
  obtain ⟨selected, hselect, hcheck⟩ := Schema.exists_of_selects hselects
  obtain ⟨hkeys, hparts⟩ := forall₂_of_areBareParts hcheck
  exact ⟨Schema.composes_of_reads reads hselect hkeys hparts (), hdata, hpaths⟩

end Bookshop

end Gazette
