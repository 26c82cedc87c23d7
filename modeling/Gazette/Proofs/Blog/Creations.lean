import Gazette.Proofs.Blog.Integrity
import Gazette.Proofs.Blog.Readers
import Gazette.Proofs.Request.Selection
import Gazette.Proofs.Schema.Binding

/-!
# Creations

The fields of the mutation root, and what a request does that selects one of them
(`executeOne_creation`): its arguments make no call, or the call is refused by the store, or it is
made, and then what is selected inside only reads.
-/

namespace Gazette

open Store (Call Record)

namespace Blog

open Execution

/-- The types, the root value and what the request gives, when a request runs on the blog. -/
abbrev BlogScope : Type := Scope Store (Subject BlogNode)

/-- The mutation root as requests meet it. -/
def mutationObject : ObjectType Store (Subject BlogNode) where
  name := mutationType
  fields := [Registry.liftField .root createPost, Registry.liftField .root createAuthor]

theorem object?_mutationType :
    Service.schema.executable.object? mutationType = some mutationObject := rfl

/-- Whether a selected field creates a record. -/
def isCreation (f : FieldPlan) : Bool :=
  f.head.name = createPost.name || f.head.name = createAuthor.name

/-- The fields among selected ones that create a record. -/
def creations (fields : List FieldPlan) : List FieldPlan := fields.filter isCreation

/-- The call that the mutation root makes for bound arguments of the field with a name. -/
def callOfArguments (name : String) (arguments : BoundArguments) : Except FieldError Call :=
  if name = createPost.name then (newPostOf arguments).map .post
  else (newAuthorOf arguments).map .author

/-- The call of a selected creation with its bound arguments; none if these are not right. -/
def callOf? (scope : BlogScope) (f : FieldPlan) : Option Call := do
  let field ← mutationObject.field? f.head.name
  let arguments ← scope.boundArguments? field f.head.arguments
  (callOfArguments field.name arguments).toOption

/-- The value of the blog that a new record is. -/
def nodeOf : Record → BlogNode
  | .author a => .author a
  | .post p => .post p

/-- What the field of a creation gives for the outcome of its call. -/
def creationResult : Store.Outcome → Except FieldError (FieldValue (Subject BlogNode))
  | .ok record => .ok (.node (.value (nodeOf record)))
  | .error e => .error (.store e)

/-! ## One creation -/

theorem liftResolver_creating {α β : Type} {read : BoundArguments → Except FieldError α}
    {create : α → Store → Except StoreError β × Store} {node : β → BlogNode} (call : α → Call)
    (record : β → Record)
    (hrun : ∀ input s, (call input).run s = ((create input s).1.map record, (create input s).2))
    (hnode : ∀ b, node b = nodeOf (record b)) (parent : Subject BlogNode)
    (arguments : BoundArguments) (s : Store) :
    Registry.liftResolver .root (creating read create node) parent arguments s =
      match (read arguments).map call with
      | .ok c => (creationResult (c.run s).1, (c.run s).2)
      | .error e => (.error e, s) := by
  simp only [Registry.liftResolver, creating]
  rcases read arguments with e | input
  · rfl
  · simp only [Except.map, hrun]
    rcases create input s with ⟨e | b, s'⟩
    · rfl
    · simp only [creationResult, FieldValue.map, hnode]

/-- A creation reads its call from the arguments and makes it. -/
theorem fieldResult_creation (object : String) {field : Field Store (Subject BlogNode)}
    (h : field ∈ mutationObject.fields) (parent : Subject BlogNode) (arguments : BoundArguments)
    (s : Store) : fieldResult object field parent arguments s =
      match callOfArguments field.name arguments with
      | .ok c => (creationResult (c.run s).1, (c.run s).2)
      | .error e => (.error e, s) := by
  simp only [mutationObject, List.mem_cons, List.not_mem_nil, or_false] at h
  rcases h with rfl | rfl
  · exact liftResolver_creating .post .post (fun _ _ => rfl) (fun _ => rfl) parent arguments s
  · exact liftResolver_creating .author .author (fun _ _ => rfl) (fun _ => rfl) parent arguments s

/-- A record is of the type of the field that creates it. -/
theorem complete_created {field : Field Store (Subject BlogNode)}
    (h : field ∈ mutationObject.fields) {arguments : BoundArguments} {c : Call} {s : Store}
    {record : Record} (hc : callOfArguments field.name arguments = .ok c)
    (hrun : (c.run s).1 = .ok record) :
    Service.schema.executable.complete field.type (.node (.value (nodeOf record))) =
      .ok (some (.node (.value (nodeOf record)))) := by
  have completes (name : String) (hname : (Service.schema.executable.object? name).isSome)
      (htype : Node.typeName (nodeOf record) = some name) :
      Service.schema.executable.complete (.namedNonNull name) (.node (.value (nodeOf record))) =
        .ok (some (.node (.value (nodeOf record)))) := by
    obtain ⟨o, ho⟩ := Option.isSome_iff_exists.1 hname
    obtain ⟨-, rfl⟩ := Registry.mem_of_object? ho
    have htag : Node.typeName (Subject.value (nodeOf record)) = some o.name := htype
    have hfind := Registry.object?_eq_some_iff.1 ho
    simp [TypeRef.namedNonNull, TypeRef.required, Registry.complete, Registry.completeNamed,
      FieldValue.isNull, hfind, htag]
  simp only [mutationObject, List.mem_cons, List.not_mem_nil, or_false] at h
  rcases h with rfl | rfl
  · obtain ⟨n, -, rfl⟩ := map_eq_ok_iff.1 hc
    obtain ⟨p, -, rfl⟩ := map_eq_ok_iff.1 hrun
    exact completes BlogNode.postType (by decide +kernel) rfl
  · obtain ⟨a, -, rfl⟩ := map_eq_ok_iff.1 hc
    obtain ⟨b, -, rfl⟩ := map_eq_ok_iff.1 hrun
    exact completes BlogNode.authorType (by decide +kernel) rfl

theorem ne_store_of_string {b : BoundArguments} {name : String} {e : FieldError}
    (h : b.string name = .error e) (error : StoreError) : e ≠ .store error := by
  unfold BoundArguments.string at h
  split at h
  · cases h
  · exact Except.error.inj h ▸ nofun

theorem ne_store_of_categoryArgument {b : BoundArguments} {name : String} {e : FieldError}
    (h : categoryArgument b name = .error e) (error : StoreError) : e ≠ .store error := by
  unfold categoryArgument at h
  split at h
  · cases h
  · split at h
    · cases h
    · exact Except.error.inj h ▸ nofun

theorem ne_store_of_newPostOf {b : BoundArguments} {e : FieldError} (h : newPostOf b = .error e)
    (error : StoreError) : e ≠ .store error := by
  unfold newPostOf at h
  rcases bind_eq_error_iff.1 h with h | ⟨_, -, h⟩
  · exact ne_store_of_string h error
  rcases bind_eq_error_iff.1 h with h | ⟨_, -, h⟩
  · exact ne_store_of_string h error
  rcases bind_eq_error_iff.1 h with h | ⟨_, -, h⟩
  · exact ne_store_of_string h error
  rcases bind_eq_error_iff.1 h with h | ⟨_, -, h⟩
  · exact ne_store_of_categoryArgument h error
  rcases bind_eq_error_iff.1 h with h | ⟨_, -, h⟩
  · exact ne_store_of_string h error
  · cases h

theorem ne_store_of_newAuthorOf {b : BoundArguments} {e : FieldError}
    (h : newAuthorOf b = .error e) (error : StoreError) : e ≠ .store error := by
  unfold newAuthorOf at h
  rcases bind_eq_error_iff.1 h with h | ⟨_, -, h⟩
  · exact ne_store_of_string h error
  rcases bind_eq_error_iff.1 h with h | ⟨_, -, h⟩
  · exact ne_store_of_string h error
  · cases h

/-- Arguments that make no call are never an error of the store. -/
theorem ne_store_of_callOfArguments {name : String} {b : BoundArguments} {e : FieldError}
    (h : callOfArguments name b = .error e) (error : StoreError) : e ≠ .store error := by
  unfold callOfArguments at h
  split at h
  · cases hn : newPostOf b with
    | ok n => rw [hn] at h; cases h
    | error e' => rw [hn] at h; exact Except.error.inj h ▸ ne_store_of_newPostOf hn error
  · cases ha : newAuthorOf b with
    | ok a => rw [ha] at h; cases h
    | error e' => rw [ha] at h; exact Except.error.inj h ▸ ne_store_of_newAuthorOf ha error

/-- What the selection of a creation comes to, from `p` on: its arguments make no call, or the call
is refused, or it is made and all that fails after it lies below the selection. -/
inductive CreationOutcome (scope : BlogScope) (f : FieldPlan) (p : Progress Store)
    (outcome : Except ResponseError (List (String × Value)) × Progress Store) : Prop
  | unread (e : ResponseError) (hcall : callOf? scope f = none) (houtcome : outcome = (.error e, p))
      (hcause : ∀ error location, e.cause ≠ .field (.store error) location)
  | refused (c : Call) (error : StoreError) (location : Location) (hcall : callOf? scope f = some c)
      (hrun : (c.run p.state).1 = .error error)
      (houtcome : outcome = (.error ⟨.field (.store error) location, some [.key f.key]⟩, p))
  | made (c : Call) (record : Record) (hcall : callOf? scope f = some c)
      (hrun : (c.run p.state).1 = .ok record)
      (houtcome : Run.Unchanged (ResponseError.IsBelow [.key f.key])
        (ResponseError.IsBelow [.key f.key]) ⟨(c.run p.state).2, p.recorded⟩ outcome)

/-- The fields of the mutation root are ordinary ones that cannot be null. -/
theorem ordinary_of_mem {field : Field Store (Subject BlogNode)}
    (h : field ∈ mutationObject.fields) : field.role = .ordinary ∧ field.type.isNonNull := by
  simp only [mutationObject, List.mem_cons, List.not_mem_nil, or_false] at h
  rcases h with rfl | rfl
  · exact ⟨rfl, rfl⟩
  · exact ⟨rfl, rfl⟩

/-- What is selected inside a creation only reads. -/
theorem inside_readsBelow {scope : BlogScope}
    (hregistry : scope.registry = Service.schema.executable)
    {field : Field Store (Subject BlogNode)} (h : field ∈ mutationObject.fields) (plans : List Plan)
    (o : ObjectType Store (Subject BlogNode)) (v : Subject BlogNode) (path : Path)
    (ho : scope.registry.Possible field.type.baseName o) :
    Run.ReadsBelow path ((executeAll scope o v path plans).mapResult Value.ofSelections) := by
  have hroot : .object mutationObject ∈ Service.schema.executable.types :=
    (Registry.mem_of_object? object?_mutationType).1
  have hreader : IsReader o := isReader_of_possible hroot h (hregistry ▸ ho)
  exact (executeAll_readsBelow (hregistry ▸ readOnly) hreader v path plans).mapResult _

/-- The arguments of a creation make no call, or the field gives what the call does. -/
theorem resolveDeclared_creation {name : String} {field : Field Store (Subject BlogNode)}
    (hfield : mutationObject.field? name = some field) (parent : Subject BlogNode)
    (arguments : Entries Value) (s : Store) :
    let r := Service.schema.executable
    let bound := r.bind field.name field.arguments arguments
    let outcome := resolveDeclared r mutationObject.name field.name parent arguments s
    (∃ e, outcome = (.error e, s) ∧ (∀ error, e ≠ .store error) ∧
      bound.toOption.bind (fun b => (callOfArguments field.name b).toOption) = none) ∨
    ∃ c, bound.toOption.bind (fun b => (callOfArguments field.name b).toOption) = some c ∧
      ((∃ error, (c.run s).1 = .error error ∧ outcome = (.error (.store error), s)) ∨
        ∃ record, (c.run s).1 = .ok record ∧
          outcome = (.ok (some (.node (.value (nodeOf record)))), (c.run s).2)) := by
  intro r bound outcome
  have hmem : field ∈ mutationObject.fields := List.mem_of_find?_eq_some hfield
  have houtcome : outcome = resolveField r mutationObject.name field parent arguments s := by
    rw [← resolveDeclared_eq (Registry.field?_of_object object?_mutationType hfield)]
  rw [resolveField, show r.bind field.name field.arguments arguments = bound from rfl] at houtcome
  cases hbound : bound with
  | error e =>
    rw [hbound] at houtcome
    exact .inl ⟨e, houtcome, Registry.ne_store_of_bind hbound, rfl⟩
  | ok b =>
    cases hc : callOfArguments field.name b with
    | error e =>
      simp only [hbound, fieldResult_creation _ hmem, hc] at houtcome
      exact .inl ⟨e, houtcome, ne_store_of_callOfArguments hc, congrArg Except.toOption hc⟩
    | ok c =>
      refine .inr ⟨c, congrArg Except.toOption hc, ?_⟩
      cases hrun : (c.run s).1 with
      | error error =>
        simp only [hbound, fieldResult_creation _ hmem, hc, hrun, Store.run_eq_of_error hrun,
          creationResult] at houtcome
        exact .inl ⟨error, rfl, houtcome⟩
      | ok record =>
        simp only [hbound, fieldResult_creation _ hmem, hc, hrun, creationResult] at houtcome
        exact .inr ⟨record, rfl, by rw [houtcome, complete_created hmem hc hrun]⟩

/-- The run of a field that fails, at a position that cannot be null. -/
theorem position_of_resolveDeclared_error {scope : BlogScope}
    {inside : Inside Store (Subject BlogNode)}
    {object : String} {field : Field Store (Subject BlogNode)} {head : FieldHead}
    {parent : Subject BlogNode} {values : Entries Value} {p : Progress Store} {e : FieldError}
    (hrole : field.role = .ordinary) (htype : field.type.isNonNull) (path : Path)
    (h : resolveDeclared scope.registry object field.name parent
      (withDefaults field.arguments values) p.state = (.error e, p.state)) :
    Run.position field.type path (runWith scope inside object field head parent path values) p =
      (.error ⟨.field e (.ofRemaining scope.source head.remaining), some path⟩, p) := by
  have hfield : runField scope object field parent (withDefaults field.arguments values)
      head.remaining p =
        (.error ⟨.field e (.ofRemaining scope.source head.remaining), none⟩, p) := by
    rw [runField, h]
    simp only [causeOf, hrole]
  exact Run.position_of_error (Run.andThen_of_error hfield) htype path

/-- A creation that is selected does one of three things. -/
theorem executeOne_creation {scope : BlogScope}
    (hregistry : scope.registry = Service.schema.executable) {f : FieldPlan}
    {field : Field Store (Subject BlogNode)}
    (hfield : mutationObject.field? f.head.name = some field)
    (hname : f.head.name ≠ Plan.typeNameField) (parent : Subject BlogNode) (p : Progress Store) :
    CreationOutcome scope f p (executeOne scope mutationObject parent [] f.toPlan p) := by
  have hmem : field ∈ mutationObject.fields := List.mem_of_find?_eq_some hfield
  obtain ⟨hrole, htype⟩ := ordinary_of_mem hmem
  rw [FieldPlan.toPlan, executeOne, if_neg hname, hfield]
  simp only [runAt, hrole, List.nil_append]
  cases hwritten : scope.written f.head.arguments with
  | error issue =>
    have hrun : runWritten scope f.head.arguments p = (.error ⟨.request issue, none⟩, p) := by
      rw [runWritten, hwritten]
      rfl
    refine .unread ⟨.request issue, none⟩ ?_ ?_ nofun
    · simp [callOf?, hfield, Scope.boundArguments?, hwritten, Except.toOption]
    · exact Run.andThen_of_error (Run.andThen_of_error hrun)
  | ok values =>
    have hrun : runWritten scope f.head.arguments p = (.ok values, p) := by
      rw [runWritten, hwritten]
      rfl
    have hcall : callOf? scope f = (Service.schema.executable.bind field.name field.arguments
        (withDefaults field.arguments values)).toOption.bind fun arguments =>
          (callOfArguments field.name arguments).toOption := by
      simp only [callOf?, hfield, Scope.boundArguments?, hwritten, Except.toOption, hregistry,
        Option.bind_eq_bind, Option.bind_some]
    rw [Run.mapResult, Run.andThen_assoc, Run.andThen_of_ok hrun]
    obtain ⟨e, houtcome, hstore, hnone⟩ | ⟨c, hsome, hcases⟩ :=
      resolveDeclared_creation hfield parent (withDefaults field.arguments values) p.state
    · rw [← hregistry] at houtcome
      exact .unread _ (hcall.trans hnone)
        (Run.andThen_of_error (position_of_resolveDeclared_error hrole htype _ houtcome))
        fun error location heq => hstore error (Cause.field.inj heq).1
    · rcases hcases with ⟨error, hrefused, houtcome⟩ | ⟨record, hmade, houtcome⟩
      · rw [← hregistry] at houtcome
        exact .refused c error _ (hcall.trans hsome) hrefused
          (Run.andThen_of_error (position_of_resolveDeclared_error hrole htype _ houtcome))
      · refine .made c record (hcall.trans hsome) hmade
          (Run.Unchanged.mapResult (Run.Unchanged.position ?_ htype _) _)
        have hfield' : runField scope mutationObject.name field parent
            (withDefaults field.arguments values) f.head.remaining p =
              (.ok (some (.node (.value (nodeOf record)))), ⟨(c.run p.state).2, p.recorded⟩) := by
          rw [runField, hregistry, houtcome]
        rw [runWith, Run.andThen_of_ok hfield']
        refine present_of_runField ?_ hfield' (inside_readsBelow hregistry hmem f.plans) _
        exact hregistry ▸ Registry.field?_of_object object?_mutationType hfield

end Blog

end Gazette
