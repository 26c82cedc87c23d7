import Gazette.Proofs.Blog.Effects
import Gazette.Proofs.Blog.Showing
import Gazette.Proofs.Request.Failures
import Gazette.Proofs.Time.Timestamp

/-!
# Reading what was written

What a request creates is read back ever after (`read_your_writes`): whatever requests come later
and wherever the clock goes, a query shows the post or the author as the arguments of its creation
describe it, and shows a post among others exactly where it belongs.  Each post is dated by a
reading of the clock of its own, so that the posts of one request may have different dates.
-/

namespace Gazette

open Store (Call Event Record)

namespace Blog

open Execution

/-! ## What happens to a store -/

/-- What can happen to the store of a service: a request is answered, or another clock is set. -/
inductive Step where
  /-- A request of some client. -/
  | request (r : Request)
  /-- Another clock. -/
  | clock (c : Clock)

/-- The store after a step. -/
def Step.apply : Step → Store → Store
  | request r, s => (Service.schema.respond r s).2
  | clock c, s => s.setClock c

/-- The store after some steps. -/
def afterSteps (s : Store) (steps : List Step) : Store := steps.foldl (fun s step => step.apply s) s

section

variable {scope : BlogScope} {fields before later : List FieldPlan} {f : FieldPlan}
  {p p' : Progress Store} {results : List (String × Value)} {s : Store}

/-- Fields of the mutation root make some calls. -/
theorem exists_calls_of_fields (hregistry : scope.registry = Service.schema.executable)
    (fields : List FieldPlan) (p : Progress Store) : ∃ calls : List Call,
      (executeFields scope mutationObject scope.root [] fields p).2.state =
        p.state.after (calls.map .call) := by
  obtain ⟨_, calls, _, h⟩ := executeFields_performed hregistry fields p
  exact ⟨calls, h.store_eq⟩

/-- A request makes some calls. -/
theorem exists_calls_of_request (request : Request) (s : Store) : ∃ calls : List Call,
    (Service.schema.respond request s).2 = s.after (calls.map .call) := by
  cases hselect : Service.schema.select request with
  | error issues => exact ⟨[], by rw [Schema.respond_of_select_error hselect]; rfl⟩
  | ok selected =>
    rw [Schema.respond_of_select_ok hselect]
    rcases root_of_select hselect with ⟨-, hroot⟩ | ⟨-, hroot⟩
    · exact ⟨[], snd_respond_query rfl hroot selected.plans s⟩
    · obtain ⟨calls, h⟩ := @respond_mutation
        (Service.schema.scope request selected.operation) rfl selected.plans s
      rw [hroot]
      exact ⟨calls, h.store_eq⟩

/-- What happens to a store is a history of it. -/
theorem exists_history (s : Store) (steps : List Step) :
    ∃ history, afterSteps s steps = s.after history := by
  induction steps generalizing s with
  | nil => exact ⟨[], rfl⟩
  | cons step rest ih =>
    have hstep : ∃ first, step.apply s = s.after first := by
      cases step with
      | request r =>
        obtain ⟨calls, h⟩ := exists_calls_of_request r s
        exact ⟨_, h⟩
      | clock c => exact ⟨[.clock c], rfl⟩
    obtain ⟨first, hfirst⟩ := hstep
    obtain ⟨history, hhistory⟩ := ih (step.apply s)
    refine ⟨first ++ history, ?_⟩
    rw [Store.after_append, ← hfirst, ← hhistory]
    rfl

/-- A call reads the clock once for the post that it creates, and not if it creates none. -/
theorem exists_readings_of_run (c : Call) (s : Store) :
    ∃ k, (c.run s).2.posts.length = s.posts.length + k ∧
      (c.run s).2.clock = Clock.tick^[k] s.clock := by
  rcases c.run_cases s with ⟨e, hrun⟩ | ⟨a, -, -, hrun⟩ | ⟨n, -, -, -, hrun⟩
  · exact ⟨0, by rw [hrun]; rfl, by rw [hrun]; rfl⟩
  · exact ⟨0, by rw [hrun]; rfl, by rw [hrun]; rfl⟩
  · exact ⟨1, by rw [hrun, List.length_append]; rfl, by rw [hrun]; rfl⟩

/-- Calls read the clock once for every post that they create. -/
theorem exists_readings (s : Store) (calls : List Call) :
    ∃ k, (s.after (calls.map .call)).posts.length = s.posts.length + k ∧
      (s.after (calls.map .call)).clock = Clock.tick^[k] s.clock := by
  induction calls generalizing s with
  | nil => exact ⟨0, rfl, rfl⟩
  | cons c rest ih =>
    obtain ⟨j, hlength, hclock⟩ := exists_readings_of_run c s
    obtain ⟨k, hrest, hticks⟩ := ih (c.run s).2
    refine ⟨k + j, ?_, ?_⟩
    · rw [List.map_cons, Store.after_cons, Event.apply, hrest, hlength, Nat.add_assoc,
        Nat.add_comm j]
    · rw [List.map_cons, Store.after_cons, Event.apply, hticks, hclock, Function.iterate_add_apply]

/-! ## Creations that are made -/

/-- The resolver of a creation gives a result if the store accepts its call. -/
theorem exists_result_iff {field : Field Store (Subject BlogNode)}
    (h : field ∈ mutationObject.fields) {parent : Subject BlogNode} {b : BoundArguments} :
    (∃ result, (fieldResult mutationType field parent b s).1 = .ok result) ↔
      ∃ c record, callOfArguments field.name b = .ok c ∧ (c.run s).1 = .ok record := by
  rw [fieldResult_creation _ h]
  cases hcall : callOfArguments field.name b with
  | error e => simp
  | ok c => cases hrun : (c.run s).1 <;> simp [hrun, creationResult]

theorem callOf?_eq_some_iff {c : Call} : callOf? scope f = some c ↔
    ∃ field b, mutationObject.field? f.head.name = some field ∧
      scope.boundArguments? field f.head.arguments = some b ∧
      callOfArguments field.name b = .ok c := by
  simp only [callOf?, Option.bind_eq_bind, Option.bind_eq_some_iff, toOption_eq_some_iff,
    exists_and_left]

theorem ne_typeName_of_field? {field : Field Store (Subject BlogNode)}
    (h : mutationObject.field? f.head.name = some field) : f.head.name ≠ Plan.typeNameField := by
  intro hname
  rw [hname] at h
  cases h

/-- A call that the store accepts is what its field does. -/
theorem state_of_accepted (hregistry : scope.registry = Service.schema.executable) {c : Call}
    (hcall : callOf? scope f = some c) {record : Record} (hrun : (c.run p.state).1 = .ok record) :
    (executeOne scope mutationObject scope.root [] f.toPlan p).2.state = (c.run p.state).2 := by
  obtain ⟨field, b, hfield, -, -⟩ := callOf?_eq_some_iff.1 hcall
  cases executeOne_creation hregistry hfield (ne_typeName_of_field? hfield) scope.root p with
  | unread e hnone => cases hnone.symm.trans hcall
  | refused c' error location hcall' hrefused =>
    obtain rfl := Option.some.inj (hcall'.symm.trans hcall)
    cases hrefused.symm.trans hrun
  | made c' record' hcall' hmade houtcome =>
    obtain rfl := Option.some.inj (hcall'.symm.trans hcall)
    exact houtcome.1

/-- If the fields before run and the store accepts the call of a field, then the call is one of
those that the fields make. -/
theorem exists_calls_of_accepted (hregistry : scope.registry = Service.schema.executable)
    (hbefore : executeFields scope mutationObject scope.root [] before p = (.ok results, p'))
    {c : Call} (hcall : callOf? scope f = some c) {record : Record}
    (hrun : (c.run p'.state).1 = .ok record) (later : List FieldPlan) : ∃ more : List Call,
      (executeFields scope mutationObject scope.root [] (before ++ f :: later) p).2.state =
        (c.run p'.state).2.after (more.map .call) := by
  have hstate := state_of_accepted hregistry hcall hrun
  rw [executeFields_append, Run.andThen_of_ok hbefore, Run.mapResult_apply, executeFields]
  rcases hone : executeOne scope mutationObject scope.root [] f.toPlan p' with ⟨e | first, p''⟩
  · rw [hone] at hstate
    rw [Run.andThen_of_error hone]
    exact ⟨[], hstate⟩
  · rw [hone] at hstate
    rw [Run.andThen_of_ok hone, Run.mapResult_apply]
    obtain ⟨more, hmore⟩ := exists_calls_of_fields hregistry later p''
    exact ⟨more, hstate ▸ hmore⟩

end

/-- Whether a request makes a creation with bound arguments on a store: it selects a field of the
mutation root that binds these arguments, the fields before it run and leave the store in which it
is made, and its resolver gives a result. -/
inductive Creates (s : Store) (request : Request) (field : BlogField) (b : BoundArguments) :
    Store → Prop
  | intro (selected : Schema.Selected Store (Subject BlogNode)) (before later : List FieldPlan)
    (f : FieldPlan) (results : List (String × Value)) (p : Progress Store)
    (select_eq : Service.schema.select request = .ok selected)
    (kind_eq : selected.operation.kind = .mutation)
    (fields_eq : Plan.fieldsOn selected.root selected.plans = before ++ f :: later)
    (before_eq : executeFields (Service.schema.scope request selected.operation) selected.root
      (Service.schema.scope request selected.operation).root [] before ⟨s, []⟩ = (.ok results, p))
    (name_eq : f.head.name = field.name)
    (bound : (Service.schema.scope request selected.operation).boundArguments?
      (Registry.liftField .root field) f.head.arguments = some b)
    (result : ∃ result, (fieldResult mutationType (Registry.liftField .root field) (.value .root) b
      p.state).1 = .ok result) : Creates s request field b p.state

section

variable {s found : Store} {request : Request} {field : BlogField} {b : BoundArguments}

theorem mem_mutationObject (h : field ∈ mutationRoot.fields) :
    Registry.liftField .root field ∈ mutationObject.fields :=
  List.mem_map_of_mem (f := Registry.liftField BlogNode.root) h

theorem field?_mutationObject (h : field ∈ mutationRoot.fields) :
    mutationObject.field? field.name = some (Registry.liftField .root field) := by
  simp only [mutationRoot, List.mem_cons, List.not_mem_nil, or_false] at h
  rcases h with rfl | rfl
  · rfl
  · rfl

/-- A creation that a request makes is one of its calls. -/
theorem Creates.exists_call (h : Creates s request field b found)
    (hfield : field ∈ mutationRoot.fields) :
    ∃ c record, ∃ earlier more : List Call, callOfArguments field.name b = .ok c ∧
      found = s.after (earlier.map .call) ∧ (c.run found).1 = .ok record ∧
      (Service.schema.respond request s).2 = (c.run found).2.after (more.map .call) := by
  obtain ⟨selected, before, later, f, results, p, hselect, hkind, hfields, hbefore, hname, hbound,
    hresult⟩ := h
  obtain ⟨c, record, hcall, hrun⟩ := (exists_result_iff (mem_mutationObject hfield)).1 hresult
  have hobject := root_eq_mutationObject hselect hkind
  rw [hobject] at hfields hbefore
  obtain ⟨earlier, hearlier⟩ := @exists_calls_of_fields
    (Service.schema.scope request selected.operation) rfl before ⟨s, []⟩
  have hstate : p.state = s.after (earlier.map .call) := by
    rw [← hearlier]
    exact congrArg (fun outcome => outcome.2.state) hbefore.symm
  have hcallOf : callOf? (Service.schema.scope request selected.operation) f = some c :=
    callOf?_eq_some_iff.2 ⟨_, b, hname ▸ field?_mutationObject hfield, hbound, hcall⟩
  obtain ⟨more, hmore⟩ := exists_calls_of_accepted rfl hbefore hcallOf hrun later
  refine ⟨c, record, earlier, more, hcall, hstate, hrun, ?_⟩
  rw [Schema.respond_of_select_ok hselect, (respond_eq ..).1, hobject, hfields]
  exact hmore

/-- A post that is created can be found, and so can its author. -/
theorem Creates.exists_post (h : Creates s request createPost b found) :
    let created := (Service.schema.respond request s).2
    ∃ n a, newPostOf b = .ok n ∧ created.Finds (.post (n.publish found.clock.now)) ∧
      created.author? n.author = some a := by
  obtain ⟨c, record, -, more, hcall, -, hrun, hcreated⟩ := h.exists_call (.head _)
  obtain ⟨n, hn, rfl⟩ := map_eq_ok_iff.1 hcall
  have hfinds := Store.finds_of_outcome (e := .call (.post n)) (congrArg some hrun)
  intro created
  rw [show created = _ from hcreated]
  rcases Store.createPost_cases n found with ⟨-, hcreate⟩ | ⟨-, -, hcreate⟩ | ⟨-, hknown, hcreate⟩
  · rw [Call.run, hcreate] at hrun
    cases hrun
  · rw [Call.run, hcreate] at hrun
    cases hrun
  · obtain ⟨a, ha⟩ := Option.isSome_iff_exists.1 hknown
    rw [Call.run, hcreate] at hrun
    obtain rfl := Except.ok.inj hrun
    exact ⟨n, a, hn, hfinds.after _,
      Store.author?_after (Store.author?_apply (.call (.post n)) ha) _⟩

/-- The clock in the store in which a creation is made was read once for every post before it. -/
theorem Creates.exists_readings (h : Creates s request field b found)
    (hfield : field ∈ mutationRoot.fields) :
    ∃ k, found.posts.length = s.posts.length + k ∧ found.clock = Clock.tick^[k] s.clock := by
  obtain ⟨-, -, earlier, -, -, rfl, -⟩ := h.exists_call hfield
  exact Blog.exists_readings s earlier

/-- An author that is created can be found. -/
theorem Creates.exists_author (h : Creates s request createAuthor b found) :
    ∃ a, newAuthorOf b = .ok a ∧ (Service.schema.respond request s).2.Finds (.author a) := by
  obtain ⟨c, record, -, more, hcall, -, hrun, hcreated⟩ := h.exists_call (.tail _ (.head _))
  obtain ⟨a, ha, rfl⟩ := map_eq_ok_iff.1 hcall
  have hfinds := Store.finds_of_outcome (e := .call (.author a)) (congrArg some hrun)
  rcases Store.createAuthor_cases a found with ⟨-, hcreate⟩ | ⟨-, hcreate⟩
  · rw [Call.run, hcreate] at hrun
    cases hrun
  · rw [Call.run, hcreate] at hrun
    obtain rfl := Except.ok.inj hrun
    rw [hcreated]
    exact ⟨a, ha, hfinds.after _⟩

/-! ## What arguments describe -/

/-- Whether bound arguments describe a new post. -/
structure DescribesPost (b : BoundArguments) (n : NewPost) : Prop where
  id : b.get? "id" = some (.string n.id)
  title : b.get? "title" = some (.string n.title)
  content : b.get? "content" = some (.string n.content)
  summary : StandsFor .string (b.get? "summary") n.summary
  category : StandsFor enumOf (b.get? "category") n.category
  author : b.get? "author" = some (.string n.author)

/-- Whether bound arguments describe an author. -/
structure DescribesAuthor (b : BoundArguments) (a : Author) : Prop where
  id : b.get? "id" = some (.string a.id)
  name : b.get? "name" = some (.string a.name)
  twitterHandle : StandsFor .string (b.get? "twitterHandle") a.twitterHandle

theorem get?_of_string {name text : String} (h : b.string name = .ok text) :
    b.get? name = some (.string text) := by
  unfold BoundArguments.string BoundArguments.optionalString at h
  split at h
  · rename_i found hfound
    split at hfound
    · rename_i hget
      rw [hget, Option.some.inj hfound, Except.ok.inj h]
    · cases hfound
  · cases h

/-- The arguments of a creation that is made are bound. -/
theorem Creates.binds (h : Creates s request field b found)
    (hnodup : (field.arguments.map ArgumentSpec.name).Nodup) :
    executable.Binds (Registry.liftField .root field) b := by
  obtain ⟨selected, before, later, f, results, p, -, -, -, -, -, hbound, -⟩ := h
  obtain ⟨values, -, hbind⟩ := Scope.boundArguments?_eq_some_iff.1 hbound
  exact .of_bind hnodup hbind

variable {f : Field Store (Subject BlogNode)} {name : String}

/-- Whether an argument is declared with a type. -/
def Declares (f : Field Store (Subject BlogNode)) (name : String) (type : TypeRef) : Prop :=
  ∃ spec ∈ f.arguments, spec.name = name ∧ spec.type = type

instance (type : TypeRef) : Decidable (Declares f name type) :=
  inferInstanceAs (Decidable (∃ spec ∈ f.arguments, spec.name = name ∧ spec.type = type))

theorem standsFor_optionalString (hb : executable.Binds f b)
    (h : Declares f name (.named builtin.string)) :
    StandsFor .string (b.get? name) (b.optionalString name) := by
  obtain ⟨spec, hspec, rfl, htype⟩ := h
  obtain ⟨t, ht⟩ := installed.string
  unfold BoundArguments.optionalString
  rcases hb.get?_eq hspec with ⟨value, c, hc, hget⟩ | ⟨hget, -⟩
  · rw [hget]
    rcases Registry.coerce_string ht (htype ▸ hc) with rfl | ⟨text, rfl⟩
    · exact .inr rfl
    · rfl
  · rw [hget]
    exact .inl rfl

theorem standsFor_categoryArgument (hb : executable.Binds f b)
    (h : Declares f name (.named categoryType)) {found : Option Category}
    (hfound : categoryArgument b name = .ok found) : StandsFor enumOf (b.get? name) found := by
  obtain ⟨spec, hspec, rfl, htype⟩ := h
  unfold categoryArgument BoundArguments.enumName at hfound
  rcases hb.get?_eq hspec with ⟨value, c, hc, hget⟩ | ⟨hget, -⟩
  · rw [hget] at hfound ⊢
    rcases Registry.coerce_enum find?_category (htype ▸ hc) with rfl | ⟨member, rfl, -⟩
    · obtain rfl := Except.ok.inj hfound
      exact .inr rfl
    · simp only [Option.bind_some, Value.name?] at hfound
      cases hc : Category.ofName? member with
      | none =>
        rw [hc] at hfound
        cases hfound
      | some c =>
        rw [hc] at hfound
        obtain rfl := Except.ok.inj hfound
        have hname : c.name = member := key_of_find? hc
        rw [← hname]
        rfl
  · rw [hget] at hfound ⊢
    obtain rfl := Except.ok.inj hfound
    exact .inl rfl

theorem describesPost_of_newPostOf (hb : executable.Binds (Registry.liftField .root createPost) b)
    {n : NewPost} (h : newPostOf b = .ok n) : DescribesPost b n := by
  obtain ⟨id, hid, h⟩ := bind_eq_ok_iff.1 h
  obtain ⟨title, htitle, h⟩ := bind_eq_ok_iff.1 h
  obtain ⟨content, hcontent, h⟩ := bind_eq_ok_iff.1 h
  obtain ⟨category, hcategory, h⟩ := bind_eq_ok_iff.1 h
  obtain ⟨author, hauthor, h⟩ := bind_eq_ok_iff.1 h
  obtain rfl := Except.ok.inj h
  exact ⟨get?_of_string hid, get?_of_string htitle, get?_of_string hcontent,
    standsFor_optionalString hb (by decide), standsFor_categoryArgument hb (by decide) hcategory,
    get?_of_string hauthor⟩

theorem describesAuthor_of_newAuthorOf
    (hb : executable.Binds (Registry.liftField .root createAuthor) b) {a : Author}
    (h : newAuthorOf b = .ok a) : DescribesAuthor b a := by
  obtain ⟨id, hid, h⟩ := bind_eq_ok_iff.1 h
  obtain ⟨name, hname, h⟩ := bind_eq_ok_iff.1 h
  obtain rfl := Except.ok.inj h
  exact ⟨get?_of_string hid, get?_of_string hname, standsFor_optionalString hb (by decide)⟩

end

/-! ## Where a post is shown -/

section

variable {scope : BlogScope} {s : Store} {fields : List FieldPlan} {members : Entries Value}

/-- Whether a node is a post with an id. -/
def isPost (id : String) : BlogNode → Bool
  | .post p => p.id = id
  | _ => false

/-- Whether members show a post of a store wherever a field of the query root asks for it: as the
post with its id, once among the posts and those of its category and not among those of another one,
and once among the contributions of its author and not among those of another one. -/
structure ReadsPost (scope : BlogScope) (s : Store) (p : Post) (fields : List FieldPlan)
    (members : Entries Value) : Prop where
  post : ∀ f ∈ fields, f.head.name = "post" → argument? scope f "id" = some (.string p.id) →
    ∃ value, members.lookup f.key = some value ∧
      ShowsPost s p (FieldPlan.collect fields f.key) value
  posts : ∀ f ∈ fields, f.head.name = "posts" → ∀ found,
    StandsFor enumOf (argument? scope f "category") found →
    ∃ values, members.lookup f.key = some (.list values) ∧
      List.Forall₂ (fun q => ShowsPost s q (FieldPlan.collect fields f.key)) (postsIn s found)
        values ∧
      (postsIn s found).filter (fun q => q.id = p.id) =
        if found.all fun c => p.category = some c then [p] else []
  contributions : ∀ f ∈ fields, f.head.name = "contributions" → ∀ id,
    argument? scope f "author" = some (.string id) →
    ∃ values, members.lookup f.key = some (.list values) ∧
      List.Forall₂ (fun n => ShowsNode s n (FieldPlan.collect fields f.key)) (contributionsOf s id)
        values ∧
      (contributionsOf s id).filter (isPost p.id) = if p.author = id then [.post p] else []

/-- Whether members show an author wherever a field of the query root asks for the one with its
id. -/
def ReadsAuthor (scope : BlogScope) (a : Author) (fields : List FieldPlan)
    (members : Entries Value) : Prop :=
  ∀ f ∈ fields, f.head.name = "author" → argument? scope f "id" = some (.string a.id) →
    ∃ value, members.lookup f.key = some value ∧
      ShowsAuthor a (FieldPlan.collect fields f.key) value

/-- In a list without repeated keys, one item has the key of a member. -/
theorem filter_key_eq {α : Type} {key : α → String} {l : List α}
    (h : l.Pairwise fun x y => key x ≠ key y) {x : α} (hx : x ∈ l) :
    l.filter (fun y => key y = key x) = [x] := by
  induction l with
  | nil => cases hx
  | cons y rest ih =>
    obtain ⟨hy, hrest⟩ := List.pairwise_cons.1 h
    rcases List.mem_cons.1 hx with rfl | hx
    · have hnone : rest.filter (fun y => key y = key x) = [] :=
        List.filter_eq_nil_iff.2 fun z hz => by simpa using (hy z hz).symm
      rw [List.filter_cons_of_pos (by simp), hnone]
    · rw [List.filter_cons_of_neg (by simpa using hy x hx), ih hrest hx]

/-- Of the posts that pass a check, one has the id of a post, if this passes. -/
theorem filter_posts (hs : s.Sound) {p : Post} (hp : p ∈ s.posts) (check : Post → Bool) :
    (s.posts.filter check).filter (fun q => q.id = p.id) = if check p then [p] else [] := by
  rw [List.filter_comm, filter_key_eq hs.posts_distinct hp, List.filter_singleton]
  cases check p <;> rfl

theorem filter_contributionsOf (hs : s.Sound) {p : Post} (hp : p ∈ s.posts) (id : String) :
    (contributionsOf s id).filter (isPost p.id) = if p.author = id then [.post p] else [] := by
  have hcomments (comments : List Comment) :
      (comments.map BlogNode.comment).filter (isPost p.id) = [] := by
    rw [List.filter_map, List.map_eq_nil_iff]
    exact List.filter_eq_nil_iff.2 fun c _ => Bool.false_ne_true
  have hcomp : isPost p.id ∘ BlogNode.post = fun q => decide (q.id = p.id) := rfl
  rw [contributionsOf, List.filter_append, hcomments, List.append_nil, List.filter_map, hcomp,
    filter_posts hs hp]
  by_cases hauthor : p.author = id
  · simp [hauthor]
  · simp [hauthor]

theorem readsPost_of_finds (hs : s.Sound) {p : Post} (hfinds : s.Finds (.post p))
    (h : ShowsStore scope s fields members) : ReadsPost scope s p fields members where
  post f hf hname hid := by
    obtain ⟨value, hvalue, hshows⟩ := h.post f hf hname p.id hid
    rw [show s.post? p.id = some p from hfinds] at hshows
    exact ⟨value, hvalue, hshows⟩
  posts f hf hname found hfound := by
    obtain ⟨values, hvalues, hshows⟩ := h.posts f hf hname found hfound
    exact ⟨values, hvalues, hshows, filter_posts hs (hs.post?_eq_some_iff.1 hfinds).1 _⟩
  contributions f hf hname id hid := by
    obtain ⟨values, hvalues, hshows⟩ := h.contributions f hf hname id hid
    exact ⟨values, hvalues, hshows,
      filter_contributionsOf hs (hs.post?_eq_some_iff.1 hfinds).1 id⟩

theorem readsAuthor_of_finds {a : Author} (hfinds : s.Finds (.author a))
    (h : ShowsStore scope s fields members) : ReadsAuthor scope a fields members := by
  intro f hf hname hid
  obtain ⟨value, hvalue, hshows⟩ := h.author f hf hname a.id hid
  rw [show s.author? a.id = some a from hfinds] at hshows
  exact ⟨value, hvalue, hshows⟩

end

/-- Whatever comes after a request, as long as the clock shows dates, a query with admissible
arguments and mergeable selections reads back each post and each author that the request has
created, as the arguments describe them.  A post has the date that the clock showed after one
reading for each post that the request had created before. -/
theorem read_your_writes {s : Store} (hs : s.IsReachable) (request : Request) (steps : List Step)
    {query : Request} {selected : Schema.Selected Store (Subject BlogNode)}
    (h : IsQuery query selected)
    (hadmissible : ∀ e ∈ Plan.arguments selected.plans,
      isAdmissible (Service.schema.scope query selected.operation) e)
    (hmergeable : (Service.schema.scope query selected.operation).Mergeable selected.root
      selected.plans)
    (hdates : ∀ p ∈ (afterSteps (Service.schema.respond request s).2 steps).posts, p.date.IsDate) :
    let created := (Service.schema.respond request s).2
    let now := afterSteps created steps
    let scope := Service.schema.scope query selected.operation
    let fields := Plan.fieldsOn selected.root selected.plans
    ∃ members, Service.schema.respond query now = (⟨.object members, []⟩, now) ∧
      (∀ b found, Creates s request createPost b found → ∃ n a k, DescribesPost b n ∧
        found.posts.length = s.posts.length + k ∧
        created.post? n.id = some (n.publish (Clock.tick^[k] s.clock).now) ∧
        created.author? n.author = some a ∧ now.author? n.author = some a ∧
        ReadsPost scope now (n.publish (Clock.tick^[k] s.clock).now) fields members) ∧
      ∀ b found, Creates s request createAuthor b found → ∃ a, DescribesAuthor b a ∧
        ReadsAuthor scope a fields members := by
  intro created now scope fields
  obtain ⟨calls, hcalls⟩ := exists_calls_of_request request s
  obtain ⟨history, hhistory⟩ := exists_history created steps
  have hsound : now.Sound := by
    rw [show now = _ from hhistory, show created = _ from hcalls]
    exact (hs.sound.after _).after _
  have hreadable : now.Readable := hsound.readable fun p hp => (hdates p hp).isFinite_timestamp
  obtain ⟨members, hrespond, hshows⟩ :=
    queriesShow_showsStore hreadable query selected h hadmissible hmergeable
  refine ⟨members, hrespond, fun b found hb => ?_, fun b found hb => ?_⟩
  · obtain ⟨n, a, hn, hpost, hauthor⟩ := hb.exists_post
    obtain ⟨k, hposts, hclock⟩ := hb.exists_readings (.head _)
    rw [hclock] at hpost
    refine ⟨n, a, k, describesPost_of_newPostOf (hb.binds (by decide)) hn, hposts, hpost, hauthor,
      ?_, ?_⟩
    · rw [show now = _ from hhistory]
      exact Store.author?_after hauthor history
    · refine readsPost_of_finds hsound ?_ hshows
      rw [show now = _ from hhistory]
      exact hpost.after history
  · obtain ⟨a, ha, hauthor⟩ := hb.exists_author
    refine ⟨a, describesAuthor_of_newAuthorOf (hb.binds (by decide)) ha, ?_⟩
    refine readsAuthor_of_finds ?_ hshows
    rw [show now = _ from hhistory]
    exact hauthor.after history

/-! ## Some writes -/

/-- If fields run, then each of them runs behind the ones before it. -/
theorem exists_of_isOk_executeFields {scope : BlogScope} {before later : List FieldPlan}
    {f : FieldPlan} {p : Progress Store}
    (h : (executeFields scope mutationObject scope.root [] (before ++ f :: later) p).1.isOk) :
    ∃ results p' first p'',
      executeFields scope mutationObject scope.root [] before p = (.ok results, p') ∧
      executeOne scope mutationObject scope.root [] f.toPlan p' = (.ok first, p'') := by
  rw [executeFields_append] at h
  rcases hbefore : executeFields scope mutationObject scope.root [] before p with ⟨e | results, p'⟩
  · rw [Run.andThen_of_error hbefore] at h
    cases h
  · rw [Run.andThen_of_ok hbefore, Run.mapResult_apply, isOk_map, executeFields] at h
    rcases hone : executeOne scope mutationObject scope.root [] f.toPlan p' with ⟨e | first, p''⟩
    · rw [Run.andThen_of_error hone] at h
      cases h
    · exact ⟨results, p', first, p'', rfl, hone⟩

/-- A mutation whose response has data makes all the creations that it selects. -/
theorem exists_creates_of_data {s : Store} {request : Request}
    {selected : Schema.Selected Store (Subject BlogNode)}
    (hselect : Service.schema.select request = .ok selected)
    (hkind : selected.operation.kind = .mutation)
    (hdata : !(Service.schema.respond request s).1.data.isNull) {f : FieldPlan}
    (hf : f ∈ Plan.fieldsOn selected.root selected.plans) {field : BlogField}
    (hfield : field ∈ mutationRoot.fields) (hname : f.head.name = field.name) :
    ∃ b, (Service.schema.scope request selected.operation).boundArguments?
        (Registry.liftField .root field) f.head.arguments = some b ∧
        ∃ found, Creates s request field b found := by
  have hobject := root_eq_mutationObject hselect hkind
  have hlifted : mutationObject.field? f.head.name = some (Registry.liftField .root field) :=
    hname ▸ field?_mutationObject hfield
  obtain ⟨before, later, hfields⟩ := List.append_of_mem hf
  rw [Schema.respond_of_select_ok hselect, (respond_eq ..).2.2, hfields, hobject] at hdata
  obtain ⟨results, p, first, p', hbefore, hone⟩ := exists_of_isOk_executeFields hdata
  have houtcome := @executeOne_creation (Service.schema.scope request selected.operation) rfl _ _
    hlifted (ne_typeName_of_field? hlifted)
    (Service.schema.scope request selected.operation).root p
  rw [hone] at houtcome
  cases houtcome with
  | unread e _ houtcome => cases houtcome
  | refused c error location _ _ houtcome => cases houtcome
  | made c record hcall hrun =>
    obtain ⟨field', b, hfield', hbound, hc⟩ := callOf?_eq_some_iff.1 hcall
    obtain rfl := Option.some.inj (hlifted.symm.trans hfield')
    exact ⟨b, hbound, p.state, selected, before, later, f, results, p, hselect, hkind, hfields,
      hobject ▸ hbefore, hname, hbound,
      (exists_result_iff (mem_mutationObject hfield)).2 ⟨c, record, hc, hrun⟩⟩

/-- A mutation that registers an author and publishes two posts of this author. -/
def firstPosts : Request where
  query :=
    "mutation \x7b createAuthor(id: \"a\", name: \"Ada\") \x7b id \x7d" ++
      " createPost(id: \"p\", title: \"T\", content: \"C\", category: RELEASE, author: \"a\")" ++
      " \x7b id \x7d" ++
      " second: createPost(id: \"q\", title: \"U\", content: \"D\", author: \"a\")" ++
      " \x7b id \x7d \x7d"

/-- A query that leads to the first post in four ways, and to the second one by its id. -/
def rereading : Request where
  query :=
    "\x7b post(id: \"p\") \x7b title category summary timestamp author \x7b name \x7d \x7d" ++
      " posts \x7b id \x7d filed: posts(category: RELEASE) \x7b id \x7d" ++
      " contributions(author: \"a\") \x7b __typename \x7d" ++
      " author(id: \"a\") \x7b name twitterHandle \x7d" ++
      " second: post(id: \"q\") \x7b title category timestamp \x7d \x7d"

/-- Whether a selected creation binds an id. -/
def bindsId (request : Request) (selected : Schema.Selected Store (Subject BlogNode))
    (field : BlogField) (id : String) (f : FieldPlan) : Bool :=
  f.head.name = field.name &&
    ((Service.schema.scope request selected.operation).boundArguments?
      (Registry.liftField .root field) f.head.arguments).any
        fun b => b.optionalString "id" = some id

theorem exists_creates_of_bindsId {s : Store} {request : Request}
    {selected : Schema.Selected Store (Subject BlogNode)}
    (hselect : Service.schema.select request = .ok selected)
    (hkind : selected.operation.kind = .mutation)
    (hdata : !(Service.schema.respond request s).1.data.isNull) {field : BlogField}
    (hfield : field ∈ mutationRoot.fields) {id : String}
    (h : (Plan.fieldsOn selected.root selected.plans).any (bindsId request selected field id)) :
    ∃ b found, Creates s request field b found ∧ b.optionalString "id" = some id := by
  obtain ⟨f, hf, hbinds⟩ := List.any_eq_true.1 h
  rw [bindsId, Bool.and_eq_true, decide_eq_true_iff] at hbinds
  obtain ⟨hname, hid⟩ := hbinds
  obtain ⟨b, hbound, found, hcreates⟩ := exists_creates_of_data hselect hkind hdata hf hfield hname
  rw [hbound, Option.any_some, decide_eq_true_iff] at hid
  exact ⟨b, found, hcreates, hid⟩

/-- The mutation is made while a minute passes from its first post to its second one, asked for
again an hour later, and then its posts and its author are read. -/
theorem read_your_writes_first_posts :
    let s := Store.empty ⟨.epoch, [⟨60, 0⟩]⟩
    let created := (Service.schema.respond firstPosts s).2
    let now := afterSteps created [.clock (.still ⟨3600, 0⟩), .request firstPosts]
    ∃ selected members b found n b' found' n' c found'' a,
      IsQuery rereading selected ∧
      Service.schema.respond rereading now = (⟨.object members, []⟩, now) ∧
      Creates s firstPosts createPost b found ∧ DescribesPost b n ∧ n.id = "p" ∧
      ReadsPost (Service.schema.scope rereading selected.operation) now (n.publish .epoch)
        (Plan.fieldsOn selected.root selected.plans) members ∧
      Creates s firstPosts createPost b' found' ∧ DescribesPost b' n' ∧ n'.id = "q" ∧
      ReadsPost (Service.schema.scope rereading selected.operation) now (n'.publish ⟨60, 0⟩)
        (Plan.fieldsOn selected.root selected.plans) members ∧
      Creates s firstPosts createAuthor c found'' ∧ DescribesAuthor c a ∧ a.id = "a" ∧
      ReadsAuthor (Service.schema.scope rereading selected.operation) a
        (Plan.fieldsOn selected.root selected.plans) members := by
  intro s created now
  have hselects : Service.schema.selects firstPosts fun selected =>
      selected.operation.kind = .mutation &&
      (Plan.fieldsOn selected.root selected.plans).any
        (bindsId firstPosts selected createPost "p") &&
      (Plan.fieldsOn selected.root selected.plans).any
        (bindsId firstPosts selected createPost "q") &&
      (Plan.fieldsOn selected.root selected.plans).any
        (bindsId firstPosts selected createAuthor "a") := by
    decide +kernel
  have hpasses : passes rereading (isPlain rereading) := by decide +kernel
  have hdata : !(Service.schema.respond firstPosts s).1.data.isNull := by decide +kernel
  have hcreated : created.posts = [⟨"p", "a", some .release, "C", .epoch, "C", "T"⟩,
      ⟨"q", "a", none, "D", ⟨60, 0⟩, "D", "U"⟩] := by
    decide +kernel
  have hdates : ∀ p ∈ now.posts, p.date.IsDate := by
    have hposts : now.posts = created.posts := by decide +kernel
    rw [hposts, hcreated]
    exact List.forall_mem_cons.2 ⟨⟨by decide +kernel, by decide⟩,
      List.forall_mem_singleton.2 ⟨by decide +kernel, by decide⟩⟩
  obtain ⟨writing, hselect, hwriting⟩ := Schema.exists_of_selects hselects
  simp only [Bool.and_eq_true, decide_eq_true_iff] at hwriting
  obtain ⟨⟨⟨hkind, hpost⟩, hpost'⟩, hauthor⟩ := hwriting
  obtain ⟨selected, hquery, hadmissible, hmergeable⟩ := exists_isQuery_of_isPlain hpasses
  have hreachable : s.IsReachable := ⟨s, [], .empty _, rfl⟩
  obtain ⟨members, hrespond, hreadsPost, hreadsAuthor⟩ := read_your_writes hreachable firstPosts
    [.clock (.still ⟨3600, 0⟩), .request firstPosts] hquery hadmissible hmergeable hdates
  -- the posts that were created tell which reading of the clock each of them is dated by
  have hread {id : String} (date : Instant) (h : (created.post? id).map Post.date = some date)
      (hbinds : (Plan.fieldsOn writing.root writing.plans).any
        (bindsId firstPosts writing createPost id)) :
      ∃ b found n, Creates s firstPosts createPost b found ∧ DescribesPost b n ∧ n.id = id ∧
        ReadsPost (Service.schema.scope rereading selected.operation) now (n.publish date)
          (Plan.fieldsOn selected.root selected.plans) members := by
    obtain ⟨b, found, hb, hid⟩ := exists_creates_of_bindsId hselect hkind hdata (.head _) hbinds
    obtain ⟨n, -, k, hn, -, hdated, -, -, hread⟩ := hreadsPost b found hb
    obtain rfl : n.id = id := by simpa [BoundArguments.optionalString, hn.id] using hid
    rw [hdated, Option.map_some] at h
    exact ⟨b, found, n, hb, hn, rfl, Option.some.inj h ▸ hread⟩
  obtain ⟨b, found, n, hb, hn, hid, hfirst⟩ :=
    hread .epoch (by rw [Store.post?, hcreated]; rfl) hpost
  obtain ⟨b', found', n', hb', hn', hid', hsecond⟩ :=
    hread ⟨60, 0⟩ (by rw [Store.post?, hcreated]; rfl) hpost'
  obtain ⟨c, found'', hc, haid⟩ :=
    exists_creates_of_bindsId hselect hkind hdata (.tail _ (.head _)) hauthor
  obtain ⟨a, ha, hreadAuthor⟩ := hreadsAuthor c found'' hc
  have haid : a.id = "a" := by simpa [BoundArguments.optionalString, ha.id] using haid
  exact ⟨selected, members, b, found, n, b', found', n', c, found'', a, hquery, hrespond, hb, hn,
    hid, hfirst, hb', hn', hid', hsecond, hc, ha, haid, hreadAuthor⟩

end Blog

end Gazette
