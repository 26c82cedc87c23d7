import Gazette.Proofs.Blog.Queries

/-!
# What queries show

A query shows what the store holds (`queriesShow_showsStore`): under `post` and `author` the record
with the id, under `posts` the posts of a category, under `contributions` the posts and comments of
an author, and under `recentPosts` and `latestPost` the first ones of the posts by date.  What a
record looks like is written down leaf by leaf (`authorLeaf?`, `commentLeaf?`, `postLeaf?`).
-/

namespace Gazette.Blog

open Execution

/-! ## Objects of the blog -/

/-- An object of the blog as requests meet it. -/
def lifted (o : ObjectType Store BlogNode) : ObjectType Store (Subject BlogNode) where
  name := o.name
  description := o.description
  implements := o.implements
  fields := o.fields.map (Registry.liftField .root) ++
    if o.name = queryType then Introspection.rootFields registry.knowledge else []

variable {o : ObjectType Store BlogNode} {name : String} {g : BlogField}

theorem find?_lifted (h : .object o ∈ types) :
    executable.find? o.name = some (.object (lifted o)) :=
  find?_liftType (t := .object o) (mem_registry h)

theorem object?_lifted (h : .object o ∈ types) : executable.object? o.name = some (lifted o) :=
  Registry.object?_eq_some_iff.2 (find?_lifted h)

theorem field?_lifted (h : o.fields.find? (fun f => f.name = name) = some g) :
    (lifted o).field? name = some (Registry.liftField .root g) := by
  have hcomp : (fun f : Field Store (Subject BlogNode) => decide (f.name = name)) ∘
      Registry.liftField .root = fun f : BlogField => decide (f.name = name) := rfl
  rw [ObjectType.field?, lifted, List.find?_append, List.find?_map, hcomp, h]
  rfl

/-! ## Leaves -/

variable {s : Store} {n : BlogNode} {scope : Scope Store (Subject BlogNode)}
  {fields : List FieldPlan} {members : Entries Value} {f : FieldPlan}

/-- Whether a field of an object gives a leaf on a value, where null is a leaf, too. -/
def GivesLeaf (s : Store) (o : ObjectType Store BlogNode) (n : BlogNode) (name : String)
    (leaf : Value) : Prop :=
  ∃ g result completed, o.fields.find? (fun f => f.name = name) = some g ∧
    (∀ b, fieldResult o.name g n b s = (.ok result, s)) ∧
    executable.complete g.type (result.map Subject.value) = .ok completed ∧
    (completed = some (.leaf leaf) ∨ (completed = none ∧ leaf = .null))

theorem fieldResult_attribute {value : Value} (hresolver : g.resolver = none)
    (hpart : Node.part n g.name = some value) (object : String) (b : BoundArguments) :
    fieldResult object g n b s = (.ok (.leaf value), s) := by
  simp only [fieldResult, hresolver, hpart]

theorem fieldResult_reading {b : BoundArguments} {result : FieldValue BlogNode}
    {read : BlogNode → BoundArguments → Store → Except FieldError (FieldValue BlogNode)}
    (hresolver : g.resolver = some (reading read)) (hread : read n b s = .ok result)
    (object : String) : fieldResult object g n b s = (.ok result, s) := by
  simp only [fieldResult, hresolver, reading, hread]

theorem complete_requiredString (text : String) :
    executable.complete requiredString (.leaf (.string text)) =
      .ok (some (.leaf (.string text))) := by
  obtain ⟨t, ht⟩ := installed.string
  exact (Registry.complete_nonNull rfl).trans (Registry.complete_leaf ht rfl)

/-- An attribute that is completed as a leaf, or is null. -/
theorem givesLeaf_attribute {part leaf : Value}
    (hg : o.fields.find? (fun f => f.name = name) = some g) (hresolver : g.resolver = none)
    (hpart : Node.part n g.name = some part)
    (h : executable.complete g.type (.leaf part) = .ok (some (.leaf leaf)) ∨
      (executable.complete g.type (.leaf part) = .ok none ∧ leaf = .null)) :
    GivesLeaf s o n name leaf := by
  have hresult := fieldResult_attribute (s := s) hresolver hpart o.name
  rcases h with hcomplete | ⟨hcomplete, rfl⟩
  · exact ⟨g, _, _, hg, hresult, hcomplete, .inl rfl⟩
  · exact ⟨g, _, _, hg, hresult, hcomplete, .inr ⟨rfl, rfl⟩⟩

theorem givesLeaf_requiredString {text : String}
    (hg : o.fields.find? (fun f => f.name = name) = some g) (hresolver : g.resolver = none)
    (htype : g.type = requiredString) (hpart : Node.part n g.name = some (.string text)) :
    GivesLeaf s o n name (.string text) :=
  givesLeaf_attribute hg hresolver hpart (.inl (htype ▸ complete_requiredString text))

/-- A selected field of the blog shows what it gives. -/
theorem exists_member (hregistry : scope.registry = executable)
    (h : Shows scope s (lifted o) (.value n) fields members) (hf : f ∈ fields)
    (hname : f.head.name ≠ Plan.typeNameField)
    (hg : o.fields.find? (fun g => g.name = f.head.name) = some g)
    {result : FieldValue BlogNode} {completed : Option (Completed (Subject BlogNode))}
    (hresult : ∀ b, scope.boundArguments? (Registry.liftField .root g) f.head.arguments = some b →
      fieldResult o.name g n b s = (.ok result, s))
    (hcomplete : executable.complete g.type (result.map Subject.value) = .ok completed) :
    ∃ member, members.lookup f.key = some member ∧
      Renders scope s g.type (completed.getD .null) (FieldPlan.collect fields f.key) member :=
  h.exists_member hf hname (field?_lifted hg)
    (fun b hb => Registry.fieldResult_liftField (hresult b hb)) (hregistry ▸ hcomplete)

theorem lookup_of_givesLeaf (hregistry : scope.registry = executable)
    (h : Shows scope s (lifted o) (.value n) fields members) (hf : f ∈ fields)
    (hname : f.head.name ≠ Plan.typeNameField) {leaf : Value}
    (hleaf : GivesLeaf s o n f.head.name leaf) : members.lookup f.key = some leaf := by
  obtain ⟨g, result, completed, hg, hresult, hcomplete, hleaf⟩ := hleaf
  obtain ⟨member, hmember, hrenders⟩ := exists_member hregistry h hf hname hg
    (fun b _ => hresult b) hcomplete
  rw [hmember]
  rcases hleaf with rfl | ⟨rfl, rfl⟩
  · rw [hrenders.eq_of_leaf]
  · rw [hrenders.eq_of_null]

/-! ## Records -/

/-- A category as requests write it. -/
def enumOf (c : Category) : Value := .enum c.name

/-- What the leaves of an author are, by the names of the fields. -/
def authorLeaf? (a : Author) : String → Option Value
  | "id" => some (.string a.id)
  | "name" => some (.string a.name)
  | "twitterHandle" => some <| match a.twitterHandle with
    | some handle => .string handle
    | none => .null
  | _ => none

/-- What the leaves of a comment are. -/
def commentLeaf? (c : Comment) : String → Option Value
  | "id" => some (.string c.id)
  | "content" => some (.string c.content)
  | "timestamp" => some <| match c.timestamp with
    | some x => .number (.float x)
    | none => .null
  | _ => none

/-- What the leaves of a post are. -/
def postLeaf? (p : Post) : String → Option Value
  | "id" => some (.string p.id)
  | "title" => some (.string p.title)
  | "category" => some <| match p.category with
    | some c => enumOf c
    | none => .null
  | "summary" => some (.string p.summary)
  | "content" => some (.string p.content)
  | "timestamp" => some (.number (.float p.timestamp))
  | _ => none

/-- Whether members show the leaves of a record, and the name of its type, for `plans` that are
selected on it. -/
structure ShowsLeaves (o : ObjectType Store BlogNode) (leaf? : String → Option Value)
    (plans : List Plan) (members : Entries Value) : Prop where
  typeName : ∀ f ∈ Plan.fieldsOn (lifted o) plans, f.head.name = Plan.typeNameField →
    members.lookup f.key = some (.string o.name)
  leaf : ∀ f ∈ Plan.fieldsOn (lifted o) plans, ∀ value, leaf? f.head.name = some value →
    members.lookup f.key = some value

/-- Whether a value shows the leaves of an author. -/
def ShowsAuthor (a : Author) (plans : List Plan) (value : Value) : Prop :=
  ∃ members, value = .object members ∧ ShowsLeaves author (authorLeaf? a) plans members

/-- Whether a value shows the leaves of a comment. -/
def ShowsComment (c : Comment) (plans : List Plan) (value : Value) : Prop :=
  ∃ members, value = .object members ∧ ShowsLeaves comment (commentLeaf? c) plans members

/-- Whether a value shows a post: its leaves, and the author that the store has for it. -/
def ShowsPost (s : Store) (p : Post) (plans : List Plan) (value : Value) : Prop :=
  ∃ members, value = .object members ∧ ShowsLeaves post (postLeaf? p) plans members ∧
    ∀ f ∈ Plan.fieldsOn (lifted post) plans, f.head.name = "author" →
      ∃ a shown, s.author? p.author = some a ∧ members.lookup f.key = some shown ∧
        ShowsAuthor a (FieldPlan.collect (Plan.fieldsOn (lifted post) plans) f.key) shown

/-- Whether a value shows a record of the blog. -/
def ShowsNode (s : Store) : BlogNode → List Plan → Value → Prop
  | .root, _, _ => False
  | .author a, plans, value => ShowsAuthor a plans value
  | .post p, plans, value => ShowsPost s p plans value
  | .comment c, plans, value => ShowsComment c plans value

theorem showsLeaves_of_shows (hregistry : scope.registry = executable) {plans : List Plan}
    (h : Shows scope s (lifted o) (.value n) (Plan.fieldsOn (lifted o) plans) members)
    {leaf? : String → Option Value} (hnone : leaf? Plan.typeNameField = none)
    (hleaf : ∀ name leaf, leaf? name = some leaf → GivesLeaf s o n name leaf) :
    ShowsLeaves o leaf? plans members := by
  refine ⟨h.typeName, fun f hf value hvalue => ?_⟩
  refine lookup_of_givesLeaf hregistry h hf (fun hname => ?_) (hleaf _ _ hvalue)
  rw [hname, hnone] at hvalue
  cases hvalue

theorem givesLeaf_author {a : Author} {leaf : Value} (h : authorLeaf? a name = some leaf) :
    GivesLeaf s author (.author a) name leaf := by
  unfold authorLeaf? at h
  split at h
  · obtain rfl := Option.some.inj h
    exact givesLeaf_requiredString rfl rfl rfl rfl
  · obtain rfl := Option.some.inj h
    exact givesLeaf_requiredString rfl rfl rfl rfl
  · obtain rfl := Option.some.inj h
    refine givesLeaf_attribute rfl rfl rfl ?_
    cases a.twitterHandle with
    | none => exact .inr ⟨rfl, rfl⟩
    | some handle =>
      obtain ⟨t, ht⟩ := installed.string
      exact .inl (Registry.complete_leaf ht rfl)
  · cases h

theorem givesLeaf_comment {c : Comment} {leaf : Value} (h : commentLeaf? c name = some leaf) :
    GivesLeaf s comment (.comment c) name leaf := by
  unfold commentLeaf? at h
  split at h
  · obtain rfl := Option.some.inj h
    exact givesLeaf_requiredString rfl rfl rfl rfl
  · obtain rfl := Option.some.inj h
    exact givesLeaf_requiredString rfl rfl rfl rfl
  · obtain rfl := Option.some.inj h
    refine givesLeaf_attribute rfl rfl rfl ?_
    cases c.timestamp with
    | none => exact .inr ⟨rfl, rfl⟩
    | some x =>
      obtain ⟨t, ht⟩ := exists_find?_float
      exact .inl (Registry.complete_leaf ht rfl)
  · cases h

/-- The dates of posts are such that their timestamps are numbers. -/
theorem givesLeaf_post {p : Post} (hfinite : p.timestamp.isFinite) {leaf : Value}
    (h : postLeaf? p name = some leaf) : GivesLeaf s post (.post p) name leaf := by
  unfold postLeaf? at h
  split at h
  · obtain rfl := Option.some.inj h
    exact givesLeaf_requiredString rfl rfl rfl rfl
  · obtain rfl := Option.some.inj h
    exact givesLeaf_requiredString rfl rfl rfl rfl
  · obtain rfl := Option.some.inj h
    refine givesLeaf_attribute rfl rfl rfl ?_
    cases p.category with
    | none => exact .inr ⟨rfl, rfl⟩
    | some c =>
      refine .inl (Registry.complete_member find?_category rfl ?_ rfl)
      cases c <;> decide
  · obtain rfl := Option.some.inj h
    exact givesLeaf_requiredString rfl rfl rfl rfl
  · obtain rfl := Option.some.inj h
    exact givesLeaf_requiredString rfl rfl rfl rfl
  · obtain rfl := Option.some.inj h
    obtain ⟨t, ht⟩ := exists_find?_float
    refine ⟨postTimestamp, .leaf (.number (.float p.timestamp)), _, rfl,
      fun b => fieldResult_reading rfl ?_ _, ?_, .inl rfl⟩
    · show Except.ok (FieldValue.float p.timestamp) = _
      rw [FieldValue.float, if_pos hfinite]
    · exact (Registry.complete_nonNull rfl).trans (Registry.complete_leaf ht rfl)
  · cases h

/-! ### Renderings of records -/

theorem complete_record (h : .object o ∈ types) (htype : Node.typeName n = some o.name) :
    executable.complete (.named o.name) (.node (.value n)) = .ok (some (.node (.value n))) :=
  Registry.complete_node (find?_lifted h) htype

theorem isOf_lifted (h : .object o ∈ types) (n : BlogNode) :
    (Completed.node (Subject.value n)).IsOf executable o.name (lifted o) (.value n) :=
  .object (find?_lifted h) rfl

variable {c : Completed (Subject BlogNode)} {type : String} {plans : List Plan} {value : Value}

theorem showsAuthor_of_renders (hregistry : scope.registry = executable) {a : Author}
    (h : Renders scope s (.named BlogNode.authorType) (.node (.value (.author a))) plans value) :
    ShowsAuthor a plans value := by
  have hof : (Completed.node (Subject.value (.author a))).IsOf scope.registry author.name
      (lifted author) (.value (.author a)) := hregistry ▸ isOf_lifted (by simp [types]) (.author a)
  obtain ⟨members, rfl, hshows⟩ := h.shows hof
  exact ⟨members, rfl, showsLeaves_of_shows hregistry hshows rfl fun _ _ => givesLeaf_author⟩

theorem showsComment_of_renders (hregistry : scope.registry = executable) {comment : Comment}
    (h : Renders scope s (.named type) c plans value)
    (hof : c.IsOf executable type (lifted Blog.comment) (.value (.comment comment))) :
    ShowsComment comment plans value := by
  obtain ⟨members, rfl, hshows⟩ := h.shows (hregistry ▸ hof)
  exact ⟨members, rfl, showsLeaves_of_shows hregistry hshows rfl fun _ _ => givesLeaf_comment⟩

theorem showsPost_of_renders (hregistry : scope.registry = executable) (hs : s.Readable) {p : Post}
    (hp : p ∈ s.posts) (h : Renders scope s (.named type) c plans value)
    (hof : c.IsOf executable type (lifted post) (.value (.post p))) :
    ShowsPost s p plans value := by
  obtain ⟨members, rfl, hshows⟩ := h.shows (hregistry ▸ hof)
  refine ⟨members, rfl, showsLeaves_of_shows hregistry hshows rfl fun _ _ =>
    givesLeaf_post (hs.timestamp p hp), fun f hf hname => ?_⟩
  obtain ⟨a, ha⟩ := hs.post_author p hp
  have hfield : post.fields.find? (fun g => g.name = f.head.name) = some postAuthor := by
    rw [hname]
    rfl
  have hresult (b : BoundArguments) :
      fieldResult post.name postAuthor (.post p) b s = (.ok (.node (.author a)), s) :=
    fieldResult_reading rfl (Store.authorOf_eq ha) _
  have hrecord : executable.complete (.named author.name) (.node (.value (.author a))) =
      .ok (some (.node (.value (.author a)))) := complete_record (by simp [types]) rfl
  obtain ⟨shown, hshown, hrenders⟩ := exists_member hregistry hshows hf (by rw [hname]; decide)
    hfield (fun b _ => hresult b) ((Registry.complete_nonNull rfl).trans hrecord)
  exact ⟨a, shown, ha, hshown, showsAuthor_of_renders hregistry hrenders.of_nonNull⟩

/-! ## The query root -/

/-- The value that a selected field of the query root is given for an argument. -/
def argument? (scope : Scope Store (Subject BlogNode)) (f : FieldPlan) (name : String) :
    Option Value := do
  let field ← (lifted queryRoot).field? f.head.name
  (← scope.boundArguments? field f.head.arguments).get? name

/-- Whether the value of an argument stands for something that it has the form of, or for nothing if
it is left out or null. -/
def StandsFor {α : Type} (form : α → Value) (value : Option Value) : Option α → Prop
  | some a => value = some (form a)
  | none => value = none ∨ value = some .null

/-- The posts of a category, or all posts. -/
def postsIn (s : Store) (found : Option Category) : List Post :=
  s.posts.filter fun p => found.all fun c => p.category = some c

/-- What an author has written: posts, then comments and replies. -/
def contributionsOf (s : Store) (id : String) : List BlogNode :=
  (s.posts.filter fun p => p.author = id).map .post ++
    ((s.comments ++ s.replies).filter fun c => c.author = id).map .comment

/-- Whether a value shows what is found, or is null if nothing is. -/
def ShowsFound {α : Type} (shows : α → Value → Prop) : Option α → Value → Prop
  | some a, value => shows a value
  | none, value => value = .null

/-- Whether members show posts by date: under `recentPosts` the first ones of a list, as many as the
count asks for, and under `latestPost` its head. -/
structure ShowsByDate (scope : Scope Store (Subject BlogNode)) (s : Store) (sorted : List Post)
    (fields : List FieldPlan) (members : Entries Value) : Prop where
  recentPosts : ∀ f ∈ fields, f.head.name = "recentPosts" → ∀ count,
    argument? scope f "count" = some (.int count) →
    ∃ values, members.lookup f.key = some (.list values) ∧
      List.Forall₂ (fun p => ShowsPost s p (FieldPlan.collect fields f.key))
        (sorted.take count.toNat) values
  latestPost : ∀ f ∈ fields, f.head.name = "latestPost" →
    ∃ value, members.lookup f.key = some value ∧
      ShowsFound (fun p => ShowsPost s p (FieldPlan.collect fields f.key)) sorted.head? value

/-- Whether members show under `contributions` what the author with the id has written. -/
def ShowsContributions (scope : Scope Store (Subject BlogNode)) (s : Store)
    (fields : List FieldPlan) (members : Entries Value) : Prop :=
  ∀ f ∈ fields, f.head.name = "contributions" → ∀ id,
    argument? scope f "author" = some (.string id) →
    ∃ values, members.lookup f.key = some (.list values) ∧
      List.Forall₂ (fun n => ShowsNode s n (FieldPlan.collect fields f.key)) (contributionsOf s id)
        values

/-- Whether members show what a store holds, for fields that are selected on the query root. -/
structure ShowsStore (scope : Scope Store (Subject BlogNode)) (s : Store) (fields : List FieldPlan)
    (members : Entries Value) : Prop where
  post : ∀ f ∈ fields, f.head.name = "post" → ∀ id, argument? scope f "id" = some (.string id) →
    ∃ value, members.lookup f.key = some value ∧
      ShowsFound (fun p => ShowsPost s p (FieldPlan.collect fields f.key)) (s.post? id) value
  author : ∀ f ∈ fields, f.head.name = "author" → ∀ id, argument? scope f "id" = some (.string id) →
    ∃ value, members.lookup f.key = some value ∧
      ShowsFound (fun a => ShowsAuthor a (FieldPlan.collect fields f.key)) (s.author? id) value
  posts : ∀ f ∈ fields, f.head.name = "posts" → ∀ found,
    StandsFor enumOf (argument? scope f "category") found →
    ∃ values, members.lookup f.key = some (.list values) ∧
      List.Forall₂ (fun p => ShowsPost s p (FieldPlan.collect fields f.key)) (postsIn s found)
        values
  contributions : ShowsContributions scope s fields members
  byDate : ShowsByDate scope s s.postsByDate fields members

theorem argument?_eq {b : BoundArguments}
    (hg : queryRoot.fields.find? (fun g => g.name = f.head.name) = some g)
    (hb : scope.boundArguments? (Registry.liftField .root g) f.head.arguments = some b)
    (name : String) : argument? scope f name = b.get? name := by
  simp only [argument?, field?_lifted hg, hb, Option.bind_eq_bind, Option.bind_some]

theorem ne_typeName_of_find? (hg : queryRoot.fields.find? (fun g => g.name = name) = some g) :
    name ≠ Plan.typeNameField := by
  rintro rfl
  cases hg

theorem string_of_get? {b : BoundArguments} {text : String}
    (h : b.get? name = some (.string text)) : b.string name = .ok text := by
  simp only [BoundArguments.string, BoundArguments.optionalString, h]

theorem categoryArgument_of_standsFor {b : BoundArguments} {found : Option Category}
    (h : StandsFor enumOf (b.get? name) found) : categoryArgument b name = .ok found := by
  unfold categoryArgument BoundArguments.enumName
  cases found with
  | some c =>
    rw [show b.get? name = some (.enum c.name) from h]
    simp only [Option.bind_some, Value.name?, Category.ofName?_name]
  | none =>
    rcases h with h | h
    · rw [h]
      rfl
    · rw [h]
      rfl

theorem eq_of_int {b : BoundArguments} {i j : Int} (h : b.get? name = some (.int i))
    (hj : b.int name = .ok j) : j = i := by
  rw [Value.int] at h
  simp only [BoundArguments.int, h, Number.toInt64?] at hj
  split at hj
  · rename_i hread
    obtain ⟨-, hread⟩ := Option.ite_none_right_eq_some.1 hread
    exact (Except.ok.inj hj).symm.trans (Option.some.inj hread).symm
  · cases hj

/-- The only argument of a field, if it is an integer, is read as it is bound. -/
theorem int_of_boundArguments? (hregistry : scope.registry = executable) {spec : ArgumentSpec}
    (harguments : g.arguments = [spec]) (htype : spec.type = requiredInt) {b : BoundArguments}
    (hb : scope.boundArguments? (Registry.liftField .root g) f.head.arguments = some b) {i : Int}
    (h : b.get? spec.name = some (.int i)) : b.int spec.name = .ok i := by
  obtain ⟨t, ht⟩ := exists_find?_int
  obtain ⟨values, -, hbind⟩ := Scope.boundArguments?_eq_some_iff.1 hb
  have hlifted : (Registry.liftField BlogNode.root g).arguments = [spec] := harguments
  have hnodup : ((Registry.liftField BlogNode.root g).arguments.map ArgumentSpec.name).Nodup := by
    rw [hlifted]
    exact List.nodup_singleton _
  have hbinds : executable.Binds (Registry.liftField .root g) b :=
    .of_bind hnodup (hregistry ▸ hbind)
  obtain ⟨j, hj⟩ := hbinds.int_eq (hlifted ▸ .head _) htype ht
  rw [hj, eq_of_int h hj]

/-- A record that is found, or none. -/
theorem showsFound_of_shows (hregistry : scope.registry = executable)
    (h : Shows scope s (lifted queryRoot) (.value .root) fields members) (hf : f ∈ fields)
    (hg : queryRoot.fields.find? (fun g => g.name = f.head.name) = some g)
    {α : Type} (node : α → BlogNode) {found : Option α} (htype : g.type = .named o.name)
    (ho : .object o ∈ types) (hnode : ∀ a, Node.typeName (node a) = some o.name)
    (hresult : ∀ b, scope.boundArguments? (Registry.liftField .root g) f.head.arguments = some b →
      (∀ name, argument? scope f name = b.get? name) →
      fieldResult queryType g .root b s = (.ok (.optionalNode (found.map node)), s))
    {shows : α → Value → Prop} (hshows : ∀ a value, found = some a →
      Renders scope s (.named o.name) (.node (.value (node a))) (FieldPlan.collect fields f.key)
        value → shows a value) :
    ∃ value, members.lookup f.key = some value ∧ ShowsFound shows found value := by
  cases found with
  | none =>
    have hcomplete : executable.complete g.type (FieldValue.map Subject.value
        (.optionalNode (none.map node))) = .ok none := by
      rw [htype]
      rfl
    obtain ⟨value, hvalue, hrenders⟩ := exists_member hregistry h hf (ne_typeName_of_find? hg) hg
      (fun b hb => hresult b hb (argument?_eq hg hb)) hcomplete
    exact ⟨value, hvalue, hrenders.eq_of_null⟩
  | some a =>
    have hcomplete : executable.complete g.type (FieldValue.map Subject.value
        (.optionalNode ((some a).map node))) = .ok (some (.node (.value (node a)))) := by
      rw [htype]
      exact complete_record ho (hnode a)
    obtain ⟨value, hvalue, hrenders⟩ := exists_member hregistry h hf (ne_typeName_of_find? hg) hg
      (fun b hb => hresult b hb (argument?_eq hg hb)) hcomplete
    exact ⟨value, hvalue, hshows a value rfl (htype ▸ hrenders)⟩

/-- A list of values is shown one by one. -/
theorem exists_values_of_renders {α : Type} {c : α → Completed (Subject BlogNode)} {as : List α}
    (h : Renders scope s (.nonNullListNonNull type) (.list (as.map c)) plans value)
    {shows : α → Value → Prop} (hshows : ∀ a ∈ as, ∀ value,
      Renders scope s (.named type) (c a) plans value → shows a value) :
    ∃ values, value = .list values ∧ List.Forall₂ shows as values := by
  obtain ⟨values, rfl, hvalues⟩ := (Renders.of_nonNull h).exists_items
  rw [List.forall₂_map_left_iff] at hvalues
  have hmem := (List.forall₂_and_left as values).2 ⟨fun a (ha : a ∈ as) => ha, hvalues⟩
  exact ⟨values, rfl, hmem.imp fun a value ⟨ha, h⟩ => hshows a ha value h.of_nonNull⟩

/-- A list of values of the blog. -/
theorem exists_values_of_shows (hregistry : scope.registry = executable)
    (h : Shows scope s (lifted queryRoot) (.value .root) fields members) (hf : f ∈ fields)
    (hg : queryRoot.fields.find? (fun g => g.name = f.head.name) = some g)
    {α : Type} (node : α → BlogNode) {as : List α} (htype : g.type = .nonNullListNonNull type)
    (hresult : ∀ b, scope.boundArguments? (Registry.liftField .root g) f.head.arguments = some b →
      (∀ name, argument? scope f name = b.get? name) →
      fieldResult queryType g .root b s = (.ok (.nodes (as.map node)), s))
    {c : α → Completed (Subject BlogNode)} (hcomplete : ∀ a ∈ as,
      executable.complete (.named type) (.node (.value (node a))) = .ok (some (c a)))
    {shows : α → Value → Prop} (hshows : ∀ a ∈ as, ∀ value,
      Renders scope s (.named type) (c a) (FieldPlan.collect fields f.key) value → shows a value) :
    ∃ values, members.lookup f.key = some (.list values) ∧ List.Forall₂ shows as values := by
  have hlist : executable.complete g.type (FieldValue.map Subject.value (.nodes (as.map node))) =
      .ok (some (.list (as.map c))) := by
    rw [htype, FieldValue.map_nodes, List.map_map]
    exact Registry.complete_nodes hcomplete
  obtain ⟨value, hvalue, hrenders⟩ := exists_member hregistry h hf (ne_typeName_of_find? hg) hg
    (fun b hb => hresult b hb (argument?_eq hg hb)) hlist
  obtain ⟨values, rfl, hvalues⟩ := exists_values_of_renders (htype ▸ hrenders) hshows
  exact ⟨values, hvalue, hvalues⟩

theorem author_mem_types : .object author ∈ types := by simp [types]

theorem post_mem_types : .object post ∈ types := by simp [types]

theorem comment_mem_types : .object comment ∈ types := by simp [types]

theorem mem_contributionsOf_iff {id : String} : n ∈ contributionsOf s id ↔
    (∃ p ∈ s.posts, p.author = id ∧ n = .post p) ∨
      ∃ c ∈ s.comments ++ s.replies, c.author = id ∧ n = .comment c := by
  simp only [contributionsOf, List.mem_append, List.mem_map, List.mem_filter, decide_eq_true_eq,
    and_assoc, eq_comm (a := n)]

/-- Posts and comments are completed with the names of their types, as what has an author. -/
theorem complete_contribution {id : String} (hn : n ∈ contributionsOf s id) :
    executable.complete (.named hasAuthorType) (.node (.value n)) =
      .ok (some (.tagged ((Node.typeName n).getD "") (.value n))) := by
  have hpost : (lifted post).isA hasAuthor.name := rfl
  have hcomment : (lifted comment).isA hasAuthor.name := rfl
  rcases mem_contributionsOf_iff.1 hn with ⟨p, -, -, rfl⟩ | ⟨c, -, -, rfl⟩
  · exact Registry.complete_tagged find?_hasAuthor rfl (object?_lifted post_mem_types) hpost
  · exact Registry.complete_tagged find?_hasAuthor rfl (object?_lifted comment_mem_types) hcomment

theorem showsByDate_of_shows (hregistry : scope.registry = executable) (hs : s.Readable)
    (h : Shows scope s (lifted queryRoot) (.value .root) fields members) :
    ShowsByDate scope s s.postsByDate fields members where
  recentPosts f hf hname count hcount := by
    refine exists_values_of_shows (g := recentPosts) hregistry h hf (by rw [hname]; rfl) .post rfl
      (fun b hb hargument => ?_) (fun p _ => complete_record post_mem_types rfl)
      fun p hp value hrenders => ?_
    · rw [hargument] at hcount
      refine fieldResult_reading rfl ?_ _
      rw [int_of_boundArguments? hregistry rfl rfl hb hcount]
      rfl
    · exact showsPost_of_renders hregistry hs (Store.mem_postsByDate.1 (List.mem_of_mem_take hp))
        hrenders (isOf_lifted post_mem_types (.post p))
  latestPost f hf hname := by
    refine showsFound_of_shows (g := latestPost) hregistry h hf (by rw [hname]; rfl) .post rfl
      post_mem_types (fun _ => rfl) (fun _ _ _ => fieldResult_reading rfl rfl _)
      fun p value hp hrenders => ?_
    exact showsPost_of_renders hregistry hs (Store.mem_postsByDate.1 (List.mem_of_mem_head? hp))
      hrenders (isOf_lifted post_mem_types (.post p))

theorem showsStore_of_shows (hregistry : scope.registry = executable) (hs : s.Readable)
    (h : Shows scope s (lifted queryRoot) (.value .root) fields members) :
    ShowsStore scope s fields members where
  post f hf hname id hid := by
    refine showsFound_of_shows (g := postById) hregistry h hf (by rw [hname]; rfl) .post rfl
      post_mem_types (fun _ => rfl) (fun b hb hargument => ?_) fun p value hp hrenders => ?_
    · rw [hargument] at hid
      refine fieldResult_reading rfl ?_ _
      rw [string_of_get? hid]
      rfl
    · exact showsPost_of_renders hregistry hs (List.mem_of_find?_eq_some hp) hrenders
        (isOf_lifted post_mem_types (.post p))
  author f hf hname id hid := by
    refine showsFound_of_shows (g := authorById) hregistry h hf (by rw [hname]; rfl) .author rfl
      author_mem_types (fun _ => rfl) (fun b hb hargument => ?_) fun a value _ hrenders => ?_
    · rw [hargument] at hid
      refine fieldResult_reading rfl ?_ _
      rw [string_of_get? hid]
      rfl
    · exact showsAuthor_of_renders hregistry hrenders
  posts f hf hname found hfound := by
    refine exists_values_of_shows (g := posts) hregistry h hf (by rw [hname]; rfl) .post rfl
      (fun b hb hargument => ?_) (fun p _ => complete_record post_mem_types rfl)
      fun p hp value hrenders => ?_
    · rw [hargument] at hfound
      refine fieldResult_reading rfl ?_ _
      rw [categoryArgument_of_standsFor hfound]
      cases found with
      | none =>
        have hall : postsIn s none = s.posts := List.filter_eq_self.2 fun _ _ => rfl
        rw [hall]
        rfl
      | some c => rfl
    · exact showsPost_of_renders hregistry hs (List.mem_filter.1 hp).1 hrenders
        (isOf_lifted post_mem_types (.post p))
  contributions f hf hname id hid := by
    refine exists_values_of_shows (g := contributions) hregistry h hf (by rw [hname]; rfl)
      (fun n => n) rfl (fun b hb hargument => ?_) (fun n hn => complete_contribution hn)
      fun n hn value hrenders => ?_
    · rw [hargument] at hid
      refine fieldResult_reading rfl ?_ _
      rw [string_of_get? hid, List.map_id']
      rfl
    · rcases mem_contributionsOf_iff.1 hn with ⟨p, hp, -, rfl⟩ | ⟨c, -, -, rfl⟩
      · exact showsPost_of_renders hregistry hs hp hrenders
          (.interface hasAuthor find?_hasAuthor (object?_lifted post_mem_types) rfl rfl)
      · exact showsComment_of_renders hregistry hrenders
          (.interface hasAuthor find?_hasAuthor (object?_lifted comment_mem_types) rfl rfl)
  byDate := showsByDate_of_shows hregistry hs h

/-- Whether every query with admissible arguments and mergeable selections is answered without an
error, from a store that stays as it is, by members with a property. -/
def QueriesShow (s : Store)
    (P : Scope Store (Subject BlogNode) → List FieldPlan → Entries Value → Prop) : Prop :=
  ∀ request selected, IsQuery request selected →
    (∀ e ∈ Plan.arguments selected.plans,
      isAdmissible (Service.schema.scope request selected.operation) e) →
    (Service.schema.scope request selected.operation).Mergeable selected.root selected.plans →
    ∃ members, Service.schema.respond request s = (⟨.object members, []⟩, s) ∧
      P (Service.schema.scope request selected.operation)
        (Plan.fieldsOn selected.root selected.plans) members

theorem QueriesShow.imp
    {P Q : Scope Store (Subject BlogNode) → List FieldPlan → Entries Value → Prop}
    (h : QueriesShow s P) (hPQ : ∀ scope fields members, P scope fields members →
      Q scope fields members) : QueriesShow s Q := by
  intro request selected hquery hadmissible hmergeable
  obtain ⟨members, hrespond, hmembers⟩ := h request selected hquery hadmissible hmergeable
  exact ⟨members, hrespond, hPQ _ _ _ hmembers⟩

theorem QueriesShow.exists_of_isPlain {request : Request}
    {P : Scope Store (Subject BlogNode) → List FieldPlan → Entries Value → Prop}
    (h : QueriesShow s P) (hplain : passes request (isPlain request)) :
    ∃ selected members, IsQuery request selected ∧
      Service.schema.respond request s = (⟨.object members, []⟩, s) ∧
      P (Service.schema.scope request selected.operation)
        (Plan.fieldsOn selected.root selected.plans) members := by
  obtain ⟨selected, hquery, hadmissible, hmergeable⟩ := exists_isQuery_of_isPlain hplain
  obtain ⟨members, hrespond, hmembers⟩ := h request selected hquery hadmissible hmergeable
  exact ⟨selected, members, hquery, hrespond, hmembers⟩

/-- In a store that can be read, queries show what the store holds. -/
theorem queriesShow_showsStore (hs : s.Readable) :
    QueriesShow s fun scope fields members => ShowsStore scope s fields members := by
  intro request selected h hadmissible hmergeable
  have hroot := Schema.rootOf?_of_select h.select_eq
  rw [h.kind_eq] at hroot
  obtain hlifted : lifted queryRoot = selected.root := Option.some.inj hroot
  have hobject : executable.object? selected.root.name = some selected.root := by
    rw [← hlifted]
    exact object?_lifted (by simp [types])
  have hheld : Holds s selected.root.name (.value .root) := hlifted ▸ ⟨rfl, trivial⟩
  have hrunnable := Schema.runnable_of_select h.select_eq coherent h.given
    fun e he => h.admitsNamed he (hadmissible e he)
  obtain ⟨results, hgives, hshows⟩ := hrunnable.answers (serves hs) hobject hheld
  refine ⟨Value.mergeMembers [] results, ?_, ?_⟩
  · rw [Schema.respond_of_select_ok h.select_eq]
    exact respond_of_gives (hgives [])
  · refine showsStore_of_shows rfl hs ?_
    have hshown := hshows hmergeable
    rwa [← hlifted] at hshown ⊢

end Gazette.Blog
