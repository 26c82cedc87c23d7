import Gazette.Proofs.Blog.Integrity
import Gazette.Proofs.Blog.Readers
import Gazette.Proofs.Request.Accepted
import Gazette.Proofs.Request.Introspection
import Gazette.Proofs.Schema.Registering

/-!
# Results of the blog's fields

On the values that a readable store has (`Holds`), every field of the blog's schema has a result of
its declared type (`serves`).
-/

namespace Gazette

variable {σ ν : Type}

/-! ## Lifted fields -/

namespace FieldValue

variable {μ : Type}

theorem map_nodes (f : ν → μ) (values : List ν) : (nodes values).map f = nodes (values.map f) := by
  rw [nodes, map_list, nodes, List.map_map, List.map_map]
  rfl

theorem map_optionalNode (f : ν → μ) (found : Option ν) :
    (optionalNode found).map f = optionalNode (found.map f) := by
  cases found <;> rfl

end FieldValue

/-- A lifted field gives what the field gives. -/
theorem Registry.fieldResult_liftField [Node ν] {root v : ν} {f : Field σ ν} {b : BoundArguments}
    {s : σ} {object : String} {result : FieldValue ν}
    (h : Execution.fieldResult object f v b s = (.ok result, s)) :
    Execution.fieldResult object (liftField root f) (.value v) b s =
      (.ok (result.map Subject.value), s) := by
  unfold Execution.fieldResult at h ⊢
  cases hresolver : f.resolver with
  | none =>
    have hpart : Node.part (Subject.value v) (liftField root f).name = Node.part v f.name := rfl
    simp only [hresolver] at h
    simp only [liftField, hresolver, Option.map_none] at hpart ⊢
    rw [hpart]
    cases hvalue : Node.part v f.name with
    | none => simp [hvalue] at h
    | some value =>
      simp only [hvalue, Prod.mk.injEq, Except.ok.injEq, and_true] at h
      rw [← h]
      rfl
  | some resolve =>
    simp only [hresolver] at h
    simp only [hresolver, liftField, Option.map_some, liftResolver, h]
    rfl

namespace Blog

/-! ## The registry -/

/-- The registry of the blog is what comes of registering its types one after the other. -/
theorem registerAll_types :
    ((Registry.empty queryType).withMutation mutationType).registerAll types = .ok registry :=
  Registry.registerAll_eq_ok_iff.2 ⟨⟨by decide +kernel, by decide +kernel, by decide +kernel⟩, rfl⟩

/-- The types that requests to the blog meet. -/
abbrev executable : Registry Store (Subject BlogNode) := Service.schema.executable

theorem types_nodup : (executable.types.map NamedType.name).Nodup := by decide +kernel

theorem object?_name_eq_some_iff {o : ObjectType Store (Subject BlogNode)} :
    executable.object? o.name = some o ↔ .object o ∈ executable.types :=
  ⟨fun h => (Registry.mem_of_object? h).1, fun h =>
    Registry.object?_eq_some_iff.2 (Registry.find?_of_mem types_nodup h)⟩

/-- A type of the blog is found as it is lifted. -/
theorem find?_liftType {t : NamedType Store BlogNode} (h : t ∈ registry.types) :
    executable.find? t.name = some (Registry.liftType .root queryType
      (Introspection.rootFields registry.knowledge) t) := by
  have hmem : Registry.liftType .root queryType (Introspection.rootFields registry.knowledge) t ∈
      executable.types := List.mem_append_left _ (List.mem_map_of_mem h)
  have hname :
      (Registry.liftType .root queryType (Introspection.rootFields registry.knowledge) t).name =
        t.name := by
    cases t <;> rfl
  rw [← hname]
  exact Registry.find?_of_mem types_nodup hmem

theorem installed : Introspection.Installed registry.knowledge executable :=
  Introspection.installed_of_nodup types_nodup fun _ ht =>
    List.mem_append_left _ (List.mem_map_of_mem ht)

theorem mem_registry {t : NamedType Store BlogNode} (h : t ∈ types) : t ∈ registry.types :=
  List.mem_append_right _ h

theorem find?_category : executable.find? categoryType = some (.enum category) :=
  find?_liftType (t := .enum category) (mem_registry (by simp [types]))

theorem find?_hasAuthor : executable.find? hasAuthorType = some (.interface hasAuthor) :=
  find?_liftType (t := .interface hasAuthor) (mem_registry (by simp [types]))

theorem exists_find?_int : ∃ t, executable.find? builtin.int = some (.scalar t) :=
  ⟨_, installed.scalar ⟨builtin.int, some "A signed 32-bit integer."⟩
    (by simp [Registry.builtinScalars])⟩

theorem exists_find?_float : ∃ t, executable.find? builtin.float = some (.scalar t) :=
  ⟨_, installed.scalar ⟨builtin.float, some "A signed double-precision floating-point value."⟩
    (by simp [Registry.builtinScalars])⟩

end Blog

/-! ## Values of a store -/

namespace Store

/-- Whether the authors of posts, comments and replies are registered, and the dates of posts are
finite as numbers. -/
structure Readable (s : Store) : Prop where
  post_author : ∀ p ∈ s.posts, ∃ a, s.author? p.author = some a
  comment_author : ∀ c ∈ s.comments ++ s.replies, ∃ a, s.author? c.author = some a
  timestamp : ∀ p ∈ s.posts, p.timestamp.isFinite

theorem Sound.readable {s : Store} (h : s.Sound) (hfinite : ∀ p ∈ s.posts, p.timestamp.isFinite) :
    s.Readable := by
  have hauthor (id : String) (hid : id ∈ s.foreignKeys) : ∃ a, s.author? id = some a :=
    Option.isSome_iff_exists.1 (h.keys_registered id hid)
  exact ⟨fun p hp => hauthor _ (List.mem_append_left _ (List.mem_map_of_mem hp)),
    fun c hc => hauthor _ (List.mem_append_right _ (List.mem_map_of_mem hc)), hfinite⟩

theorem mem_insertByDate {p q : Post} {posts : List Post} :
    q ∈ insertByDate p posts ↔ q = p ∨ q ∈ posts := by
  induction posts with
  | nil => simp [insertByDate]
  | cons r rest ih =>
    rw [insertByDate]
    split
    · rw [List.mem_cons, ih, List.mem_cons, or_left_comm]
    · rw [List.mem_cons]

theorem mem_postsByDate {s : Store} {p : Post} : p ∈ s.postsByDate ↔ p ∈ s.posts := by
  rw [postsByDate]
  induction s.posts with
  | nil => exact Iff.rfl
  | cons q rest ih =>
    rw [sortByDate, List.foldr_cons, mem_insertByDate, List.mem_cons]
    exact or_congr_right ih

end Store

namespace Blog

/-- The object whose fields are resolved on a value. -/
def objectOf : Subject BlogNode → String
  | .value .root => queryType
  | .value (.author _) => BlogNode.authorType
  | .value (.post _) => BlogNode.postType
  | .value (.comment _) => BlogNode.commentType
  | .part p => p.typeName

/-- Whether the store has what a value refers to. -/
def Follows (s : Store) : Subject BlogNode → Prop
  | .value (.post p) => (∃ a, s.author? p.author = some a) ∧ p.timestamp.isFinite
  | .value (.comment c) => ∃ a, s.author? c.author = some a
  | _ => True

/-- Whether a value is one for an object in a store. -/
structure Holds (s : Store) (name : String) (v : Subject BlogNode) : Prop where
  objectOf_eq : objectOf v = name
  follows : Follows s v

section

variable {v : Subject BlogNode}

theorem eq_root_of_objectOf (h : objectOf v = queryType) : v = .value .root := by
  rcases v with (_ | _ | _ | _) | (_ | _ | _ | _ | _ | _)
  · rfl
  all_goals simp [objectOf, queryType, BlogNode.authorType, BlogNode.postType, BlogNode.commentType,
    Part.typeName] at h

theorem exists_author_of_objectOf (h : objectOf v = BlogNode.authorType) :
    ∃ a, v = .value (.author a) := by
  rcases v with (_ | a | _ | _) | (_ | _ | _ | _ | _ | _)
  case value.author => exact ⟨a, rfl⟩
  all_goals simp [objectOf, queryType, BlogNode.authorType, BlogNode.postType, BlogNode.commentType,
    Part.typeName] at h

theorem exists_post_of_objectOf (h : objectOf v = BlogNode.postType) :
    ∃ p, v = .value (.post p) := by
  rcases v with (_ | _ | p | _) | (_ | _ | _ | _ | _ | _)
  case value.post => exact ⟨p, rfl⟩
  all_goals simp [objectOf, queryType, BlogNode.authorType, BlogNode.postType, BlogNode.commentType,
    Part.typeName] at h

theorem exists_comment_of_objectOf (h : objectOf v = BlogNode.commentType) :
    ∃ c, v = .value (.comment c) := by
  rcases v with (_ | _ | _ | c) | (_ | _ | _ | _ | _ | _)
  case value.comment => exact ⟨c, rfl⟩
  all_goals simp [objectOf, queryType, BlogNode.authorType, BlogNode.postType, BlogNode.commentType,
    Part.typeName] at h

end

/-! ## Results -/

variable {s : Store} {n : BlogNode} {b : BoundArguments} {object : String} {f : BlogField}

/-- Whether a field of the blog has a result of its type on a value. -/
def Gives (s : Store) (object : String) (n : BlogNode) (b : BoundArguments) (f : BlogField) :
    Prop :=
  ∃ result, Execution.fieldResult object f n b s = (.ok result, s) ∧
    (result.map Subject.value).Proper executable (.results (Holds s)) f.type

theorem gives_attribute {value : Value} (hresolver : f.resolver = none)
    (hpart : Node.part n f.name = some value)
    (h : (FieldValue.leaf value).Proper executable (.results (Holds s)) f.type) :
    Gives s object n b f :=
  ⟨.leaf value, by simp only [Execution.fieldResult, hresolver, hpart], h⟩

theorem gives_reading {result : FieldValue BlogNode}
    {read : BlogNode → BoundArguments → Store → Except FieldError (FieldValue BlogNode)}
    (hresolver : f.resolver = some (reading read)) (hread : read n b s = .ok result)
    (h : (result.map Subject.value).Proper executable (.results (Holds s)) f.type) :
    Gives s object n b f :=
  ⟨result, by simp only [Execution.fieldResult, hresolver, reading, hread], h⟩

/-- A resolver that first reads an argument. -/
theorem gives_reading_bind {α : Type} {x : Except FieldError α} {a : α}
    {result : FieldValue BlogNode} {next : α → Except FieldError (FieldValue BlogNode)}
    {read : BlogNode → BoundArguments → Store → Except FieldError (FieldValue BlogNode)}
    (hresolver : f.resolver = some (reading read)) (hread : read n b s = (x >>= next))
    (hx : x = .ok a) (hnext : next a = .ok result)
    (h : (result.map Subject.value).Proper executable (.results (Holds s)) f.type) :
    Gives s object n b f := by
  refine gives_reading hresolver ?_ h
  rw [hread, hx]
  exact hnext

theorem proper_requiredString (text : String) :
    (FieldValue.leaf (.string text)).Proper executable (.results (Holds s)) requiredString :=
  ⟨rfl, Introspection.proper_string installed text⟩

theorem proper_author (a : Author) : (FieldValue.node (Subject.value (.author a))).Proper executable
    (.results (Holds s)) (.named BlogNode.authorType) :=
  FieldValue.proper_node (find?_liftType (t := .object author) (mem_registry (by simp [types]))) rfl
    ⟨rfl, trivial⟩

theorem proper_post {p : Post} (hauthor : ∃ a, s.author? p.author = some a)
    (hfinite : p.timestamp.isFinite) : (FieldValue.node (Subject.value (.post p))).Proper executable
    (.results (Holds s)) (.named BlogNode.postType) :=
  FieldValue.proper_node (find?_liftType (t := .object post) (mem_registry (by simp [types]))) rfl
    ⟨rfl, hauthor, hfinite⟩

theorem proper_comment {c : Comment} (hauthor : ∃ a, s.author? c.author = some a) :
    (FieldValue.node (Subject.value (.comment c))).Proper executable (.results (Holds s))
      (.named BlogNode.commentType) :=
  FieldValue.proper_node (find?_liftType (t := .object comment) (mem_registry (by simp [types])))
    rfl
    ⟨rfl, hauthor⟩

/-- A list of values is one of the objects that they are. -/
theorem proper_map_nodes {α : Type} {node : α → BlogNode} {type : String} {items : List α}
    (h : ∀ a ∈ items, (FieldValue.node (Subject.value (node a))).Proper executable
      (.results (Holds s)) (.named type)) :
    ((FieldValue.nodes (items.map node)).map Subject.value).Proper executable (.results (Holds s))
      (.nonNullListNonNull type) := by
  rw [FieldValue.map_nodes]
  refine ⟨rfl, FieldValue.proper_nodes fun v hv => ?_⟩
  rw [List.map_map] at hv
  obtain ⟨a, ha, rfl⟩ := List.mem_map.1 hv
  exact h a ha

theorem proper_map_optionalNode {α : Type} {node : α → BlogNode} {type : String} {found : Option α}
    (h : ∀ a, found = some a → (FieldValue.node (Subject.value (node a))).Proper executable
      (.results (Holds s)) (.named type)) :
    ((FieldValue.optionalNode (found.map node)).map Subject.value).Proper executable
      (.results (Holds s)) (.named type) := by
  rw [FieldValue.map_optionalNode, Option.map_map]
  refine FieldValue.proper_optionalNode fun v hv => ?_
  obtain ⟨a, ha, rfl⟩ := Option.map_eq_some_iff.1 hv
  exact h a ha

theorem proper_posts (hs : s.Readable) {posts : List Post} (h : ∀ p ∈ posts, p ∈ s.posts) :
    ((FieldValue.nodes (posts.map .post)).map Subject.value).Proper executable (.results (Holds s))
      (.nonNullListNonNull BlogNode.postType) :=
  proper_map_nodes fun p hp => proper_post (hs.post_author p (h p hp)) (hs.timestamp p (h p hp))

theorem proper_comments (hs : s.Readable) {comments : List Comment}
    (h : ∀ c ∈ comments, c ∈ s.comments ++ s.replies) :
    ((FieldValue.nodes (comments.map .comment)).map Subject.value).Proper executable
      (.results (Holds s)) (.nonNullListNonNull BlogNode.commentType) :=
  proper_map_nodes fun c hc => proper_comment (hs.comment_author c (h c hc))

/-! ## Authors, comments and posts -/

/-- The author that a registered id refers to is a result for a field of authors. -/
theorem gives_authorOf {id : String} (hauthor : ∃ a, s.author? id = some a)
    {read : BlogNode → BoundArguments → Store → Except FieldError (FieldValue BlogNode)}
    (hresolver : f.resolver = some (reading read)) (hread : read n b s = authorOf s id)
    (htype : f.type = .namedNonNull BlogNode.authorType) : Gives s object n b f := by
  obtain ⟨a, ha⟩ := hauthor
  refine gives_reading hresolver (hread.trans (Store.authorOf_eq ha)) ?_
  rw [htype]
  exact ⟨rfl, proper_author a⟩

theorem gives_of_mem_author (a : Author) : ∀ f ∈ author.fields, Gives s object (.author a) b f := by
  simp only [author, List.forall_mem_cons, List.not_mem_nil, false_imp_iff, implies_true, and_true]
  refine ⟨gives_attribute rfl rfl (proper_requiredString a.id),
    gives_attribute rfl rfl (proper_requiredString a.name), ?_⟩
  refine gives_attribute rfl rfl ?_
  cases a.twitterHandle with
  | none => exact .inl rfl
  | some handle => exact Introspection.proper_string installed handle

theorem gives_of_mem_comment (hs : s.Readable) {c : Comment}
    (hauthor : ∃ a, s.author? c.author = some a) :
    ∀ f ∈ comment.fields, Gives s object (.comment c) b f := by
  simp only [comment, List.forall_mem_cons, List.not_mem_nil, false_imp_iff, implies_true, and_true]
  refine ⟨gives_attribute rfl rfl (proper_requiredString c.id),
    gives_attribute rfl rfl (proper_requiredString c.content),
    gives_authorOf hauthor rfl rfl rfl, ?_, ?_⟩
  · obtain ⟨t, ht⟩ := exists_find?_float
    refine gives_attribute rfl rfl ?_
    cases c.timestamp with
    | none => exact .inl rfl
    | some x => exact FieldValue.proper_leaf ht ⟨rfl, rfl⟩
  · exact gives_reading rfl rfl (proper_comments hs fun c hc => List.mem_append_right _ hc)

/-- The member of the enum for a category, or null. -/
theorem proper_category (c : Option Category) :
    (FieldValue.leaf (Category.optionalJson c).toValue).Proper executable (.results (Holds s))
      (.named categoryType) := by
  cases c with
  | none => exact .inl rfl
  | some c =>
    have hname : (Category.optionalJson (some c)).toValue.name? = some c.name := rfl
    refine FieldValue.proper_member find?_category hname ?_
    cases c <;> decide

theorem gives_postComments (hs : s.Readable)
    (hb : executable.Binds (Registry.liftField .root postComments) b) :
    Gives s object n b postComments := by
  obtain ⟨t, ht⟩ := exists_find?_int
  obtain ⟨limit, hlimit⟩ := hb.int_eq (.head _) rfl ht
  refine gives_reading_bind rfl rfl hlimit rfl (proper_comments hs fun c hc => ?_)
  refine List.mem_append_left _ ?_
  split at hc
  · exact hc
  · exact List.mem_of_mem_take hc

theorem gives_of_mem_post (hs : s.Readable) {p : Post} (hauthor : ∃ a, s.author? p.author = some a)
    (hfinite : p.timestamp.isFinite) :
    ∀ f ∈ post.fields, executable.Binds (Registry.liftField .root f) b →
      Gives s object (.post p) b f := by
  simp only [post, List.forall_mem_cons, List.not_mem_nil, false_imp_iff, implies_true, and_true]
  refine ⟨fun _ => gives_attribute rfl rfl (proper_requiredString p.id),
    fun _ => gives_attribute rfl rfl (proper_requiredString p.title),
    fun _ => gives_attribute rfl rfl (proper_category p.category),
    fun _ => gives_attribute rfl rfl (proper_requiredString p.summary),
    fun _ => gives_attribute rfl rfl (proper_requiredString p.content), fun _ => ?_,
    fun hb => gives_postComments hs hb, fun _ => gives_authorOf hauthor rfl rfl rfl⟩
  obtain ⟨t, ht⟩ := exists_find?_float
  refine gives_reading rfl rfl ?_
  rw [FieldValue.float, if_pos hfinite]
  exact ⟨rfl, FieldValue.proper_leaf ht ⟨rfl, rfl⟩⟩

/-! ## The query root -/

theorem exists_categoryArgument {f : Field Store (Subject BlogNode)} {spec : ArgumentSpec}
    (hb : executable.Binds f b) (hspec : spec ∈ f.arguments)
    (htype : spec.type = .named categoryType) :
    ∃ found, categoryArgument b spec.name = .ok found := by
  unfold categoryArgument
  rcases hb.enumName_eq hspec htype find?_category with hnone | ⟨member, hname, hmember⟩
  · exact ⟨none, by rw [hnone]⟩
  · have hall : ∀ member ∈ category.values, ∃ c, Category.ofName? member = some c := by
      intro member hmember
      obtain ⟨c, -, rfl⟩ := List.mem_map.1 hmember
      exact ⟨c, Category.ofName?_name c⟩
    obtain ⟨c, hc⟩ := hall member (by simpa [EnumType.contains] using hmember)
    exact ⟨some c, by rw [hname]; simp only [hc]⟩

theorem gives_posts (hs : s.Readable) (hb : executable.Binds (Registry.liftField .root posts) b) :
    Gives s object n b posts := by
  obtain ⟨found, hfound⟩ := exists_categoryArgument hb (.head _) rfl
  cases found with
  | none => exact gives_reading_bind rfl rfl hfound rfl (proper_posts hs fun p hp => hp)
  | some c =>
    exact gives_reading_bind rfl rfl hfound rfl
      (proper_posts hs fun p hp => (List.mem_filter.1 hp).1)

theorem gives_latestPost (hs : s.Readable) : Gives s object n b latestPost := by
  refine gives_reading rfl rfl (proper_map_optionalNode fun p hp => ?_)
  have hmem : p ∈ s.posts := Store.mem_postsByDate.1 (List.mem_of_mem_head? hp)
  exact proper_post (hs.post_author p hmem) (hs.timestamp p hmem)

theorem gives_recentPosts (hs : s.Readable)
    (hb : executable.Binds (Registry.liftField .root recentPosts) b) :
    Gives s object n b recentPosts := by
  obtain ⟨t, ht⟩ := exists_find?_int
  obtain ⟨count, hcount⟩ := hb.int_eq (.head _) rfl ht
  exact gives_reading_bind rfl rfl hcount rfl
    (proper_posts hs fun p hp => Store.mem_postsByDate.1 (List.mem_of_mem_take hp))

theorem gives_postById (hs : s.Readable)
    (hb : executable.Binds (Registry.liftField .root postById) b) :
    Gives s object n b postById := by
  obtain ⟨t, ht⟩ := installed.string
  obtain ⟨id, hid⟩ := hb.string_eq (.head _) rfl ht
  refine gives_reading_bind rfl rfl hid rfl (proper_map_optionalNode fun p hp => ?_)
  have hmem : p ∈ s.posts := List.mem_of_find?_eq_some hp
  exact proper_post (hs.post_author p hmem) (hs.timestamp p hmem)

theorem gives_authorById (hb : executable.Binds (Registry.liftField .root authorById) b) :
    Gives s object n b authorById := by
  obtain ⟨t, ht⟩ := installed.string
  obtain ⟨id, hid⟩ := hb.string_eq (.head _) rfl ht
  exact gives_reading_bind rfl rfl hid rfl (proper_map_optionalNode fun a _ => proper_author a)

theorem isTagOf_post : executable.IsTagOf hasAuthor.name BlogNode.postType :=
  ⟨_, Registry.object?_eq_some_iff.2 (find?_liftType (t := .object post)
    (mem_registry (by simp [types]))),
    rfl⟩

theorem isTagOf_comment : executable.IsTagOf hasAuthor.name BlogNode.commentType :=
  ⟨_, Registry.object?_eq_some_iff.2
    (find?_liftType (t := .object comment) (mem_registry (by simp [types]))), rfl⟩

/-- Posts and comments are what has an author. -/
theorem gives_contributions (hs : s.Readable)
    (hb : executable.Binds (Registry.liftField .root contributions) b) :
    Gives s object n b contributions := by
  obtain ⟨t, ht⟩ := installed.string
  obtain ⟨id, hid⟩ := hb.string_eq (.head _) rfl ht
  refine gives_reading_bind rfl rfl hid rfl ?_
  rw [FieldValue.map_nodes]
  refine ⟨rfl, FieldValue.proper_nodes fun v hv => ?_⟩
  rw [List.map_append, List.map_map, List.map_map, List.mem_append] at hv
  rcases hv with hv | hv
  · obtain ⟨p, hp, rfl⟩ := List.mem_map.1 hv
    have hmem : p ∈ s.posts := (List.mem_filter.1 hp).1
    exact FieldValue.proper_tagged find?_hasAuthor rfl isTagOf_post
      ⟨rfl, hs.post_author p hmem, hs.timestamp p hmem⟩
  · obtain ⟨c, hc, rfl⟩ := List.mem_map.1 hv
    have hmem : c ∈ s.comments ++ s.replies := (List.mem_filter.1 hc).1
    exact FieldValue.proper_tagged find?_hasAuthor rfl isTagOf_comment
      ⟨rfl, hs.comment_author c hmem⟩

theorem gives_of_mem_queryRoot (hs : s.Readable) :
    ∀ f ∈ queryRoot.fields, executable.Binds (Registry.liftField .root f) b →
      Gives s object n b f := by
  simp only [queryRoot, List.forall_mem_cons, List.not_mem_nil, false_imp_iff, implies_true,
    and_true]
  exact ⟨gives_posts hs, fun _ => gives_latestPost hs, gives_recentPosts hs, gives_postById hs,
    fun _ => gives_reading rfl rfl (proper_map_nodes fun a _ => proper_author a), gives_authorById,
    gives_contributions hs⟩

/-! ## All fields -/

theorem hasPlainItems {o : ObjectType Store (Subject BlogNode)} (ho : .object o ∈ executable.types)
    {f : Field Store (Subject BlogNode)} (hf : f ∈ o.fields) : f.type.hasPlainItems := by
  have all : ∀ t ∈ Outline.ofRegistry executable, ∀ f ∈ t.fields, f.type.hasPlainItems := by
    decide +kernel
  exact all _ (List.mem_map.2 ⟨_, ho, rfl⟩) _ (List.mem_map.2 ⟨f, hf, rfl⟩)

/-- On a value of its object, a field of the blog other than a creation has a result of its type. -/
theorem gives_of_holds (object : String) (b : BoundArguments) (hs : s.Readable)
    {o : ObjectType Store BlogNode} (ho : .object o ∈ registry.types)
    {v : Subject BlogNode} (hv : Holds s o.name v) : ∃ n, v = .value n ∧
      ∀ f ∈ o.fields, executable.Binds (Registry.liftField .root f) b → Gives s object n b f := by
  rcases mem_types_iff.1 ho with rfl | rfl | rfl | rfl | rfl
  · obtain ⟨a, rfl⟩ := exists_author_of_objectOf hv.objectOf_eq
    exact ⟨_, rfl, fun f hf _ => gives_of_mem_author a f hf⟩
  · obtain ⟨c, rfl⟩ := exists_comment_of_objectOf hv.objectOf_eq
    exact ⟨_, rfl, fun f hf _ => gives_of_mem_comment hs hv.follows f hf⟩
  · obtain ⟨p, rfl⟩ := exists_post_of_objectOf hv.objectOf_eq
    exact ⟨_, rfl, gives_of_mem_post hs hv.follows.1 hv.follows.2⟩
  · obtain rfl := eq_root_of_objectOf hv.objectOf_eq
    exact ⟨_, rfl, gives_of_mem_queryRoot hs⟩
  · -- no value is one for the mutation root
    have hname : objectOf v = mutationType := hv.objectOf_eq
    rcases v with (_ | _ | _ | _) | (_ | _ | _ | _ | _ | _)
    all_goals simp [objectOf, mutationType, queryType, BlogNode.authorType, BlogNode.postType,
      BlogNode.commentType, Part.typeName] at hname

/-- The values for the objects of introspection are parts. -/
theorem exists_part_of_objectOf {o : ObjectType Store (Subject BlogNode)}
    (ho : .object o ∈ Introspection.types registry.knowledge) {v : Subject BlogNode}
    (h : objectOf v = o.name) : ∃ p, v = .part p := by
  cases v with
  | part p => exact ⟨p, rfl⟩
  | value n =>
    simp only [Introspection.types, List.mem_cons, NamedType.object.injEq, reduceCtorEq,
      List.not_mem_nil, or_false] at ho
    rcases ho with rfl | rfl | rfl | rfl | rfl | rfl
    all_goals cases n <;> simp [objectOf, queryType, BlogNode.authorType, BlogNode.postType,
      BlogNode.commentType] at h

/-- Every field has a result of its declared type on the values of a readable store. -/
theorem serves (hs : s.Readable) : executable.Serves (Holds s) s := by
  refine ⟨fun o ho f hf => hasPlainItems (object?_name_eq_some_iff.1 ho) hf,
    fun o ho v hv f hf b hb => ?_⟩
  have hparts : ∀ p : Part, Holds s p.typeName (.part p) := fun _ => ⟨rfl, trivial⟩
  rcases Registry.mem_withIntrospection (object?_name_eq_some_iff.1 ho)
    with ⟨blog, hblog, rfl⟩ | hown
  · obtain ⟨n, rfl, hgives⟩ := gives_of_holds blog.name b hs hblog hv
    rcases List.mem_append.1 hf with hf | hf
    · obtain ⟨g, hg, rfl⟩ := List.mem_map.1 hf
      obtain ⟨result, hresult, hproper⟩ := hgives g hg hb
      exact ⟨_, Registry.fieldResult_liftField hresult, hproper⟩
    · split at hf
      · exact Introspection.exists_result_of_rootField installed hparts hf hb _ _ s
      · cases hf
  · obtain ⟨p, rfl⟩ := exists_part_of_objectOf hown hv.objectOf_eq
    exact Introspection.givesProper_of_mem installed hparts hown hv.objectOf_eq f hf b s

theorem takesLeaves {o : ObjectType Store (Subject BlogNode)} (ho : .object o ∈ executable.types)
    {f : Field Store (Subject BlogNode)} (hf : f ∈ o.fields) : executable.TakesLeaves f := by
  have all : ∀ t ∈ Outline.ofRegistry executable, ∀ f ∈ t.fields,
      (f.arguments.map ArgumentSpec.name).Nodup ∧ ∀ spec ∈ f.arguments,
        Validation.itemType? spec.type = none ∧ executable.takesLeaf spec.type.baseName ∧
          spec.default.all fun value => (executable.coerce spec.type value).isOk := by
    decide +kernel
  obtain ⟨hnodup, hspecs⟩ := all _ (List.mem_map.2 ⟨_, ho, rfl⟩) _ (List.mem_map.2 ⟨f, hf, rfl⟩)
  refine ⟨hnodup, fun spec h => (hspecs spec h).1, fun spec h => (hspecs spec h).2.1, ?_⟩
  intro spec h value hvalue
  have hok := (hspecs spec h).2.2
  rw [hvalue] at hok
  cases hc : executable.coerce spec.type value with
  | ok c => exact ⟨c, rfl⟩
  | error e => simp [hc, Except.isOk, Except.toBool] at hok

/-- An object with a field for its author has the fields of the interface. -/
theorem represents_hasAuthor {o : ObjectType Store (Subject BlogNode)}
    {f : Field Store (Subject BlogNode)}
    (hfield : o.field? "author" = some f) (htype : f.type = .namedNonNull BlogNode.authorType)
    (harguments : f.arguments = []) :
    (Outline.ofType (.interface hasAuthor : NamedType Store (Subject BlogNode))).Represents o := by
  intro name outline h
  simp only [Outline.ofType, hasAuthor, List.map_cons, List.map_nil] at h
  by_cases hname : "author" = name
  · subst hname
    rw [List.find?_cons_of_pos (by simp)] at h
    rw [← Option.some.inj h]
    exact ⟨f, hfield, htype, harguments⟩
  · rw [List.find?_cons_of_neg (by simpa using hname)] at h
    cases h

/-- Objects have the fields of what they implement, and the arguments of all fields are leaves. -/
theorem coherent : executable.Coherent := by
  refine ⟨fun o ho name hisA t ht => ?_,
    fun o ho f hf => takesLeaves (object?_name_eq_some_iff.1 ho) hf⟩
  have hinterface (himplements : o.implements = [hasAuthorType]) : t = .interface hasAuthor := by
    rw [ObjectType.isA, himplements, List.contains_iff_mem, List.mem_singleton] at hisA
    rw [hisA, find?_hasAuthor] at ht
    exact (Option.some.inj ht).symm
  have hnone (himplements : o.implements = []) : (Outline.ofType t).Represents o := by
    rw [ObjectType.isA, himplements] at hisA
    cases hisA
  rcases Registry.mem_withIntrospection (object?_name_eq_some_iff.1 ho)
    with ⟨blog, hblog, rfl⟩ | hown
  · rcases mem_types_iff.1 hblog with rfl | rfl | rfl | rfl | rfl
    · exact hnone rfl
    · obtain rfl := hinterface rfl
      exact represents_hasAuthor rfl rfl rfl
    · obtain rfl := hinterface rfl
      exact represents_hasAuthor rfl rfl rfl
    · exact hnone rfl
    · exact hnone rfl
  · simp only [Introspection.types, List.mem_cons, NamedType.object.injEq, reduceCtorEq,
      List.not_mem_nil, or_false] at hown
    rcases hown with rfl | rfl | rfl | rfl | rfl | rfl
    all_goals exact hnone rfl

end Blog

end Gazette
