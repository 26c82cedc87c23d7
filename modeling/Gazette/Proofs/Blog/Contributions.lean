import Gazette.Proofs.Blog.Answers

/-!
# Contributions of authors

What `contributions` gives for an id is the part of the blog's content that refers to it
(`contributed`).  In a reachable store every reference is to an author, and no two authors have one
id, so that the contributions of all authors make up the content without overlap
(`contributions_partition`).
-/

namespace Gazette

/-- Items that are grouped by a key are rearranged, if every key of an item is there once. -/
theorem flatMap_filter_perm {α β : Type} [DecidableEq β] (key : α → β) {keys : List β}
    (hkeys : keys.Nodup) {l : List α} (h : ∀ x ∈ l, key x ∈ keys) :
    (keys.flatMap fun k => l.filter fun x => key x = k).Perm l := by
  induction keys generalizing l with
  | nil =>
    obtain rfl : l = [] := List.eq_nil_iff_forall_not_mem.2 fun x hx => by simpa using h x hx
    exact .refl _
  | cons k rest ih =>
    obtain ⟨hk, hrest⟩ := List.nodup_cons.1 hkeys
    -- the other keys group the items that do not have the first one
    have hothers : ∀ k' ∈ rest, (l.filter fun x => key x = k') =
        (l.filter fun x => !decide (key x = k)).filter fun x => key x = k' := by
      intro k' hk'
      rw [List.filter_filter]
      refine List.filter_congr fun x _ => ?_
      by_cases hx : key x = k'
      · have hne : k' ≠ k := fun heq => hk (heq ▸ hk')
        simp [hx, hne]
      · simp [hx]
    have hcovered : ∀ x ∈ l.filter (fun x => !decide (key x = k)), key x ∈ rest := by
      intro x hx
      obtain ⟨hx, hne⟩ := List.mem_filter.1 hx
      exact (List.mem_cons.1 (h x hx)).resolve_left (by simpa using hne)
    rw [List.flatMap_cons, List.flatMap_congr hothers]
    exact ((ih hrest hcovered).append_left _).trans (List.filter_append_perm _ l)

namespace Blog

/-- The id of the author of a post or a comment. -/
def writer? : BlogNode → Option String
  | .post p => some p.author
  | .comment c => some c.author
  | _ => none

/-- All posts, comments and replies of a store. -/
def content (s : Store) : List BlogNode :=
  s.posts.map .post ++ s.comments.map .comment ++ s.replies.map .comment

/-- A post as what has an author: resolved as a post. -/
def postItem (p : Post) : Completed (Subject BlogNode) := .tagged "Post" (.value (.post p))

/-- A comment or a reply as what has an author. -/
def commentItem (c : Comment) : Completed (Subject BlogNode) :=
  .tagged "Comment" (.value (.comment c))

/-- All posts, comments and replies of a store, each as what has an author. -/
def contentItems (s : Store) : List (Completed (Subject BlogNode)) :=
  s.posts.map postItem ++ s.comments.map commentItem ++ s.replies.map commentItem

/-- The posts of an author, then the comments and then the replies, as the store has them. -/
def contributed (s : Store) (id : String) : List (Completed (Subject BlogNode)) :=
  (s.posts.filter fun p => p.author = id).map postItem ++
    (s.comments.filter fun c => c.author = id).map commentItem ++
      (s.replies.filter fun c => c.author = id).map commentItem

/-- A node of the content as what has an author. -/
def itemOf (n : BlogNode) : Completed (Subject BlogNode) :=
  .tagged ((Node.typeName n).getD "") (.value n)

variable {s : Store}

theorem itemOf_inj {n n' : BlogNode} (h : itemOf n = itemOf n') : n = n' := by
  simp only [itemOf, Completed.tagged.injEq, Subject.value.injEq] at h
  exact h.2

theorem map_itemOf_content (s : Store) : (content s).map itemOf = contentItems s := by
  simp only [content, contentItems, List.map_append, List.map_map]
  rfl

theorem map_itemOf_contributionsOf (s : Store) (id : String) :
    (contributionsOf s id).map itemOf = contributed s id := by
  simp only [contributionsOf, contributed, List.map_append, List.map_map, List.filter_append,
    List.append_assoc]
  rfl

/-- What an author has contributed is the content with the author's id. -/
theorem contributionsOf_eq_filter (s : Store) (id : String) :
    contributionsOf s id = (content s).filter fun n => writer? n = some id := by
  simp only [contributionsOf, content, List.filter_append, List.filter_map, List.map_append,
    List.append_assoc]
  simp [Function.comp_def, writer?]

theorem answer_contributions (s : Store) (id : String) :
    answer "contributions" [("author", .string id)] s =
      (.ok (some (.list (contributed s id))), s) := by
  have hlist (b : BoundArguments) (hb : b.get? "author" = some (.string id)) :
      (do
        let id ← b.string "author"
        let posts := s.posts.filter fun p => p.author = id
        let comments := (s.comments ++ s.replies).filter fun c => c.author = id
        return FieldValue.nodes (posts.map .post ++ comments.map .comment) :
          Except FieldError (FieldValue BlogNode)) = .ok (.nodes (contributionsOf s id)) := by
    rw [string_of_get? hb]
    rfl
  rw [← map_itemOf_contributionsOf]
  refine answer_reading_single _ (g := contributions) rfl rfl (isCanonical_requiredString id) rfl
    hlist ?_
  rw [FieldValue.map_nodes]
  exact Registry.complete_nodes fun n hn => complete_contribution hn

/-- Every part of the content is by an author of the store. -/
theorem exists_author_of_mem_content (h : s.Sound) {n : BlogNode} (hn : n ∈ content s) :
    ∃ a ∈ s.authors, writer? n = some a.id := by
  obtain ⟨id, hwriter, hid⟩ : ∃ id, writer? n = some id ∧ id ∈ s.foreignKeys := by
    simp only [content, List.mem_append, List.mem_map] at hn
    rcases hn with (⟨p, hp, rfl⟩ | ⟨c, hc, rfl⟩) | ⟨c, hc, rfl⟩
    · exact ⟨p.author, rfl, List.mem_append_left _ (List.mem_map_of_mem hp)⟩
    · exact ⟨c.author, rfl,
        List.mem_append_right _ (List.mem_map_of_mem (List.mem_append_left _ hc))⟩
    · exact ⟨c.author, rfl,
        List.mem_append_right _ (List.mem_map_of_mem (List.mem_append_right _ hc))⟩
  obtain ⟨a, ha, rfl⟩ := h.registered hid
  exact ⟨a, ha, hwriter⟩

theorem mem_contributed_iff {n : BlogNode} (hn : n ∈ content s) {id : String} :
    itemOf n ∈ contributed s id ↔ writer? n = some id := by
  rw [← map_itemOf_contributionsOf, List.mem_map_of_injective fun _ _ => itemOf_inj,
    contributionsOf_eq_filter, List.mem_filter, decide_eq_true_iff]
  exact and_iff_right hn

/-- In every reachable store, `contributions` gives for a string the posts, the comments and the
replies with it as the id of their author, in the order of the store and each under its own type.
Every post, comment and reply is given for one string only, which is the id of a registered author;
so the contributions of all authors are a rearrangement of the content, and for an id that no author
has there are none.  If the dates of all posts are finite as numbers, the responses to queries show
just these posts, comments and replies. -/
theorem contributions_partition (h : s.IsReachable) :
    (∀ id, answer "contributions" [("author", .string id)] s =
      (.ok (some (.list (contributed s id))), s)) ∧
    (∀ id, (contributionsOf s id).map itemOf = contributed s id) ∧
    ((∀ p ∈ s.posts, p.timestamp.isFinite) →
      QueriesShow s fun scope => ShowsContributions scope s) ∧
    (∀ item ∈ contentItems s, ∃ a ∈ s.authors, ∀ id, item ∈ contributed s id ↔ id = a.id) ∧
    (s.authors.flatMap fun a => contributed s a.id).Perm (contentItems s) ∧
    ∀ id, (∀ a ∈ s.authors, a.id ≠ id) → contributed s id = [] := by
  refine ⟨answer_contributions s, map_itemOf_contributionsOf s, fun hfinite =>
    (queriesShow_showsStore (h.sound.readable hfinite)).imp fun _ _ _ h => h.contributions,
    fun item hitem => ?_, ?_, fun id hid => ?_⟩
  · rw [← map_itemOf_content] at hitem
    obtain ⟨n, hn, rfl⟩ := List.mem_map.1 hitem
    obtain ⟨a, ha, hwriter⟩ := exists_author_of_mem_content h.sound hn
    refine ⟨a, ha, fun id => ?_⟩
    rw [mem_contributed_iff hn, hwriter, Option.some.injEq, eq_comm]
  · have hdistinct : (s.authors.map fun a => some a.id).Nodup := by
      refine List.pairwise_map.2 (h.sound.authors_sorted.imp fun hlt heq => ?_)
      exact hlt.ne (Option.some.inj heq)
    have hperm := flatMap_filter_perm writer? hdistinct fun n hn => by
      obtain ⟨a, ha, hwriter⟩ := exists_author_of_mem_content h.sound hn
      exact hwriter ▸ List.mem_map_of_mem (f := fun a : Author => some a.id) ha
    have hitems := hperm.map itemOf
    rw [map_itemOf_content, List.map_flatMap, List.flatMap_map] at hitems
    simpa only [← contributionsOf_eq_filter, map_itemOf_contributionsOf] using hitems
  · rw [← map_itemOf_contributionsOf, contributionsOf_eq_filter, List.map_eq_nil_iff,
      List.filter_eq_nil_iff]
    intro n hn hwriter
    obtain ⟨a, ha, hn⟩ := exists_author_of_mem_content h.sound hn
    exact hid a ha (Option.some.inj (hn.symm.trans (by simpa using hwriter)))

/-- A query for what an author of a new blog has written. -/
def contributionsQuery : Request where
  query := "\x7b contributions(author: \"tkremenek\") " ++
    "\x7b __typename author \x7b name \x7d \x7d \x7d"

/-- What the authors of a new blog have contributed, of which one has a post and a comment. -/
theorem contributions_new_blog :
    let s := Seed.store (.ofBits 1 2 3 4) .epoch
    s.IsReachable ∧
    (∃ p c, answer "contributions" [("author", .string "tkremenek")] s =
      (.ok (some (.list [postItem p, commentItem c])), s)) ∧
    (∃ selected members, IsQuery contributionsQuery selected ∧
      Service.schema.respond contributionsQuery s = (⟨.object members, []⟩, s) ∧
      ShowsContributions (Service.schema.scope contributionsQuery selected.operation) s
        (Plan.fieldsOn selected.root selected.plans) members) ∧
    (s.authors.flatMap fun a => contributed s a.id).Perm (contentItems s) := by
  intro s
  have hs : s.IsReachable := ⟨s, [], .seeded _ _, rfl⟩
  obtain ⟨hanswer, -, hshows, -, hperm, -⟩ := contributions_partition hs
  have hfinite : ∀ p ∈ s.posts, p.timestamp.isFinite := by
    show ∀ p ∈ Seed.posts .epoch, p.timestamp.isFinite
    decide +kernel
  have hplain : passes contributionsQuery (isPlain contributionsQuery) := by decide +kernel
  have hposts : (s.posts.filter fun p => p.author = "tkremenek").length = 1 := by decide +kernel
  have hcomments : (s.comments.filter fun c => c.author = "tkremenek").length = 1 := by
    decide +kernel
  have hreplies : (s.replies.filter fun c => c.author = "tkremenek") = [] := by decide +kernel
  obtain ⟨p, hp⟩ := List.length_eq_one_iff.1 hposts
  obtain ⟨c, hc⟩ := List.length_eq_one_iff.1 hcomments
  refine ⟨hs, ⟨p, c, ?_⟩, (hshows hfinite).exists_of_isPlain hplain, hperm⟩
  rw [hanswer, contributed, hp, hc, hreplies]
  rfl

end Blog

end Gazette
