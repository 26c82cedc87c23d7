import Gazette.Proofs.Blog.Answers
import Mathlib.Data.List.Sort

/-!
# Reading posts by date

There is one list that has the posts of a store from the earliest date to the latest, those of one
date in the order of the table (`IsByDate`, `isByDate_iff`).  The posts that `recentPosts` gives are
the first ones of that list, and `latestPost` gives its head; so responses show them, too
(`posts_by_date`).  Posts that were created while the clock never went back are in that order
already (`sortByDate_after`).
-/

namespace Gazette

namespace Instant

/-- Of two instants one is before the other, unless they are the same. -/
theorem eq_of_not_before {a b : Instant} (hab : a.before b = false) (hba : b.before a = false) :
    a = b := by
  obtain ⟨seconds, nanos⟩ := a
  obtain ⟨seconds', nanos'⟩ := b
  simp only [before, Bool.or_eq_false_iff, Bool.and_eq_false_iff, decide_eq_false_iff_not] at *
  rw [Instant.mk.injEq]
  omega

theorem not_before_of_before {a b : Instant} (h : a.before b) : b.before a = false := by
  by_contra hba
  have hself := before_trans h (by simpa using hba)
  rw [before_self] at hself
  cases hself

theorem not_before_trans {a b c : Instant} (hba : b.before a = false) (hcb : c.before b = false) :
    c.before a = false := by
  simp only [before, Bool.or_eq_false_iff, Bool.and_eq_false_iff, decide_eq_false_iff_not] at *
  omega

end Instant

namespace Store

/-! ## The order by date -/

/-- Whether a post may stand before another in the order by date. -/
def DatedBefore (p q : Post) : Prop := q.date.before p.date = false

instance : DecidableRel DatedBefore := fun p q =>
  inferInstanceAs (Decidable (q.date.before p.date = false))

instance : IsTrans Post DatedBefore := ⟨fun _ _ _ => Instant.not_before_trans⟩

instance : Std.Total DatedBefore := ⟨fun p q => by
  unfold DatedBefore
  cases h : q.date.before p.date with
  | false => exact .inl rfl
  | true => exact .inr (Instant.not_before_of_before h)⟩

theorem datedBefore_of_date_eq {p q : Post} (h : p.date = q.date) : DatedBefore p q := by
  rw [DatedBefore, h, Instant.before_self]

/-- Whether `sorted` has certain posts by date: from the earliest to the latest, those of one date
in the order that they had. -/
structure IsByDate (posts sorted : List Post) : Prop where
  perm : sorted.Perm posts
  ordered : sorted.Pairwise DatedBefore
  stable : ∀ date, (sorted.filter fun p => p.date = date) = posts.filter fun p => p.date = date

variable {posts : List Post}

theorem insertByDate_eq (p : Post) (posts : List Post) :
    insertByDate p posts = posts.orderedInsert DatedBefore p := by
  induction posts with
  | nil => rfl
  | cons q rest ih =>
    rw [insertByDate, List.orderedInsert_cons, ih]
    cases h : q.date.before p.date with
    | false => exact (if_pos (show DatedBefore p q from h)).symm
    | true => exact (if_neg (show ¬DatedBefore p q by simp [DatedBefore, h])).symm

theorem sortByDate_eq (posts : List Post) : sortByDate posts = posts.insertionSort DatedBefore := by
  have hinsert : insertByDate = fun p rest => List.orderedInsert DatedBefore p rest :=
    funext₂ insertByDate_eq
  rw [sortByDate, hinsert]
  rfl

/-- The posts of one date keep their order, as they are sorted within the table. -/
theorem filter_sortByDate (posts : List Post) (date : Instant) :
    (sortByDate posts).filter (fun p => p.date = date) = posts.filter fun p => p.date = date := by
  have hdate : ∀ p ∈ posts.filter fun p => p.date = date, p.date = date :=
    fun p hp => by simpa using (List.mem_filter.1 hp).2
  have hsorted : (posts.filter fun p => p.date = date).Pairwise DatedBefore :=
    List.pairwise_of_forall_mem_list fun p hp q hq =>
      datedBefore_of_date_eq ((hdate p hp).trans (hdate q hq).symm)
  have hsublist := (List.sublist_insertionSort hsorted List.filter_sublist).filter
    fun p => p.date = date
  rw [List.filter_filter, ← sortByDate_eq] at hsublist
  simp only [Bool.and_self] at hsublist
  refine (hsublist.eq_of_length_le ?_).symm
  rw [sortByDate_eq]
  exact ((List.perm_insertionSort DatedBefore posts).filter _).length_eq.le

theorem isByDate_sortByDate (posts : List Post) : IsByDate posts (sortByDate posts) where
  perm := sortByDate_eq posts ▸ List.perm_insertionSort DatedBefore posts
  ordered := sortByDate_eq posts ▸ List.pairwise_insertionSort DatedBefore posts
  stable := filter_sortByDate posts

/-- Posts in order are determined by the posts of each date. -/
theorem eq_of_ordered {sorted other : List Post} (hs : sorted.Pairwise DatedBefore)
    (ho : other.Pairwise DatedBefore)
    (h : ∀ date, (sorted.filter fun p => p.date = date) = other.filter fun p => p.date = date) :
    sorted = other := by
  have hmem (p : Post) : p ∈ sorted ↔ p ∈ other := by
    have hp := congrArg (p ∈ ·) (h p.date)
    simpa using hp
  induction sorted generalizing other with
  | nil =>
    refine (List.eq_nil_iff_forall_not_mem.2 fun p hp => ?_).symm
    cases (hmem p).2 hp
  | cons p rest ih =>
    cases other with
    | nil => cases (hmem p).1 (by simp)
    | cons q rest' =>
      rw [List.pairwise_cons] at hs ho
      -- each head may stand before the other, so that they have one date
      have hpq : p.date = q.date := by
        refine Instant.eq_of_not_before ?_ ?_
        · rcases List.mem_cons.1 ((hmem p).1 (by simp)) with rfl | hp
          · exact Instant.before_self _
          · exact ho.1 p hp
        · rcases List.mem_cons.1 ((hmem q).2 (by simp)) with rfl | hq
          · exact Instant.before_self _
          · exact hs.1 q hq
      have hhead := h p.date
      rw [List.filter_cons_of_pos (by simp), List.filter_cons_of_pos (by simp [hpq])] at hhead
      obtain ⟨rfl, -⟩ := List.cons.inj hhead
      have hrest (date : Instant) : (rest.filter fun p => p.date = date) =
          rest'.filter fun p => p.date = date := by
        have hdate := h date
        by_cases hp : p.date = date
        · rw [List.filter_cons_of_pos (by simp [hp]), List.filter_cons_of_pos (by simp [hp])]
            at hdate
          exact (List.cons.inj hdate).2
        · rwa [List.filter_cons_of_neg (by simp [hp]), List.filter_cons_of_neg (by simp [hp])]
            at hdate
      rw [ih hs.2 ho.2 hrest fun r => by simpa using congrArg (r ∈ ·) (hrest r.date)]

/-- There is one list of posts by date, and sorting gives it. -/
theorem isByDate_iff {sorted : List Post} : IsByDate posts sorted ↔ sorted = sortByDate posts := by
  refine ⟨fun h => ?_, fun h => h ▸ isByDate_sortByDate posts⟩
  refine eq_of_ordered h.ordered (isByDate_sortByDate posts).ordered fun date => ?_
  rw [h.stable, filter_sortByDate]

/-! ## Posts in the order of their creation -/

/-- The times at which the calls of a history ask for a post to be published. -/
def postingTimes (s : Store) : List Event → List Instant
  | [] => []
  | .call (.post n) :: rest => s.clock.now :: postingTimes (Event.apply (.call (.post n)) s) rest
  | e :: rest => postingTimes (e.apply s) rest

/-- New posts are dated at the times at which they were asked for. -/
theorem dates_after (s : Store) (history : List Event) :
    ((s.after history).posts.map Post.date).Sublist
      (s.posts.map Post.date ++ s.postingTimes history) := by
  induction history generalizing s with
  | nil => simp [after, postingTimes]
  | cons e rest ih =>
    refine (ih (e.apply s)).trans ?_
    cases e with
    | clock c => exact List.Sublist.refl _
    | call c =>
      cases c with
      | author a =>
        rcases createAuthor_cases a s with ⟨-, h⟩ | ⟨-, h⟩
        · simp [postingTimes, Event.apply, Call.run, h]
        · simp [postingTimes, Event.apply, Call.run, h]
      | post n =>
        rcases createPost_cases n s with ⟨-, h⟩ | ⟨-, -, h⟩ | ⟨-, -, h⟩
        · simp [postingTimes, Event.apply, Call.run, h]
        · simp [postingTimes, Event.apply, Call.run, h]
        · simp [postingTimes, Event.apply, Call.run, h, NewPost.publish]

/-- Posts for which the clock never went back are in order as they are. -/
theorem sortByDate_after {s : Store} {history : List Event}
    (h : (s.posts.map Post.date ++ s.postingTimes history).Pairwise
      fun t t' => t'.before t = false) :
    sortByDate (s.after history).posts = (s.after history).posts := by
  have hdates := h.sublist (dates_after s history)
  rw [List.pairwise_map] at hdates
  rw [sortByDate_eq]
  exact List.Pairwise.insertionSort_eq hdates

end Store

/-! ## The fields of the query root -/

namespace Blog

/-- A post as a completed result. -/
def shownPost (p : Post) : Completed (Subject BlogNode) := .node (.value (.post p))

/-- Whether `recentPosts` gives certain items for a count, and leaves the store as it is. -/
def GivesRecent (s : Store) (count : Int) (items : List (Completed (Subject BlogNode))) : Prop :=
  answer "recentPosts" [("count", .int count)] s = (.ok (some (.list items)), s)

/-- Whether `latestPost` gives a result, and leaves the store as it is. -/
def GivesLatest (s : Store) (result : Option (Completed (Subject BlogNode))) : Prop :=
  answer "latestPost" [] s = (.ok result, s)

theorem GivesLatest.eq {s : Store} {result other : Option (Completed (Subject BlogNode))}
    (h : GivesLatest s result) (h' : GivesLatest s other) : result = other := by
  have heq := h.symm.trans h'
  simpa using heq

theorem complete_post (p : Post) :
    executable.complete (.named BlogNode.postType) (.node (.value (.post p))) =
      .ok (some (shownPost p)) := complete_record post_mem_types rfl

theorem givesRecent (s : Store) {count : Int} (hmin : Registry.minInt32 ≤ count)
    (hmax : count ≤ Registry.maxInt32) :
    GivesRecent s count ((s.postsByDate.take count.toNat).map shownPost) := by
  have hlist (b : BoundArguments) (hb : b.get? "count" = some (.int count)) :
      (do return FieldValue.nodes ((s.postsByDate.take (← b.int "count").toNat).map .post) :
        Except FieldError (FieldValue BlogNode)) =
          .ok (.nodes ((s.postsByDate.take count.toNat).map .post)) := by
    rw [int_of_get? hb hmin hmax]
    rfl
  refine answer_reading_single _ (g := recentPosts) rfl rfl (isCanonical_requiredInt hmin hmax) rfl
    hlist ?_
  rw [FieldValue.map_nodes, List.map_map]
  exact Registry.complete_nodes fun p _ => complete_post p

theorem givesLatest (s : Store) : GivesLatest s (s.postsByDate.head?.map shownPost) := by
  refine answer_reading (.optionalNode (s.postsByDate.head?.map BlogNode.post)) (g := latestPost)
    rfl rfl rfl rfl ?_
  rw [FieldValue.map_optionalNode]
  cases s.postsByDate.head? with
  | none => rfl
  | some p => exact complete_post p

theorem postsByDate_eq_nil_iff {s : Store} : s.postsByDate = [] ↔ s.posts = [] := by
  have hperm : s.postsByDate.Perm s.posts := (Store.isByDate_sortByDate s.posts).perm
  exact ⟨fun h => (h ▸ hperm).symm.eq_nil, fun h => (h ▸ hperm).eq_nil⟩

theorem givesLatest_none_iff {s : Store} : GivesLatest s none ↔ s.posts = [] := by
  rw [← postsByDate_eq_nil_iff]
  refine ⟨fun h => ?_, fun h => ?_⟩
  · have hhead := (givesLatest s).eq h
    simpa using hhead
  · have hlatest := givesLatest s
    rwa [h] at hlatest

/-- Posts are read in the order of their dates, which is the only order that goes from the earliest
to the latest and keeps the table's order for posts of one date: `recentPosts` gives the first ones,
so that a smaller count gives the beginning of what a larger one gives, and `latestPost` gives what
`recentPosts` gives for one.  If the clock never went back from one post to the next, that order is
the one of the table.  In a store that can be read the responses to queries show just these
posts. -/
theorem posts_by_date (s : Store) : ∃ sorted,
    (∀ posts, Store.IsByDate s.posts posts ↔ posts = sorted) ∧
    (∀ count, Registry.minInt32 ≤ count → count ≤ Registry.maxInt32 →
      GivesRecent s count ((sorted.take count.toNat).map shownPost)) ∧
    (∀ m n, Registry.minInt32 ≤ m → m ≤ n → n ≤ Registry.maxInt32 →
      ∃ fewer more, GivesRecent s m fewer ∧ GivesRecent s n more ∧ fewer <+: more) ∧
    (GivesLatest s none ↔ s.posts = []) ∧
    (s.posts ≠ [] → ∃ latest, GivesLatest s (some latest) ∧ GivesRecent s 1 [latest]) ∧
    (s.Readable → QueriesShow s fun scope => ShowsByDate scope s sorted) ∧
    ∀ (start : Store) history, s = start.after history →
      (start.posts.map Post.date ++ start.postingTimes history).Pairwise
        (fun t t' => t'.before t = false) →
      sorted = s.posts ∧ ∀ count, Registry.minInt32 ≤ count → count ≤ Registry.maxInt32 →
        GivesRecent s count ((s.posts.take count.toNat).map shownPost) := by
  refine ⟨s.postsByDate, fun posts => Store.isByDate_iff, fun count => givesRecent s,
    fun m n hmin hmn hmax => ?_, givesLatest_none_iff, fun hposts => ?_,
    fun hs => (queriesShow_showsStore hs).imp fun _ _ _ h => h.byDate, ?_⟩
  · refine ⟨_, _, givesRecent s hmin (hmn.trans hmax), givesRecent s (hmin.trans hmn) hmax, ?_⟩
    exact (List.take_prefix_take_left (Int.toNat_le_toNat hmn)).map shownPost
  · have hlatest := givesLatest s
    have hone : GivesRecent s 1 ((s.postsByDate.take 1).map shownPost) :=
      givesRecent s (by decide) (by decide)
    obtain ⟨p, rest, hsorted⟩ := List.exists_cons_of_ne_nil (postsByDate_eq_nil_iff.not.2 hposts)
    rw [hsorted] at hlatest hone
    exact ⟨shownPost p, hlatest, hone⟩
  · rintro start history rfl hclock
    have hsorted : (start.after history).postsByDate = (start.after history).posts :=
      Store.sortByDate_after hclock
    exact ⟨hsorted, fun count hmin hmax => hsorted ▸ givesRecent _ hmin hmax⟩

/-- A new post with a summary of its own. -/
def draft (id : String) : NewPost := ⟨id, "Title", "Content", some "Summary", none, "a"⟩

/-- Four posts, of which two have one date, and the clock goes back before the last one. -/
def fourPosts : List Store.Event :=
  [.call (.author ⟨"a", "Ann", none⟩), .clock (.still ⟨20, 0⟩), .call (.post (draft "1")),
    .clock (.still ⟨20, 500⟩), .call (.post (draft "2")), .call (.post (draft "3")),
    .clock (.still ⟨20, 499⟩), .call (.post (draft "4"))]

/-- A query for the first three posts by date, and the first one. -/
def recentQuery : Request where
  query := "\x7b recentPosts(count: 3) \x7b id timestamp \x7d latestPost \x7b title \x7d \x7d"

/-- The last of four posts comes second, for which the clock had gone back, and without it the posts
are read as they were created. -/
theorem posts_by_date_fourPosts :
    let s := (Store.empty .epoch).after fourPosts
    let earlier := (Store.empty .epoch).after (fourPosts.take 6)
    let published := fun id date => (draft id).publish date
    let sorted := [published "1" ⟨20, 0⟩, published "4" ⟨20, 499⟩, published "2" ⟨20, 500⟩,
      published "3" ⟨20, 500⟩]
    GivesRecent s 3 ((sorted.take 3).map shownPost) ∧
    (∃ latest, GivesLatest s (some latest) ∧ GivesRecent s 1 [latest]) ∧
    GivesRecent earlier 2 [shownPost (published "1" ⟨20, 0⟩), shownPost (published "2" ⟨20, 500⟩)] ∧
    ∃ selected members, IsQuery recentQuery selected ∧
      Service.schema.respond recentQuery s = (⟨.object members, []⟩, s) ∧
      ShowsByDate (Service.schema.scope recentQuery selected.operation) s sorted
        (Plan.fieldsOn selected.root selected.plans) members := by
  intro s earlier published sorted
  obtain ⟨byDate, hunique, hrecent, -, -, hlatest, hshows, -⟩ := posts_by_date s
  obtain ⟨order, -, -, -, -, -, -, hclock⟩ := posts_by_date earlier
  have hsorted : s.postsByDate = sorted := by decide +kernel
  obtain rfl : sorted = byDate :=
    hsorted.symm.trans ((hunique _).1 (Store.isByDate_sortByDate s.posts))
  have hordered := (hclock (.empty .epoch) (fourPosts.take 6) rfl (by decide +kernel)).2 2
    (by decide) (by decide)
  have hposts : s.posts ≠ [] := by decide +kernel
  have hsound : s.Sound := Store.IsReachable.sound ⟨.empty .epoch, fourPosts, .empty _, rfl⟩
  have hfinite : ∀ p ∈ s.posts, p.timestamp.isFinite := by decide +kernel
  have hplain : passes recentQuery (isPlain recentQuery) := by decide +kernel
  exact ⟨hrecent 3 (by decide) (by decide), hlatest hposts, hordered,
    (hshows (hsound.readable hfinite)).exists_of_isPlain hplain⟩

end Blog

end Gazette
