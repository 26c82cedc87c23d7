import Gazette.Blog.Types
import Gazette.Proofs.Blog.History

/-!
# Integrity of the store

A store is reachable if a history leads to it from the empty store or from the one of a new blog.
Every reachable store is sound (`Sound`): its table has each author under that author's own id and
in the order of ids, no two posts share an id, and the author of every post, comment and reply is
registered.  As authors are never removed, what a client has read from a store refers to authors of
all its later states, too (`foreign_keys_resolve`).
-/

namespace Gazette.Store

/-- The stores that a blog starts with. -/
inductive IsInitial : Store → Prop
  | empty (clock : Clock) : IsInitial (Store.empty clock)
  | seeded (ids : Seed.Ids) (clock : Clock) : IsInitial (Seed.store ids clock)

/-- The stores that a history leads to from an initial one. -/
def IsReachable (s : Store) : Prop :=
  ∃ start history, IsInitial start ∧ s = start.after history

/-- The ids that posts, comments and replies refer to. -/
def foreignKeys (s : Store) : List String :=
  s.posts.map Post.author ++ (s.comments ++ s.replies).map Comment.author

/-- What holds of every reachable store. -/
structure Sound (s : Store) : Prop where
  table_ascending : s.table.Ascending
  table_keyed : ∀ e ∈ s.table, e.2.id = e.1
  posts_distinct : s.posts.Pairwise fun p q => p.id ≠ q.id
  keys_registered : ∀ id ∈ s.foreignKeys, (s.author? id).isSome

/-! ## Preservation -/

theorem Sound.apply {s : Store} (h : s.Sound) (e : Event) : (e.apply s).Sound := by
  cases e with
  | clock c => exact ⟨h.table_ascending, h.table_keyed, h.posts_distinct, h.keys_registered⟩
  | call c =>
    rcases c.run_cases s with ⟨e, hr⟩ | ⟨a, -, -, hr⟩ | ⟨n, -, fresh, known, hr⟩
    · rwa [Event.apply, hr]
    · rw [Event.apply, hr]
      refine ⟨h.table_ascending.putSorted, fun e he => ?_, h.posts_distinct, fun id hid => ?_⟩
      · rcases Entries.mem_putSorted he with rfl | he
        · rfl
        · exact h.table_keyed e he
      · exact Entries.isSome_lookup_putSorted.2 (.inl (h.keys_registered id hid))
    · rw [Event.apply, hr]
      refine ⟨h.table_ascending, h.table_keyed, ?_, fun id hid => ?_⟩
      · refine List.pairwise_append.2 ⟨h.posts_distinct, List.pairwise_singleton _ _, ?_⟩
        intro p hp q hq
        obtain rfl := List.mem_singleton.1 hq
        exact fresh p hp
      · simp only [foreignKeys, List.map_append, List.mem_append, List.map_singleton,
          List.mem_singleton] at hid
        rcases hid with (hid | rfl) | hid
        · exact h.keys_registered id (List.mem_append.2 (.inl hid))
        · exact known
        · refine h.keys_registered id (List.mem_append.2 (.inr ?_))
          rwa [List.map_append, List.mem_append]

theorem Sound.after {s : Store} (h : s.Sound) (history : List Event) : (s.after history).Sound := by
  induction history generalizing s with
  | nil => exact h
  | cons e rest ih => exact ih (h.apply e)

theorem map_id_seed_posts (now : Instant) : (Seed.posts now).map Post.id =
    ["0176413761b289e6d64c2c14a758c1c7", "03390abb5570ce03ae524397d215713b",
      "0be4bea0330ccb5ecf781a9f69a64bc8"] := rfl

theorem foreignKeys_seed (ids : Seed.Ids) (clock : Clock) : (Seed.store ids clock).foreignKeys =
    ["seabaylea", "eeckstein", "tkremenek", "tkremenek", "seabaylea", "eeckstein", "eeckstein"] :=
  rfl

theorem IsInitial.sound {s : Store} (h : s.IsInitial) : s.Sound := by
  cases h with
  | empty clock =>
    exact ⟨.nil, by simp [Store.empty], .nil, by simp [foreignKeys, Store.empty]⟩
  | seeded ids clock =>
    refine ⟨?_, ?_, ?_, ?_⟩
    · show (tableOf Seed.authors).Pairwise fun e f => e.1 < f.1
      decide +kernel
    · show ∀ e ∈ tableOf Seed.authors, e.2.id = e.1
      decide +kernel
    · show (Seed.posts clock.now).Pairwise fun p q => p.id ≠ q.id
      rw [← List.pairwise_map (f := Post.id) (R := (· ≠ ·)), map_id_seed_posts]
      decide
    · rw [foreignKeys_seed]
      show ∀ id ∈ _, ((tableOf Seed.authors).lookup id).isSome
      decide +kernel

theorem IsReachable.sound {s : Store} (h : s.IsReachable) : s.Sound := by
  obtain ⟨start, history, initial, rfl⟩ := h
  exact initial.sound.after history

/-! ## Look-ups -/

theorem Sound.authors_sorted {s : Store} (h : s.Sound) :
    s.authors.Pairwise fun a b => a.id < b.id := by
  refine List.pairwise_map.2 (h.table_ascending.imp_of_mem fun he hf hlt => ?_)
  rwa [h.table_keyed _ he, h.table_keyed _ hf]

/-- The table has every author, and none but these, under the author's own id. -/
theorem Sound.mem_table_iff {s : Store} (h : s.Sound) {id : String} {a : Author} :
    (id, a) ∈ s.table ↔ a ∈ s.authors ∧ a.id = id := by
  constructor
  · exact fun hmem => ⟨List.mem_map_of_mem (f := Prod.snd) hmem, h.table_keyed _ hmem⟩
  · rintro ⟨ha, rfl⟩
    obtain ⟨⟨key, b⟩, hmem, rfl⟩ := List.mem_map.1 ha
    rwa [h.table_keyed _ hmem]

theorem Sound.author?_eq_some_iff {s : Store} (h : s.Sound) {id : String} {a : Author} :
    s.author? id = some a ↔ a ∈ s.authors ∧ a.id = id :=
  h.table_ascending.lookup_eq_some_iff.trans h.mem_table_iff

theorem Sound.author?_eq_none_iff {s : Store} (h : s.Sound) {id : String} :
    s.author? id = none ↔ ∀ a ∈ s.authors, a.id ≠ id := by
  rw [Option.eq_none_iff_forall_ne_some]
  simp only [ne_eq, h.author?_eq_some_iff, not_and]

theorem Sound.registered {s : Store} (h : s.Sound) {id : String} (hid : id ∈ s.foreignKeys) :
    ∃ a ∈ s.authors, a.id = id := by
  obtain ⟨a, ha⟩ := Option.isSome_iff_exists.1 (h.keys_registered id hid)
  exact ⟨a, h.author?_eq_some_iff.1 ha⟩

theorem Sound.post?_eq_some_iff {s : Store} (h : s.Sound) {id : String} {p : Post} :
    s.post? id = some p ↔ p ∈ s.posts ∧ p.id = id :=
  find?_eq_some_iff_of_nodup (List.pairwise_map.2 h.posts_distinct)

theorem authorOf_eq {s : Store} {id : String} {a : Author} (h : s.author? id = some a) :
    Blog.authorOf s id = .ok (.node (.author a)) := by
  simp [Blog.authorOf, followAuthor, h]

/-- What the store refers to at some time is registered ever after. -/
theorem Sound.registered_after {s : Store} (h : s.Sound) (later : List Event) {id : String}
    (hid : id ∈ s.foreignKeys) : ∃ a, (s.after later).author? id = some a ∧ a.id = id := by
  obtain ⟨a, ha, rfl⟩ := h.registered hid
  have found : s.Finds (.author a) := h.author?_eq_some_iff.2 ⟨ha, rfl⟩
  exact ⟨a, found.after later, rfl⟩

/-- After every history from an initial store, the table has exactly the authors, each under the
author's own id and strictly in the order of ids.  The ids of posts are distinct, look-ups give
exactly what is there, and everything that the store or an earlier state of it refers to is the id
of a registered author. -/
theorem foreign_keys_resolve {start : Store} (h : start.IsInitial) (earlier later : List Event) :
    let s := start.after (earlier ++ later)
    (∀ id a, (id, a) ∈ s.table ↔ a ∈ s.authors ∧ a.id = id) ∧
      (s.authors.Pairwise fun a b => a.id < b.id) ∧
      (s.posts.Pairwise fun p q => p.id ≠ q.id) ∧
      (∀ id a, s.author? id = some a ↔ a ∈ s.authors ∧ a.id = id) ∧
      (∀ id, s.author? id = none ↔ ∀ a ∈ s.authors, a.id ≠ id) ∧
      (∀ id p, s.post? id = some p ↔ p ∈ s.posts ∧ p.id = id) ∧
      (∀ id, s.post? id = none ↔ ∀ p ∈ s.posts, p.id ≠ id) ∧
      (∀ id ∈ s.foreignKeys, ∃ a ∈ s.authors, a.id = id) ∧
      ∀ id ∈ (start.after earlier).foreignKeys,
        ∃ a, Blog.authorOf s id = .ok (.node (.author a)) ∧ a ∈ s.authors ∧ a.id = id := by
  intro s
  have sound : s.Sound := h.sound.after _
  refine ⟨fun _ _ => sound.mem_table_iff, sound.authors_sorted, sound.posts_distinct,
    fun _ _ => sound.author?_eq_some_iff, fun _ => sound.author?_eq_none_iff,
    fun _ _ => sound.post?_eq_some_iff, fun _ => post?_eq_none_iff, fun _ => sound.registered,
    fun id hid => ?_⟩
  obtain ⟨a, ha, rfl⟩ := (h.sound.after earlier).registered_after later hid
  rw [← after_append] at ha
  exact ⟨a, authorOf_eq ha, sound.author?_eq_some_iff.1 ha⟩

/-- A new blog, a post by an author who is registered on the way, and one by an unknown author. -/
theorem foreign_keys_resolve_new_blog :
    let start := Seed.store (.ofBits 1 2 3 4) .epoch
    let earlier := [Event.call (.author ⟨"a", "A", none⟩), .clock (.still ⟨60, 0⟩),
      .call (.post ⟨"p", "T", "C", none, none, "a"⟩)]
    let later := [Event.call (.post ⟨"q", "T", "C", none, none, "b"⟩)]
    start.IsInitial ∧ "a" ∈ (start.after earlier).foreignKeys ∧
      ∃ a, Blog.authorOf (start.after (earlier ++ later)) "a" = .ok (.node (.author a)) ∧
        a ∈ (start.after (earlier ++ later)).authors ∧ a.id = "a" := by
  intro start earlier later
  have initial : start.IsInitial := .seeded _ _
  have key : "a" ∈ (start.after earlier).foreignKeys := by decide +kernel
  exact ⟨initial, key, (foreign_keys_resolve initial earlier later).2.2.2.2.2.2.2.2 "a" key⟩

end Gazette.Store
