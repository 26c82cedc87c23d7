import Gazette.Proofs.Blog.Integrity
import Mathlib.Data.List.Nodup

/-!
# Creations that commute

A call changes a store by what it gives (`Store.add`), and what it gives depends on little of the
store: whether there are records of the ids that it names, and what the clock shows
(`Call.LikeFor`).  So two calls at one time give the same in either order and leave the same
records, unless they conflict (`Call.Conflicts`): they create records of one kind under one id, or
one of them registers the author of the other one's post (`independent_creations_commute`).  Of two
posts each is dated by a reading of its own, so that the clock has to show the same to both
(`Call.SameTime`).
-/

namespace Gazette.Store

/-! ## What a call adds -/

/-- A store with the record that a call gives, if it gives one; for a post the clock was read. -/
def add (s : Store) : Outcome → Store
  | .ok (.author a) => { s with table := s.table.putSorted a.id a }
  | .ok (.post p) => { s with posts := s.posts ++ [p], clock := s.clock.tick }
  | .error _ => s

theorem snd_run (c : Call) (s : Store) : (c.run s).2 = s.add (c.run s).1 := by
  rcases c.run_cases s with ⟨e, hr⟩ | ⟨a, -, -, hr⟩ | ⟨n, -, -, -, hr⟩ <;> rw [hr] <;> rfl

/-- Whether a call finds two stores alike: in the ids that it names, and in the time if it dates a
record. -/
def Call.LikeFor (s s' : Store) : Call → Prop
  | .author a => (s'.author? a.id).isSome = (s.author? a.id).isSome
  | .post n => (s'.posts.any fun p => p.id = n.id) = (s.posts.any fun p => p.id = n.id) ∧
      (s'.author? n.author).isSome = (s.author? n.author).isSome ∧ s'.clock.now = s.clock.now

theorem Call.LikeFor.fst_run_eq {c : Call} {s s' : Store} (h : c.LikeFor s s') :
    (c.run s').1 = (c.run s).1 := by
  cases c with
  | author a =>
    have hauthor : (s'.author? a.id).isSome = (s.author? a.id).isSome := h
    simp only [run, createAuthor, hauthor]
    split <;> rfl
  | post n =>
    obtain ⟨hposts, hauthor, hnow⟩ := h
    simp only [run, createPost, hposts, hnow, Option.isNone_iff_eq_none,
      ← Option.not_isSome_iff_eq_none, hauthor]
    split
    · rfl
    · split <;> rfl

/-! ## Conflicts -/

/-- Whether two calls are in each other's way: they create records of one kind under one id, or one
creates the author of the other one's post, who is not there yet. -/
def Call.Conflicts (s : Store) : Call → Call → Prop
  | .author a, .author b => a.id = b.id
  | .post n, .post m => n.id = m.id
  | .author a, .post n => s.author? a.id = none ∧ n.author = a.id
  | .post n, .author a => s.author? a.id = none ∧ n.author = a.id

theorem Call.Conflicts.symm {s : Store} {x y : Call} (h : x.Conflicts s y) : y.Conflicts s x := by
  cases x <;> cases y
  · exact Eq.symm h
  · exact h
  · exact h
  · exact Eq.symm h

/-- Whether the clock shows one time to two calls, as far as both of them date a record. -/
def Call.SameTime (s : Store) : Call → Call → Prop
  | .post _, .post _ => s.clock.tick.now = s.clock.now
  | .author _, _ | .post _, .author _ => True

theorem Call.SameTime.symm {s : Store} {x y : Call} (h : x.SameTime s y) : y.SameTime s x := by
  cases x <;> cases y
  · trivial
  · trivial
  · trivial
  · exact h

theorem author?_add_of_ne {s : Store} {id : String} {r : Outcome}
    (h : ∀ a, r = .ok (.author a) → a.id ≠ id) : (s.add r).author? id = s.author? id := by
  match r with
  | .error e => rfl
  | .ok (.post p) => rfl
  | .ok (.author a) => exact Entries.lookup_putSorted_of_ne (h a rfl).symm a s.table

/-- A call adds no author but the one that it names, and that one only if there is none yet. -/
theorem author_of_run {c : Call} {s : Store} {a : Author} (h : (c.run s).1 = .ok (.author a)) :
    c = .author a ∧ s.author? a.id = none := by
  rcases c.run_cases s with ⟨e, hr⟩ | ⟨b, rfl, fresh, hr⟩ | ⟨n, -, -, -, hr⟩
  · rw [hr] at h
    cases h
  · rw [hr] at h
    cases h
    exact ⟨rfl, fresh⟩
  · rw [hr] at h
    cases h

theorem post_of_run {c : Call} {s : Store} {p : Post} (h : (c.run s).1 = .ok (.post p)) :
    ∃ n, c = .post n ∧ p.id = n.id := by
  rcases c.run_cases s with ⟨e, hr⟩ | ⟨a, -, -, hr⟩ | ⟨n, rfl, -, -, hr⟩
  · rw [hr] at h
    cases h
  · rw [hr] at h
    cases h
  · rw [hr] at h
    cases h
    exact ⟨n, rfl, rfl⟩

/-- The time that a post is dated by does not depend on a call before it. -/
theorem now_run {s : Store} {x : Call} {m : NewPost} (h : x.SameTime s (.post m)) :
    (x.run s).2.clock.now = s.clock.now := by
  rcases x.run_cases s with ⟨e, hr⟩ | ⟨a, -, -, hr⟩ | ⟨n, rfl, -, -, hr⟩
  · rw [hr]
  · rw [hr]
  · rw [hr]
    exact h

/-- After a call, a store is as before for every call that does not conflict with it, if the clock
shows one time to both. -/
theorem likeFor_run {s : Store} {x y : Call} (h : ¬ x.Conflicts s y) (htime : x.SameTime s y) :
    y.LikeFor s (x.run s).2 := by
  rw [snd_run]
  -- whose id is not that of an author whom the first call adds
  have hauthor {id : String} (hid : ∀ a, x = .author a → s.author? a.id = none → a.id ≠ id) :
      (s.add (x.run s).1).author? id = s.author? id :=
    author?_add_of_ne fun a ha => hid a (author_of_run ha).1 (author_of_run ha).2
  cases y with
  | author b =>
    refine congrArg Option.isSome (hauthor fun a hx _ => ?_)
    rw [hx] at h
    exact h
  | post m =>
    refine ⟨?_, congrArg Option.isSome (hauthor fun a hx hnone hid => ?_),
      snd_run x s ▸ now_run htime⟩
    · match hr : (x.run s).1 with
      | .error e => rfl
      | .ok (.author a) => rfl
      | .ok (.post p) =>
        obtain ⟨n, rfl, hid⟩ := post_of_run hr
        have hne : p.id ≠ m.id := hid ▸ h
        simp [add, hne]
    · rw [hx] at h
      exact h ⟨hnone, hid.symm⟩

/-! ## The order of additions -/

/-- What two outcomes leave in either order: the same store, or the two posts that they give, in
the order of the calls, and the clock after two readings. -/
def SameButPosts (s : Store) (rx ry : Outcome) (xy yx : Store) : Prop :=
  yx = xy ∨ ∃ p q, rx = .ok (.post p) ∧ ry = .ok (.post q) ∧ p.id ≠ q.id ∧
    xy = { s with posts := s.posts ++ [p, q], clock := s.clock.tick.tick } ∧
    yx = { s with posts := s.posts ++ [q, p], clock := s.clock.tick.tick }

section

variable {s xy yx : Store} {rx ry : Outcome}

theorem SameButPosts.table_eq (h : s.SameButPosts rx ry xy yx) : yx.table = xy.table := by
  rcases h with rfl | ⟨p, q, -, -, -, rfl, rfl⟩ <;> rfl

theorem SameButPosts.posts_perm (h : s.SameButPosts rx ry xy yx) : yx.posts.Perm xy.posts := by
  rcases h with rfl | ⟨p, q, -, -, -, rfl, rfl⟩
  · exact .refl _
  · exact (List.Perm.swap p q []).append_left s.posts

theorem SameButPosts.author?_eq (h : s.SameButPosts rx ry xy yx) (id : String) :
    yx.author? id = xy.author? id := by
  rw [author?, author?, h.table_eq]

theorem SameButPosts.post?_eq (h : s.SameButPosts rx ry xy yx) (id : String) :
    yx.post? id = xy.post? id := by
  rcases h with rfl | ⟨p, q, -, -, hne, rfl, rfl⟩
  · rfl
  · simp only [post?, List.find?_append]
    congr 1
    by_cases hp : p.id = id
    · have hq : q.id ≠ id := fun hq => hne (hp.trans hq.symm)
      simp [hp, hq]
    · simp [List.find?_cons, hp]

end

theorem sameButPosts_add {s : Store} {x y : Call} (h : ¬ x.Conflicts s y) :
    s.SameButPosts (x.run s).1 (y.run s).1 ((s.add (x.run s).1).add (y.run s).1)
      ((s.add (y.run s).1).add (x.run s).1) := by
  match hx : (x.run s).1, hy : (y.run s).1 with
  | .error _, _ => exact .inl rfl
  | .ok _, .error _ => exact .inl rfl
  | .ok (.author _), .ok (.post _) => exact .inl rfl
  | .ok (.post _), .ok (.author _) => exact .inl rfl
  | .ok (.author a), .ok (.author b) =>
    obtain ⟨rfl, -⟩ := author_of_run hx
    obtain ⟨rfl, -⟩ := author_of_run hy
    exact .inl (by simp only [add, Entries.putSorted_comm h])
  | .ok (.post p), .ok (.post q) =>
    obtain ⟨n, rfl, hp⟩ := post_of_run hx
    obtain ⟨m, rfl, hq⟩ := post_of_run hy
    have hne : p.id ≠ q.id := by
      rw [hp, hq]
      exact h
    exact .inr ⟨p, q, rfl, rfl, hne, by simp [add], by simp [add]⟩

/-! ## Two calls in either order -/

section

variable {s : Store} {x y : Call} (h : ¬ x.Conflicts s y) (htime : x.SameTime s y)
include h htime

/-- A call gives and adds what it would without another one before it. -/
theorem run_after : y.run (x.run s).2 = ((y.run s).1, (s.add (x.run s).1).add (y.run s).1) := by
  have hsame : (y.run (x.run s).2).1 = (y.run s).1 := (likeFor_run h htime).fst_run_eq
  refine Prod.ext hsame ?_
  rw [snd_run, hsame, snd_run]

theorem outcomes_pair : s.outcomes [.call x, .call y] = [(x.run s).1, (y.run s).1] := by
  rw [← (likeFor_run h htime).fst_run_eq]
  rfl

theorem sameButPosts_run :
    s.SameButPosts (x.run s).1 (y.run s).1 (y.run (x.run s).2).2 (x.run (y.run s).2).2 := by
  rw [run_after h htime, run_after (fun h' => h h'.symm) htime.symm]
  exact sameButPosts_add h

end

/-! ## Many authors -/

/-- The creation of an author, as an event. -/
def creation (a : Author) : Event := .call (.author a)

/-- Creations of authors of different ids give what each of them would alone. -/
theorem outcomes_creations {s : Store} {l : List Author} (h : (l.map Author.id).Nodup) :
    s.outcomes (l.map creation) = l.map fun a => ((Call.author a).run s).1 := by
  induction l generalizing s with
  | nil => rfl
  | cons a rest ih =>
    obtain ⟨ha, hrest⟩ := List.nodup_cons.1 h
    have hsame : ∀ b ∈ rest, ((Call.author b).run ((Call.author a).run s).2).1 =
        ((Call.author b).run s).1 := by
      intro b hb
      have hne : a.id ≠ b.id := fun heq => ha (heq ▸ List.mem_map_of_mem hb)
      exact (likeFor_run (x := .author a) (y := .author b) hne trivial).fst_run_eq
    rw [List.map_cons, List.map_cons, ← List.map_congr_left hsame]
    exact congrArg _ (ih hrest)

theorem after_creations_of_perm {s : Store} {l l' : List Author} (hperm : l.Perm l')
    (h : (l.map Author.id).Nodup) : s.after (l.map creation) = s.after (l'.map creation) := by
  rw [after, after, List.foldl_map, List.foldl_map]
  refine hperm.foldl_eq' (fun a ha b hb s => ?_) s
  by_cases heq : a = b
  · rw [heq]
  · have hne : a.id ≠ b.id := fun hid => heq (List.inj_on_of_nodup_map h ha hb hid)
    rcases sameButPosts_run (s := s) (x := .author a) (y := .author b) hne trivial with
      hsame | ⟨p, q, hp, -⟩
    · exact hsame.symm
    · cases (post_of_run hp).choose_spec.1

/-! ## Creations commute -/

/-- Two calls that do not conflict give the same in either order and leave the same records, but for
the order of two new posts, to both of which the clock has to show one time.  Any number of authors of different
ids can be created in any order: each creation gives the same, and the same store is left. -/
theorem independent_creations_commute (s : Store) :
    (∀ x y : Call, ¬ x.Conflicts s y → x.SameTime s y →
      let xy := s.after [.call x, .call y]
      let yx := s.after [.call y, .call x]
      ∃ rx ry, s.outcomes [.call x, .call y] = [rx, ry] ∧
        s.outcomes [.call y, .call x] = [ry, rx] ∧ s.SameButPosts rx ry xy yx ∧
        yx.table = xy.table ∧ yx.posts.Perm xy.posts ∧
        ∀ id, yx.author? id = xy.author? id ∧ yx.post? id = xy.post? id) ∧
      ∀ l l' : List Author, l.Perm l' → (l.map Author.id).Nodup →
        ∃ outcome : Author → Outcome, s.outcomes (l.map creation) = l.map outcome ∧
          s.outcomes (l'.map creation) = l'.map outcome ∧
          s.after (l.map creation) = s.after (l'.map creation) := by
  refine ⟨fun x y h htime => ?_, fun l l' hperm h => ?_⟩
  · have hsame := sameButPosts_run h htime
    exact ⟨_, _, outcomes_pair h htime, outcomes_pair (fun h' => h h'.symm) htime.symm, hsame,
      hsame.table_eq, hsame.posts_perm, fun id => ⟨hsame.author?_eq id, hsame.post?_eq id⟩⟩
  · have h' : (l'.map Author.id).Nodup := (hperm.map Author.id).nodup_iff.1 h
    exact ⟨_, outcomes_creations h, outcomes_creations h', after_creations_of_perm hperm h⟩

/-- Two posts of a new blog, one of which fails as its author is not there, at a time that the clock
shows twice before it goes on; and three authors of whom one is there already. -/
theorem independent_creations_commute_new_blog :
    let s := Seed.store (.ofBits 1 2 3 4) ⟨.epoch, [⟨60, 0⟩, ⟨60, 0⟩, ⟨90, 0⟩]⟩
    let x := Call.post ⟨"p", "T", "C", none, none, "seabaylea"⟩
    let y := Call.post ⟨"q", "T", "C", none, none, "nobody"⟩
    let l : List Author := [⟨"b", "B", none⟩, ⟨"seabaylea", "S", none⟩, ⟨"a", "A", none⟩]
    (¬ x.Conflicts s y ∧ x.SameTime s y ∧ s.outcomes [.call y, .call x] =
        [.error (.noSuchAuthor "nobody"),
          .ok (.post ⟨"p", "seabaylea", none, "C", ⟨60, 0⟩, "C", "T"⟩)] ∧
      (s.after [.call y, .call x]).table = (s.after [.call x, .call y]).table) ∧
    l.Perm l.reverse ∧ (l.map Author.id).Nodup ∧
      s.after (l.map creation) = s.after (l.reverse.map creation) := by
  intro s x y l
  have hconflicts : ¬ x.Conflicts s y := by
    show "p" ≠ "q"
    decide
  have hperm : l.Perm l.reverse := l.reverse_perm.symm
  have hnodup : (l.map Author.id).Nodup := by decide
  obtain ⟨hpairs, hlists⟩ := independent_creations_commute s
  obtain ⟨rx, ry, hxy, hyx, -, htable, -⟩ := hpairs x y hconflicts rfl
  obtain ⟨-, -, -, hafter⟩ := hlists l l.reverse hperm hnodup
  exact ⟨⟨hconflicts, rfl, by decide +kernel, htable⟩, hperm, hnodup, hafter⟩

end Gazette.Store
