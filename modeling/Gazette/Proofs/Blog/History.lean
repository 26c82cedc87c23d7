import Gazette.Blog.Seed
import Gazette.Proofs.Entries
import Gazette.Proofs.Lists

/-!
# Histories of a store

A history is a sequence of events: whole calls that create an author or a post, from any number of
clients, and settings of the clock between them.  `Store.after` is the store after a history,
`Store.outcomes` lists what the calls give, and `Store.returned` the records among that.

The first creation under an id wins (`outcomes_follow_first_creations`): what a call gives is
decided by the ids that were there at the start and by the calls before it (`AuthorTried`,
`PostTaken`), a call that fails changes nothing, and a record that was returned once is found under
its id ever after.
-/

namespace Gazette.Store

/-- A call that creates a record. -/
inductive Call where
  /-- Creates an author. -/
  | author (a : Author)
  /-- Creates a post. -/
  | post (n : NewPost)

/-- A record that a call returns. -/
inductive Record where
  /-- An author that was created. -/
  | author (a : Author)
  /-- A post that was created. -/
  | post (p : Post)
  deriving DecidableEq, Repr

/-- What a call gives: the record that it created, or why it is refused. -/
abbrev Outcome := Except StoreError Record

/-- What a call gives, and the store after it. -/
def Call.run : Call → Store → Outcome × Store
  | author a, s => ((createAuthor a s).1.map .author, (createAuthor a s).2)
  | post n, s => ((createPost n s).1.map .post, (createPost n s).2)

/-- An event: a whole call, or the setting of another clock. -/
inductive Event where
  /-- A call of some client. -/
  | call (c : Call)
  /-- Another clock. -/
  | clock (c : Clock)

namespace Event

/-- The store after an event. -/
def apply : Event → Store → Store
  | call c, s => (c.run s).2
  | clock c, s => s.setClock c

/-- What an event gives, if it is a call. -/
def outcome? : Event → Store → Option Outcome
  | call c, s => some (c.run s).1
  | clock _, _ => none

end Event

/-- The store after a history. -/
def after (s : Store) (history : List Event) : Store := history.foldl (fun s e => e.apply s) s

/-- What the calls of a history give, in order. -/
def outcomes (s : Store) : List Event → List Outcome
  | [] => []
  | e :: rest => (e.outcome? s).toList ++ outcomes (e.apply s) rest

/-- The records that the calls of a history return, in order. -/
def returned (s : Store) (history : List Event) : List Record :=
  (s.outcomes history).filterMap Except.toOption

/-- The posts among records, in order. -/
def postsOf (records : List Record) : List Post :=
  records.filterMap fun
    | .post p => some p
    | .author _ => none

/-- The clock after a call: it is read once for every post that is created, and by nothing else. -/
def clockAfterCall (clock : Clock) : Outcome → Clock
  | .ok (.post _) => clock.tick
  | _ => clock

/-- The clock after events of which the calls gave `outcomes`. -/
def clockAfter (clock : Clock) : List Event → List Outcome → Clock
  | .clock c :: rest, outcomes => clockAfter c rest outcomes
  | .call _ :: rest, r :: outcomes => clockAfter (clockAfterCall clock r) rest outcomes
  | _, _ => clock

/-- The time that the clock shows at its next reading after a history. -/
def reading (s : Store) (history : List Event) : Instant :=
  (clockAfter s.clock history (s.outcomes history)).now

/-- There was an author under the id at the start, or some call of the history tried to create one
with it, whatever came of that. -/
def AuthorTried (s : Store) (history : List Event) (id : String) : Prop :=
  (s.author? id).isSome ∨ ∃ a, .call (.author a) ∈ history ∧ a.id = id

/-- A post had the id at the start, or some call of the history created one with it. -/
def PostTaken (s : Store) (history : List Event) (id : String) : Prop :=
  (∃ p ∈ s.posts, p.id = id) ∨ ∃ p, .post p ∈ s.returned history ∧ p.id = id

/-- A store finds a record under its id. -/
def Finds (s : Store) : Record → Prop
  | .author a => s.author? a.id = some a
  | .post p => s.post? p.id = some p

/-! ## What a call does -/

theorem post?_eq_none_iff {s : Store} {id : String} :
    s.post? id = none ↔ ∀ p ∈ s.posts, p.id ≠ id := by
  simp [post?, List.find?_eq_none]

/-- The two things that the creation of an author can do. -/
theorem createAuthor_cases (a : Author) (s : Store) :
    ((s.author? a.id).isSome ∧ createAuthor a s = (.error (.authorAlreadyExists a.id), s)) ∨
    (s.author? a.id = none ∧
      createAuthor a s = (.ok a, { s with table := s.table.putSorted a.id a })) := by
  unfold createAuthor
  split
  case isTrue h => exact .inl ⟨h, rfl⟩
  case isFalse h => exact .inr ⟨by simpa using h, rfl⟩

/-- The three things that the creation of a post can do. -/
theorem createPost_cases (n : NewPost) (s : Store) :
    ((∃ p ∈ s.posts, p.id = n.id) ∧ createPost n s = (.error (.postAlreadyExists n.id), s)) ∨
    ((∀ p ∈ s.posts, p.id ≠ n.id) ∧ s.author? n.author = none ∧
      createPost n s = (.error (.noSuchAuthor n.author), s)) ∨
    ((∀ p ∈ s.posts, p.id ≠ n.id) ∧ (s.author? n.author).isSome ∧
      createPost n s = (.ok (n.publish s.clock.now),
        { s with posts := s.posts ++ [n.publish s.clock.now], clock := s.clock.tick })) := by
  unfold createPost
  split
  case isTrue h => exact .inl ⟨by simpa using h, rfl⟩
  case isFalse h =>
    have fresh : ∀ p ∈ s.posts, p.id ≠ n.id := by simpa using h
    split
    case isTrue h => exact .inr (.inl ⟨fresh, by simpa using h, rfl⟩)
    case isFalse h =>
      exact .inr (.inr ⟨fresh, by simpa [Option.isSome_iff_ne_none] using h, rfl⟩)

/-- The three things that a call can do: it is refused, or it adds an author, or it adds a post and
reads the clock. -/
theorem Call.run_cases (c : Call) (s : Store) :
    (∃ e, c.run s = (.error e, s)) ∨
    (∃ a, c = .author a ∧ s.author? a.id = none ∧
      c.run s = (.ok (.author a), { s with table := s.table.putSorted a.id a })) ∨
    (∃ n, c = .post n ∧ (∀ p ∈ s.posts, p.id ≠ n.id) ∧ (s.author? n.author).isSome ∧
      c.run s = (.ok (.post (n.publish s.clock.now)),
        { s with posts := s.posts ++ [n.publish s.clock.now], clock := s.clock.tick })) := by
  cases c with
  | author a =>
    rcases createAuthor_cases a s with ⟨-, h⟩ | ⟨fresh, h⟩
    · exact .inl ⟨_, by rw [run, h]; rfl⟩
    · exact .inr (.inl ⟨a, rfl, fresh, by rw [run, h]; rfl⟩)
  | post n =>
    rcases createPost_cases n s with ⟨-, h⟩ | ⟨-, -, h⟩ | ⟨fresh, known, h⟩
    · exact .inl ⟨_, by rw [run, h]; rfl⟩
    · exact .inl ⟨_, by rw [run, h]; rfl⟩
    · exact .inr (.inr ⟨n, rfl, fresh, known, by rw [run, h]; rfl⟩)

/-! ## Single events -/

theorem author?_isSome_apply (e : Event) (s : Store) (id : String) :
    ((e.apply s).author? id).isSome ↔
      (s.author? id).isSome ∨ ∃ a, e = .call (.author a) ∧ a.id = id := by
  cases e with
  | clock c => simp [Event.apply, setClock, author?]
  | call c =>
    cases c with
    | author a =>
      simp only [Event.call.injEq, Call.author.injEq, exists_eq_left']
      rcases createAuthor_cases a s with ⟨known, h⟩ | ⟨-, h⟩
      · rw [Event.apply, Call.run, h]
        refine ⟨.inl, ?_⟩
        rintro (hid | rfl)
        · exact hid
        · exact known
      · rw [Event.apply, Call.run, h]
        exact Entries.isSome_lookup_putSorted.trans (or_congr_right eq_comm)
    | post n =>
      obtain ⟨-, h⟩ | ⟨-, -, h⟩ | ⟨-, -, h⟩ := createPost_cases n s <;>
        simp [Event.apply, Call.run, h, author?]

theorem posts_apply (e : Event) (s : Store) :
    (e.apply s).posts = s.posts ++ postsOf ((e.outcome? s).toList.filterMap Except.toOption) := by
  cases e with
  | clock c => simp [Event.apply, Event.outcome?, setClock, postsOf]
  | call c =>
    obtain ⟨e, h⟩ | ⟨a, -, -, h⟩ | ⟨n, -, -, -, h⟩ := c.run_cases s <;>
      simp [Event.apply, Event.outcome?, postsOf, Except.toOption, h]

theorem clock_run (c : Call) (s : Store) :
    (c.run s).2.clock = clockAfterCall s.clock (c.run s).1 := by
  obtain ⟨e, h⟩ | ⟨a, -, -, h⟩ | ⟨n, -, -, -, h⟩ := c.run_cases s <;> rw [h] <;> rfl

theorem author?_apply {s : Store} {id : String} {a : Author} (e : Event)
    (h : s.author? id = some a) : (e.apply s).author? id = some a := by
  cases e with
  | clock c => exact h
  | call c =>
    rcases c.run_cases s with ⟨e, hr⟩ | ⟨b, -, fresh, hr⟩ | ⟨n, -, -, -, hr⟩
    · rwa [Event.apply, hr]
    · have hne : id ≠ b.id := by
        rintro rfl
        simp [h] at fresh
      rw [Event.apply, hr, author?, Entries.lookup_putSorted_of_ne hne]
      exact h
    · rw [Event.apply, hr]
      exact h

/-- A record that an event returns is found under its id. -/
theorem finds_of_outcome {s : Store} {e : Event} {r : Record} (h : e.outcome? s = some (.ok r)) :
    (e.apply s).Finds r := by
  cases e with
  | clock t => simp [Event.outcome?] at h
  | call c =>
    simp only [Event.outcome?, Option.some.injEq] at h
    rcases c.run_cases s with ⟨e, hr⟩ | ⟨a, -, fresh, hr⟩ | ⟨n, -, fresh, -, hr⟩
    · simp [hr] at h
    · obtain rfl : .author a = r := by simpa [hr] using h
      rw [Event.apply, hr]
      exact Entries.lookup_putSorted_self a.id a s.table
    · obtain rfl : .post (n.publish s.clock.now) = r := by simpa [hr] using h
      rw [Event.apply, hr]
      have hnone : s.posts.find? (fun p => p.id = n.id) = none := by
        simpa [List.find?_eq_none] using fresh
      change (s.posts ++ [n.publish s.clock.now]).find? (fun p => p.id = n.id) = _
      rw [List.find?_append, hnone, Option.none_or, List.find?_singleton]
      simp [NewPost.publish]

/-! ## Whole histories -/

@[simp]
theorem after_cons (s : Store) (e : Event) (rest : List Event) :
    s.after (e :: rest) = (e.apply s).after rest := rfl

theorem after_append (s : Store) (earlier later : List Event) :
    s.after (earlier ++ later) = (s.after earlier).after later := List.foldl_append

theorem outcomes_append (s : Store) (earlier later : List Event) :
    s.outcomes (earlier ++ later) = s.outcomes earlier ++ (s.after earlier).outcomes later := by
  induction earlier generalizing s with
  | nil => rfl
  | cons e rest ih => simp only [List.cons_append, outcomes, after_cons, ih, List.append_assoc]

theorem mem_returned_cons {s : Store} {e : Event} {rest : List Event} {r : Record} :
    r ∈ s.returned (e :: rest) ↔
      e.outcome? s = some (.ok r) ∨ r ∈ (e.apply s).returned rest := by
  simp only [returned, outcomes, List.filterMap_append, List.mem_append]
  refine or_congr_left ?_
  rcases e.outcome? s with _ | _ | r' <;> simp [Except.toOption, eq_comm]

/-- The clock after a history is told by its events and what its calls gave. -/
theorem clock_after (s : Store) (history : List Event) :
    (s.after history).clock = clockAfter s.clock history (s.outcomes history) := by
  induction history generalizing s with
  | nil => rfl
  | cons e rest ih =>
    rw [after_cons, ih]
    cases e with
    | clock c => rfl
    | call c => rw [Event.apply, clock_run]; rfl

/-- The ids of authors after a history are those that were tried. -/
theorem author?_isSome_after (s : Store) (history : List Event) (id : String) :
    ((s.after history).author? id).isSome ↔ s.AuthorTried history id := by
  unfold AuthorTried
  induction history generalizing s with
  | nil => simp [after]
  | cons e rest ih =>
    rw [after_cons, ih, author?_isSome_apply, or_assoc]
    refine or_congr_right ?_
    simp only [List.mem_cons]
    aesop

theorem posts_after (s : Store) (history : List Event) :
    (s.after history).posts = s.posts ++ postsOf (s.returned history) := by
  induction history generalizing s with
  | nil => simp [after, returned, outcomes, postsOf]
  | cons e rest ih =>
    rw [after_cons, ih, posts_apply, List.append_assoc]
    simp only [returned, outcomes, postsOf, List.filterMap_append]

theorem mem_postsOf {records : List Record} {p : Post} :
    p ∈ postsOf records ↔ .post p ∈ records := by
  simp only [postsOf, List.mem_filterMap]
  constructor
  · rintro ⟨r, hr, h⟩
    cases r with
    | author a => simp at h
    | post q =>
      obtain rfl : q = p := by simpa using h
      exact hr
  · intro h
    exact ⟨_, h, rfl⟩

/-- The ids of posts after a history are those that were taken. -/
theorem postIds_after (s : Store) (history : List Event) (id : String) :
    (∃ p ∈ (s.after history).posts, p.id = id) ↔ s.PostTaken history id := by
  simp only [posts_after, List.mem_append, mem_postsOf, PostTaken, or_and_right, exists_or]

theorem author?_after {s : Store} {id : String} {a : Author} (h : s.author? id = some a)
    (history : List Event) : (s.after history).author? id = some a := by
  induction history generalizing s with
  | nil => exact h
  | cons e rest ih => exact ih (author?_apply e h)

theorem post?_after {s : Store} {id : String} {p : Post} (h : s.post? id = some p)
    (history : List Event) : (s.after history).post? id = some p := by
  rw [post?] at h
  rw [post?, posts_after, List.find?_append, h, Option.some_or]

theorem Finds.after {s : Store} {r : Record} (history : List Event) (h : s.Finds r) :
    (s.after history).Finds r := by
  cases r with
  | author a => exact author?_after h history
  | post p => exact post?_after h history

/-- A record that was returned once is found under its id at the end. -/
theorem finds_of_mem_returned {s : Store} {history : List Event} {r : Record}
    (h : r ∈ s.returned history) : (s.after history).Finds r := by
  induction history generalizing s with
  | nil => simp [returned, outcomes] at h
  | cons e rest ih =>
    rw [mem_returned_cons] at h
    rcases h with h | h
    · exact (finds_of_outcome h).after rest
    · exact ih h

/-! ## The first creation wins -/

/-- What a call that comes after a history gives, told by the start and the history alone. -/
def FirstWins (s : Store) (earlier : List Event) : Call → Outcome → Prop
  | .author a, r =>
    (r = .ok (.author a) ↔ ¬ s.AuthorTried earlier a.id) ∧
      (r = .error (.authorAlreadyExists a.id) ↔ s.AuthorTried earlier a.id)
  | .post n, r =>
    (r = .error (.postAlreadyExists n.id) ↔ s.PostTaken earlier n.id) ∧
      (r = .error (.noSuchAuthor n.author) ↔
        ¬ s.PostTaken earlier n.id ∧ ¬ s.AuthorTried earlier n.author) ∧
      (r = .ok (.post (n.publish (s.reading earlier))) ↔
        ¬ s.PostTaken earlier n.id ∧ s.AuthorTried earlier n.author)

theorem firstWins_run (s : Store) (earlier : List Event) (c : Call) :
    s.FirstWins earlier c (c.run (s.after earlier)).1 := by
  cases c with
  | author a =>
    simp only [FirstWins, ← author?_isSome_after]
    rcases createAuthor_cases a (s.after earlier) with ⟨known, h⟩ | ⟨fresh, h⟩
    · simp [Call.run, h, Except.map, known]
    · simp [Call.run, h, Except.map, fresh]
  | post n =>
    simp only [FirstWins, reading, ← author?_isSome_after, ← postIds_after, ← clock_after]
    obtain ⟨taken, h⟩ | ⟨fresh, unknown, h⟩ | ⟨fresh, known, h⟩ :=
      createPost_cases n (s.after earlier)
    · simp [Call.run, h, Except.map, taken]
    · have fresh' : ¬ ∃ p ∈ (s.after earlier).posts, p.id = n.id := by simpa using fresh
      simp [Call.run, h, Except.map, fresh', unknown]
    · have fresh' : ¬ ∃ p ∈ (s.after earlier).posts, p.id = n.id := by simpa using fresh
      simp [Call.run, h, Except.map, fresh', known]

theorem run_eq_of_error {c : Call} {s : Store} {e : StoreError} (h : (c.run s).1 = .error e) :
    (c.run s).2 = s := by
  cases c with
  | author a => exact snd_createAuthor_of_error (map_eq_error_iff.1 h)
  | post n => exact snd_createPost_of_error (map_eq_error_iff.1 h)

/-- In every history, each call gives what the start and the calls before it decide, and changes
nothing if it fails.  At the end the posts are those of the start and then the returned ones in
order, and every record that was returned is found under its id. -/
theorem outcomes_follow_first_creations (s : Store) (history : List Event) :
    (∀ earlier c later, history = earlier ++ .call c :: later →
      ∃ r, s.outcomes history =
          s.outcomes earlier ++ r :: (s.after (earlier ++ [.call c])).outcomes later ∧
        s.FirstWins earlier c r ∧
        ∀ e, r = .error e → s.after (earlier ++ [.call c]) = s.after earlier) ∧
      (s.after history).posts = s.posts ++ postsOf (s.returned history) ∧
      (∀ a, .author a ∈ s.returned history → (s.after history).author? a.id = some a) ∧
      ∀ p, .post p ∈ s.returned history → (s.after history).post? p.id = some p := by
  refine ⟨?_, posts_after s history, fun a h => finds_of_mem_returned h,
    fun p h => finds_of_mem_returned h⟩
  rintro earlier c later rfl
  have hafter : s.after (earlier ++ [.call c]) = (c.run (s.after earlier)).2 := by
    rw [after_append]; rfl
  refine ⟨(c.run (s.after earlier)).1, ?_, firstWins_run s earlier c, fun e he => ?_⟩
  · rw [outcomes_append, hafter]
    rfl
  · rw [hafter]
    exact run_eq_of_error he

/-- A post for an author who is not there yet, the author, the post once more, and an author of the
same id. -/
theorem outcomes_follow_first_creations_retried :
    let s := Store.empty .epoch
    let ada : Author := ⟨"a", "Ada", none⟩
    let draft : NewPost := ⟨"p", "T", "C", none, none, "a"⟩
    let earlier := [Event.call (.post draft), .call (.author ada), .clock (.still ⟨60, 0⟩),
      .call (.post draft)]
    let late := Call.author ⟨"a", "Alan", none⟩
    let history := earlier ++ [.call late]
    s.AuthorTried earlier "a" ∧
      s.outcomes history = s.outcomes earlier ++ [.error (.authorAlreadyExists "a")] ∧
      s.after history = s.after earlier ∧
      .post (draft.publish ⟨60, 0⟩) ∈ s.returned history ∧
      (s.after history).post? "p" = some (draft.publish ⟨60, 0⟩) := by
  intro s ada draft earlier late history
  have tried : s.AuthorTried earlier "a" := .inr ⟨ada, by simp [earlier], rfl⟩
  have created : .post (draft.publish ⟨60, 0⟩) ∈ s.returned history := by decide +kernel
  obtain ⟨hcalls, -, -, hposts⟩ := outcomes_follow_first_creations s history
  obtain ⟨r, houtcomes, hwins, hsame⟩ := hcalls earlier late [] rfl
  have refused : r = .error (.authorAlreadyExists "a") := hwins.2.2 tried
  refine ⟨tried, ?_, hsame _ refused, created, hposts _ created⟩
  rw [houtcomes, refused]
  rfl

end Gazette.Store
