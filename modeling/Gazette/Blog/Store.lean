import Gazette.Blog.Record
import Gazette.Entries
import Gazette.Time.Clock

/-!
# The store of the blog

The authors and posts of the blog, its fixed comments and replies, and the clock by which new posts
are dated.  Authors are kept under their ids and in the order of these, and posts in the order of
their creation.  Both only grow, by `createAuthor` and `createPost`; a creation that fails changes
nothing (`snd_createPost_of_error`, `snd_createAuthor_of_error`).
-/

namespace Gazette

/-- Why the store refuses an operation, or cannot follow a reference to an author. -/
inductive StoreError where
  | postAlreadyExists (id : String)
  | noSuchAuthor (id : String)
  | authorAlreadyExists (id : String)
  deriving DecidableEq, Repr

namespace StoreError

/-- What a client is told. -/
def message : StoreError → String
  | postAlreadyExists id => "Post already exists: " ++ id
  | noSuchAuthor id => "No such author: " ++ id
  | authorAlreadyExists id => "Author already exists: " ++ id

/-- The code that tells clients the kind of error. -/
def code : StoreError → String
  | postAlreadyExists _ => "POST_ALREADY_EXISTS"
  | noSuchAuthor _ => "NO_SUCH_AUTHOR"
  | authorAlreadyExists _ => "AUTHOR_ALREADY_EXISTS"

end StoreError

/-- The contents of the blog and its clock. -/
structure Store where
  /-- The authors under their ids. -/
  table : Entries Author
  /-- The posts in the order of their creation. -/
  posts : List Post
  /-- The comments on every post. -/
  comments : List Comment
  /-- The replies to every comment. -/
  replies : List Comment
  /-- The clock that new posts are dated by. -/
  clock : Clock
  deriving Repr

namespace Store

/-- A store that holds nothing but a clock. -/
def empty (clock : Clock) : Store := ⟨[], [], [], [], clock⟩

/-- The authors, in the order of the table. -/
def authors (s : Store) : List Author := s.table.map Prod.snd

/-- The author under an id. -/
def author? (s : Store) (id : String) : Option Author := s.table.lookup id

/-- The first post with an id. -/
def post? (s : Store) (id : String) : Option Post := s.posts.find? fun p => p.id = id

/-- The table of some authors, where the last one of an id counts. -/
def tableOf (authors : List Author) : Entries Author :=
  authors.foldl (fun table a => table.putSorted a.id a) []

/-- Publishes a new post, dated by a reading of the clock.  Fails if a post has its id, and then if
there is no such author; the clock is not read then. -/
def createPost (n : NewPost) (s : Store) : Except StoreError Post × Store :=
  if s.posts.any fun p => p.id = n.id then (.error (.postAlreadyExists n.id), s)
  else if (s.author? n.author).isNone then (.error (.noSuchAuthor n.author), s)
  else
    let post := n.publish s.clock.now
    (.ok post, { s with posts := s.posts ++ [post], clock := s.clock.tick })

/-- Registers a new author under its id.  Fails if there is an author under it. -/
def createAuthor (a : Author) (s : Store) : Except StoreError Author × Store :=
  if (s.author? a.id).isSome then (.error (.authorAlreadyExists a.id), s)
  else (.ok a, { s with table := s.table.putSorted a.id a })

theorem snd_createPost_of_error {n : NewPost} {s : Store} {e : StoreError}
    (h : (createPost n s).1 = .error e) : (createPost n s).2 = s := by
  unfold createPost at h ⊢
  split
  · rfl
  · split
    · rfl
    · simp_all

theorem snd_createAuthor_of_error {a : Author} {s : Store} {e : StoreError}
    (h : (createAuthor a s).1 = .error e) : (createAuthor a s).2 = s := by
  unfold createAuthor at h ⊢
  split
  · rfl
  · simp_all

/-- Sets another clock. -/
def setClock (clock : Clock) (s : Store) : Store := { s with clock := clock }

/-- Moves the clock by a span of time. -/
def advanceClock (span : Instant.Span) (s : Store) : Store := s.setClock (s.clock.advance span)

/-- The author that a record refers to by an id. -/
def followAuthor (s : Store) (id : String) : Except StoreError Author :=
  match s.author? id with
  | some a => .ok a
  | none => .error (.noSuchAuthor id)

/-! ## Posts by date -/

/-- Puts a post before the first one of a later date. -/
def insertByDate (p : Post) : List Post → List Post
  | [] => [p]
  | q :: rest => if q.date.before p.date then q :: insertByDate p rest else p :: q :: rest

/-- Posts from the earliest date to the latest; those of one date keep their order. -/
def sortByDate (posts : List Post) : List Post := posts.foldr insertByDate []

/-- The posts of a store by date. -/
def postsByDate (s : Store) : List Post := sortByDate s.posts

end Store

end Gazette
