import Gazette.Blog.Category
import Gazette.Json.Record
import Gazette.Text.Grapheme
import Gazette.Time.Rfc3339

/-!
# Records of the blog

The authors, comments and posts that the blog holds, the input of a new post, and the JSON forms of
all four.  A post without a summary of its own gets the beginning of its content.
-/

namespace Gazette

/-- An author of posts and comments. -/
structure Author where
  id : String
  name : String
  twitterHandle : Option String
  deriving DecidableEq, Repr

/-- A comment; `author` is the id of an author, and `timestamp` counts seconds since the beginning
of 1970. -/
structure Comment where
  id : String
  content : String
  author : String
  timestamp : Option Double
  deriving DecidableEq, Repr

/-- A post of the blog; `author` is the id of an author. -/
structure Post where
  id : String
  author : String
  category : Option Category
  content : String
  date : Instant
  summary : String
  title : String
  deriving DecidableEq, Repr

/-- What a new post is made from; `author` is the id of an author. -/
structure NewPost where
  id : String
  title : String
  content : String
  summary : Option String
  category : Option Category
  author : String
  deriving DecidableEq, Repr

/-! ## New posts -/

/-- How many grapheme clusters of its content a post has as its summary. -/
def NewPost.summaryLength : Nat := 100

/-- The beginning of a content, as a summary. -/
def NewPost.defaultSummary (content : String) : String :=
  String.ofList (Text.Grapheme.leading summaryLength content.toList)

/-- The post published at `date`. -/
def NewPost.publish (n : NewPost) (date : Instant) : Post where
  id := n.id
  author := n.author
  category := n.category
  content := n.content
  date := date
  summary := n.summary.getD (defaultSummary n.content)
  title := n.title

/-- The date of a post as seconds, with a fraction. -/
def Post.timestamp (p : Post) : Double := p.date.timestamp

/-! ## JSON forms -/

/-- A category as JSON, or null. -/
def Category.optionalJson : Option Category → Json
  | some c => c.toJson
  | none => .null

namespace Author

/-- The members of an author in JSON. -/
def memberNames : List String := ["id", "name", "twitterHandle"]

/-- An author as JSON. -/
def toJson (a : Author) : Json :=
  .object [("id", .string a.id), ("name", .string a.name),
    ("twitterHandle", .ofString? a.twitterHandle)]

/-- The author that JSON stands for. -/
def ofJson? (value : Json) : Option Author := do
  match ← value.parts? memberNames with
  | [id, name, twitterHandle] =>
    return ⟨← id.string?, ← name.string?, ← twitterHandle.optional? Json.string?⟩
  | _ => none

end Author

namespace Comment

/-- The members of a comment in JSON. -/
def memberNames : List String := ["id", "content", "author", "timestamp"]

/-- A comment as JSON. -/
def toJson (c : Comment) : Json :=
  .object [("id", .string c.id), ("content", .string c.content), ("author", .string c.author),
    ("timestamp", match c.timestamp with
      | some x => .number (.float x)
      | none => .null)]

/-- The comment that JSON stands for. -/
def ofJson? (value : Json) : Option Comment := do
  match ← value.parts? memberNames with
  | [id, content, author, timestamp] =>
    return ⟨← id.string?, ← content.string?, ← author.string?, ← timestamp.optional? Json.double?⟩
  | _ => none

end Comment

namespace Post

/-- The members of a post in JSON. -/
def memberNames : List String :=
  ["id", "author", "category", "content", "date", "summary", "title"]

/-- A post as JSON, with its date as text. -/
def toJson (p : Post) : Json :=
  .object [("id", .string p.id), ("author", .string p.author),
    ("category", Category.optionalJson p.category), ("content", .string p.content),
    ("date", .string (Rfc3339.text p.date)), ("summary", .string p.summary),
    ("title", .string p.title)]

/-- The post that JSON stands for. -/
def ofJson? (value : Json) : Option Post := do
  match ← value.parts? memberNames with
  | [id, author, category, content, date, summary, title] =>
    return ⟨← id.string?, ← author.string?, ← category.optional? Category.ofJson?,
      ← content.string?, ← Rfc3339.ofText? (← date.string?), ← summary.string?, ← title.string?⟩
  | _ => none

end Post

namespace NewPost

/-- The members of a new post in JSON. -/
def memberNames : List String := ["id", "title", "content", "summary", "category", "author"]

/-- A new post as JSON. -/
def toJson (n : NewPost) : Json :=
  .object [("id", .string n.id), ("title", .string n.title), ("content", .string n.content),
    ("summary", .ofString? n.summary), ("category", Category.optionalJson n.category),
    ("author", .string n.author)]

/-- The new post that JSON stands for. -/
def ofJson? (value : Json) : Option NewPost := do
  match ← value.parts? memberNames with
  | [id, title, content, summary, category, author] =>
    return ⟨← id.string?, ← title.string?, ← content.string?, ← summary.optional? Json.string?,
      ← category.optional? Category.ofJson?, ← author.string?⟩
  | _ => none

end NewPost

end Gazette
