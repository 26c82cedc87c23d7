import Gazette.Blog.Record
import Gazette.Schema.Completion

/-!
# Values of the blog's schema

The values that the fields of the blog's objects are resolved on: the root, and the records.  The
parts of a record are the members of its JSON form.
-/

namespace Gazette

/-- The values of the blog: the root, and the records. -/
inductive BlogNode where
  | root
  | author (record : Author)
  | post (record : Post)
  | comment (record : Comment)
  deriving Repr, DecidableEq, Inhabited

namespace BlogNode

/-- The name of the type of authors. -/
def authorType : String := "Author"

/-- The name of the type of posts. -/
def postType : String := "Post"

/-- The name of the type of comments and replies. -/
def commentType : String := "Comment"

/-- The type of a value; the root has no tag. -/
def typeName : BlogNode → Option String
  | root => none
  | author _ => some authorType
  | post _ => some postType
  | comment _ => some commentType

/-- The record of a value as JSON. -/
def record? : BlogNode → Option Json
  | root => none
  | author record => some record.toJson
  | post record => some record.toJson
  | comment record => some record.toJson

instance : Node BlogNode where
  typeName := typeName
  part node name := (node.record?.bind (Json.member? name)).map Json.toValue

/-- The post that a value is, for the fields of posts. -/
def asPost : BlogNode → Except FieldError Post
  | post record => .ok record
  | other => .error (.typeMismatch postType (Registry.tagOf other))

/-- The comment that a value is, for the fields of comments. -/
def asComment : BlogNode → Except FieldError Comment
  | comment record => .ok record
  | other => .error (.typeMismatch commentType (Registry.tagOf other))

end BlogNode

end Gazette
