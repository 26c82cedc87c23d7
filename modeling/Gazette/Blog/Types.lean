import Gazette.Blog.Node

/-!
# The types of the blog's schema

The enum of categories, the objects for authors, comments and posts, and the two roots: `BlogSchema`
for queries and `BlogMutations` for the creation of posts and authors.  Resolvers read the store,
and those of the creations change it.
-/

namespace Gazette.Blog

/-- A field of an object of the blog. -/
abbrev BlogField := Field Store BlogNode

/-- The name of the enum of categories. -/
def categoryType : String := "Category"

/-- The name of the interface of whatever has an author. -/
def hasAuthorType : String := "HasAuthor"

/-- The name of the query root. -/
def queryType : String := "BlogSchema"

/-- The name of the mutation root. -/
def mutationType : String := "BlogMutations"

/-- The type of texts that are never null. -/
def requiredString : TypeRef := .namedNonNull builtin.string

/-- The type of integers that are never null. -/
def requiredInt : TypeRef := .namedNonNull builtin.int

/-- A resolver that reads the store and leaves it as it is. -/
def reading (read : BlogNode → BoundArguments → Store → Except FieldError (FieldValue BlogNode)) :
    Resolver Store BlogNode :=
  fun parent arguments store => (read parent arguments store, store)

/-- The author that an id refers to, as the result of a field. -/
def authorOf (store : Store) (id : String) : Except FieldError (FieldValue BlogNode) :=
  match store.followAuthor id with
  | .ok a => .ok (.node (.author a))
  | .error e => .error (.store e)

/-- The category that an argument names, if it names anything. -/
def categoryArgument (arguments : BoundArguments) (name : String) :
    Except FieldError (Option Category) :=
  match arguments.enumName name with
  | none => .ok none
  | some value =>
    match Category.ofName? value with
    | some c => .ok (some c)
    | none => .error (.invalidEnumValue categoryType value)

/-! ## Categories, authors, comments and posts -/

/-- The enum of categories. -/
def category : EnumType where
  name := categoryType
  description := some "A Category of the blog"
  values := Category.all.map Category.name

/-- The type of authors. -/
def author : ObjectType Store BlogNode where
  name := BlogNode.authorType
  description := some "Represent the type of an author of a blog post or a comment"
  fields := [
    { name := "id", type := requiredString },
    { name := "name", type := requiredString },
    { name := "twitterHandle", type := .named builtin.string }]

/-- The interface of posts and comments. -/
def hasAuthor : InterfaceType where
  name := hasAuthorType
  description := some "This type has an author"
  fields := [{ name := "author", type := .namedNonNull BlogNode.authorType }]

/-- The author of a comment. -/
def commentAuthor : BlogField where
  name := "author"
  type := .namedNonNull BlogNode.authorType
  resolver := some <| reading fun parent _ store => do
    authorOf store (← parent.asComment).author

/-- The replies of a comment: all replies of the store. -/
def commentReplies : BlogField where
  name := "replies"
  type := .nonNullListNonNull BlogNode.commentType
  description := some "Replies for the comment"
  resolver := some <| reading fun _ _ store => return .nodes (store.replies.map .comment)

/-- The type of comments and replies. -/
def comment : ObjectType Store BlogNode where
  name := BlogNode.commentType
  description := some "Represent the type of a comment"
  implements := [hasAuthorType]
  fields := [
    { name := "id", type := requiredString },
    { name := "content", type := requiredString },
    commentAuthor,
    { name := "timestamp", type := .named builtin.float },
    commentReplies]

/-- The date of a post as seconds since the beginning of 1970. -/
def postTimestamp : BlogField where
  name := "timestamp"
  type := .namedNonNull builtin.float
  resolver := some <| reading fun parent _ _ => do
    return .float (← parent.asPost).timestamp

/-- The comments on a post: the first ones up to a limit, or all if the limit is negative. -/
def postComments : BlogField where
  name := "comments"
  type := .nonNullListNonNull BlogNode.commentType
  arguments := [{
    name := "limit"
    type := requiredInt
    description := some "Limit the comments returing" }]
  resolver := some <| reading fun _ arguments store => do
    let limit ← arguments.int "limit"
    let comments := if limit < 0 then store.comments else store.comments.take limit.toNat
    return .nodes (comments.map .comment)

/-- The author of a post. -/
def postAuthor : BlogField where
  name := "author"
  type := .namedNonNull BlogNode.authorType
  resolver := some <| reading fun parent _ store => do
    authorOf store (← parent.asPost).author

/-- The type of posts. -/
def post : ObjectType Store BlogNode where
  name := BlogNode.postType
  description := some "Represent the type of a blog post"
  implements := [hasAuthorType]
  fields := [
    { name := "id", type := requiredString },
    { name := "title", type := requiredString },
    { name := "category", type := .named categoryType },
    { name := "summary", type := requiredString },
    { name := "content", type := requiredString },
    postTimestamp,
    postComments,
    postAuthor]

/-! ## The query root -/

/-- The posts, or those of one category. -/
def posts : BlogField where
  name := "posts"
  type := .nonNullListNonNull BlogNode.postType
  description := some "List of posts in the blog"
  arguments := [{ name := "category", type := .named categoryType }]
  resolver := some <| reading fun _ arguments store => do
    let posts ← match ← categoryArgument arguments "category" with
      | some c => pure (store.posts.filter fun p => p.category = some c)
      | none => pure store.posts
    return .nodes (posts.map .post)

/-- The first of the posts by date. -/
def latestPost : BlogField where
  name := "latestPost"
  type := .named BlogNode.postType
  description := some "Latest post in the blog"
  resolver := some <| reading fun _ _ store =>
    return .optionalNode (store.postsByDate.head?.map .post)

/-- The first of the posts by date, as many as are asked for. -/
def recentPosts : BlogField where
  name := "recentPosts"
  type := .nonNullListNonNull BlogNode.postType
  description := some "Recent posts in the blog"
  arguments := [{
    name := "count"
    type := requiredInt
    description := some "Number of recent items" }]
  resolver := some <| reading fun _ arguments store => do
    let count ← arguments.int "count"
    return .nodes ((store.postsByDate.take count.toNat).map .post)

/-- The post with an id, or null. -/
def postById : BlogField where
  name := "post"
  type := .named BlogNode.postType
  description := some "Post by id"
  arguments := [{ name := "id", type := requiredString }]
  resolver := some <| reading fun _ arguments store => do
    return .optionalNode ((store.post? (← arguments.string "id")).map .post)

/-- All authors, in the order of their ids. -/
def authors : BlogField where
  name := "authors"
  type := .nonNullListNonNull BlogNode.authorType
  description := some "Available authors in the blog"
  resolver := some <| reading fun _ _ store => return .nodes (store.authors.map .author)

/-- The author with an id, or null. -/
def authorById : BlogField where
  name := "author"
  type := .named BlogNode.authorType
  description := some "Author by id"
  arguments := [{ name := "id", type := requiredString }]
  resolver := some <| reading fun _ arguments store => do
    return .optionalNode ((store.author? (← arguments.string "id")).map .author)

/-- What an author has written: posts, then comments, then replies. -/
def contributions : BlogField where
  name := "contributions"
  type := .nonNullListNonNull hasAuthorType
  description := some "Posts and comments written by an author"
  arguments := [{
    name := "author"
    type := requiredString
    description := some "Id of the author" }]
  resolver := some <| reading fun _ arguments store => do
    let id ← arguments.string "author"
    let posts := store.posts.filter fun p => p.author = id
    let comments := (store.comments ++ store.replies).filter fun c => c.author = id
    return .nodes (posts.map .post ++ comments.map .comment)

/-- The query root. -/
def queryRoot : ObjectType Store BlogNode where
  name := queryType
  description := some "Root of the Blog Schema"
  fields := [posts, latestPost, recentPosts, postById, authors, authorById, contributions]

/-! ## The mutation root -/

/-- The new post that the arguments of a creation describe. -/
def newPostOf (arguments : BoundArguments) : Except FieldError NewPost := do
  let id ← arguments.string "id"
  let title ← arguments.string "title"
  let content ← arguments.string "content"
  let category ← categoryArgument arguments "category"
  let author ← arguments.string "author"
  return ⟨id, title, content, arguments.optionalString "summary", category, author⟩

/-- The author that the arguments of a creation describe. -/
def newAuthorOf (arguments : BoundArguments) : Except FieldError Author := do
  let id ← arguments.string "id"
  let name ← arguments.string "name"
  return ⟨id, name, arguments.optionalString "twitterHandle"⟩

/-- A resolver that reads a record from the arguments and puts it into the store. -/
def creating {α β : Type} (read : BoundArguments → Except FieldError α)
    (create : α → Store → Except StoreError β × Store) (node : β → BlogNode) :
    Resolver Store BlogNode :=
  fun _ arguments store =>
    match read arguments with
    | .error e => (.error e, store)
    | .ok input =>
      match create input store with
      | (.ok record, store) => (.ok (.node (node record)), store)
      | (.error e, store) => (.error (.store e), store)

/-- The creation of a post. -/
def createPost : BlogField where
  name := "createPost"
  type := .namedNonNull BlogNode.postType
  description := some "Create a new blog post"
  arguments := [
    { name := "id", type := requiredString },
    { name := "title", type := requiredString },
    { name := "content", type := requiredString },
    { name := "summary", type := .named builtin.string },
    { name := "category", type := .named categoryType },
    { name := "author", type := requiredString, description := some "Id of the author" }]
  resolver := some (creating newPostOf Store.createPost .post)

/-- The creation of an author. -/
def createAuthor : BlogField where
  name := "createAuthor"
  type := .namedNonNull BlogNode.authorType
  description := some "Create a new author"
  arguments := [
    { name := "id", type := requiredString },
    { name := "name", type := requiredString },
    { name := "twitterHandle", type := .named builtin.string }]
  resolver := some (creating newAuthorOf Store.createAuthor .author)

/-- The mutation root. -/
def mutationRoot : ObjectType Store BlogNode where
  name := mutationType
  fields := [createPost, createAuthor]

/-! ## The registry -/

/-- The types of the blog, in the order of their registration. -/
def types : List (NamedType Store BlogNode) :=
  [.enum category, .object author, .interface hasAuthor, .object comment, .object post,
    .object queryRoot, .object mutationRoot]

/-- The registry of the blog: the built-in scalars and the types of the blog. -/
def registry : Registry Store BlogNode :=
  let r : Registry Store BlogNode := (Registry.empty queryType).withMutation mutationType
  { r with types := r.types ++ types }

end Gazette.Blog
