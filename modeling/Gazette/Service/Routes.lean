import Gazette.Blog.Types
import Gazette.Service.Body
import Gazette.Service.Form

/-!
# Routes of the service

The service answers requests for two paths.  A `POST` to the one for queries has a request in its
body, and a `GET` has it in the query string, or is for the page of the query editor if there is no
query.  The other path has the schema as text.  `Service.answer` gives the reply to a message and
the store after it; messages that are no requests leave the store as it is.
-/

namespace Gazette

/-- A message to the service. -/
structure Message where
  method : String
  target : String
  contentType : Option String := none
  body : Option String := none

/-- The body of a reply. -/
inductive ReplyBody where
  | empty
  | text (content : String)
  | page
  | response (response : Response)

/-- A reply of the service; `isSent` tells whether the body goes with it. -/
structure Reply where
  status : Nat
  body : ReplyBody
  isSent : Bool := true

namespace Service

/-- The path of requests. -/
def queryPath : String := "/graphql"

/-- The path of the schema as text. -/
def schemaPath : String := "/schema.graphql"

/-- The text for a query that is not there while there is no page either. -/
def missingQuery : String := "Missing `query` parameter"

/-! ## Targets -/

/-- The part of a target that starts with the path: behind the scheme and the authority, unless the
target starts with its path.  A target without a path and a scheme has none. -/
def localPart (target : List Char) : List Char :=
  if target.head? = some '/' then target
  else
    match Text.skipWord? "://".toList (target.dropWhile (· ≠ ':')) with
    | some rest => rest.dropWhile fun c => c ≠ '/' && c ≠ '?'
    | none => []

/-- The path and the query string of a target, up to a number sign. -/
def splitTarget (target : String) : String × List Char :=
  let cs := localPart (target.toList.takeWhile (· ≠ '#'))
  (String.ofList (cs.takeWhile (· ≠ '?')), (cs.dropWhile (· ≠ '?')).drop 1)

/-! ## Requests in query strings -/

/-- Variables from the JSON text of a parameter that may be missing. -/
def valuesOfParameter? : Option String → Option (List (String × Value))
  | none => some []
  | some source => (Json.ofText? source).bind values?

/-- Whether a parameter for extensions that may be missing is right. -/
def isExtensionsParameter : Option String → Bool
  | none => true
  | some source => (Json.ofText? source).elim false isExtensions

/-- The request that a form holds; none if a parameter is repeated or is not what it should be. -/
def requestOfForm? (form : List (String × String)) : Option Request := do
  let query ← (Form.single? "query" form).toOption
  let operation ← (Form.single? "operation_name" form).toOption
  let values ← (Form.single? "variables" form).toOption
  let extensions ← (Form.single? "extensions" form).toOption
  let values ← valuesOfParameter? values
  if isExtensionsParameter extensions then
    return ⟨query.getD "", operation, values⟩
  else none

/-! ## Replies -/

/-- The schema that the service answers from. -/
def schema : Schema Store BlogNode := ⟨Blog.registry, .root, Schema.defaultDepthLimit⟩

/-- The reply to a request, or to something that is none. -/
def replyTo (request : Option Request) (store : Store) : Reply × Store :=
  match request with
  | none => (⟨400, .empty, true⟩, store)
  | some request =>
    let (response, store) := schema.respond request store
    (⟨200, .response response, true⟩, store)

/-- The reply to a query string, where `request` is what the message asks for if there is a
query. -/
def answerQuery (page : Bool) (form : List (String × String)) (request : Option Request)
    (store : Store) : Reply × Store :=
  match Form.single? "query" form with
  | .error _ => (⟨400, .empty, true⟩, store)
  | .ok none => (if page then ⟨200, .page, true⟩ else ⟨400, .text missingQuery, true⟩, store)
  | .ok (some _) => replyTo request store

/-- The reply to a message and the store after it; `page` tells whether there is a page of the query
editor. -/
def answer (page : Bool) (message : Message) (store : Store) : Reply × Store :=
  let (path, query) := splitTarget message.target
  let form := Form.pairs query
  if path = queryPath then
    match message.method with
    | "GET" => answerQuery page form (requestOfForm? form) store
    | "HEAD" =>
      let (reply, store) :=
        answerQuery page form (requestOfBody? message.contentType message.body) store
      ({ reply with isSent := false }, store)
    | "POST" => replyTo (requestOfBody? message.contentType message.body) store
    | _ => (⟨405, .empty, true⟩, store)
  else if path = schemaPath then
    match message.method with
    | "GET" => (⟨200, .text schema.definition, true⟩, store)
    | "HEAD" => (⟨200, .text schema.definition, false⟩, store)
    | _ => (⟨405, .empty, true⟩, store)
  else (⟨404, .empty, true⟩, store)

end Service

end Gazette
