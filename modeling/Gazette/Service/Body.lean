import Gazette.Request
import Gazette.Service.Upload

/-!
# Requests in bodies

The body of a message holds a request as JSON (`Service.requestOfJson?`), or has several parts: the
JSON of the request, a map, and files (`Service.requestOfParts?`).  The content type of the message
tells which of the two it is (`Service.requestOfBody?`).
-/

namespace Gazette.Service

/-! ## JSON -/

/-- Variables from a JSON value: the members of an object, or none for null. -/
def values? : Json → Option (List (String × Value))
  | .object members => some (Entries.ofPairs (Json.toMembers members))
  | .null => some []
  | _ => none

/-- Whether a JSON value can be the extensions of a request. -/
def isExtensions : Json → Bool
  | .object _ => true
  | _ => false

/-- The names of the members that a request may have. -/
def memberNames : List String := ["query", "operationName", "variables", "extensions"]

/-- A member that may be missing, read by `read` if it is there. -/
def member? {α : Type} (read : Json → Option α) (absent : α) : Option Json → Option α
  | none => some absent
  | some value => read value

/-- The request that the values of these members make, if each of them is of its type. -/
def requestOfMembers? (query operation values extensions : Option Json) : Option Request := do
  let query ← member? Json.string? "" query
  let operation ← member? (Json.optional? Json.string?) none operation
  let values ← member? values? [] values
  if extensions.elim true isExtensions then return ⟨query, operation, values⟩ else none

/-- The request that a JSON value is: an object, where no member of a request is repeated, or an
array of the first members in order. -/
def requestOfJson? : Json → Option Request
  | .object members =>
    let known := (members.map Prod.fst).filter memberNames.contains
    if (Entries.firstRepeated known).isSome then none
    else
      requestOfMembers? (members.lookup "query") (members.lookup "operationName")
        (members.lookup "variables") (members.lookup "extensions")
  | .array items =>
    if 4 < items.length then none
    else requestOfMembers? items[0]? items[1]? items[2]? items[3]?
  | _ => none

/-! ## Several parts -/

/-- The contents of the parts with a name, as JSON; none if one of them is no JSON. -/
def jsonParts? (name : String) (parts : List BodyPart) : Option (List Json) :=
  (parts.filter fun p => p.name = some name).mapM fun p => Json.ofText? p.content

/-- Whether a JSON value is a list of requests. -/
def isBatch : Json → Bool
  | .array items => items.all fun item => (requestOfJson? item).isSome
  | _ => false

/-- The names of the parts that hold the request and the map. -/
def partNames : List String := ["operations", "map"]

/-- The names of the parts that are files. -/
def fileNames (parts : List BodyPart) : List String :=
  (parts.filter BodyPart.isFile).filterMap fun p =>
    p.name.filter fun name => !partNames.contains name

/-- The request that parts hold, with the files that the map asks for.  Of repeated requests and
maps the last one counts, and the others must be readable. -/
def requestOfParts? (parts : List BodyPart) : Option Request := do
  let operations ← jsonParts? "operations" parts
  let maps ← (← jsonParts? "map" parts).mapM Upload.mapOfJson?
  if operations.all fun j => (requestOfJson? j).isSome || isBatch j then
    let request ← requestOfJson? (← operations.getLast?)
    let values ← Upload.attach? request.values (← maps.getLast?) (fileNames parts)
    return { request with values := values }
  else none

/-! ## Bodies -/

/-- Whether a content type is in characters that can be read; one that is not counts for none. -/
def isPlainType (source : String) : Bool :=
  source.toList.all fun c => c = '\t' || (32 ≤ c.toNat && c.toNat < 127)

/-- The request in a body, which is JSON unless the content type says that it has several parts. -/
def requestOfBody? (contentType : Option String) (body : Option String) : Option Request := do
  let content := body.getD ""
  let type ← MediaType.ofText? ((contentType.filter isPlainType).getD "application/json")
  if type.type = "multipart" then
    requestOfParts? (← Multipart.parts? (← type.parameter? "boundary") content)
  else requestOfJson? (← Json.ofText? content)

end Gazette.Service
