import Gazette.Service.Routes

/-!
# Transcripts

Messages and replies as lines of text.  A message is a method, a target and perhaps a body, with
blanks between them; a reply is one JSON object with the status and the body.
-/

namespace Gazette

/-- The message on a line: its first word is the method, its second one the target, and the rest the
body. -/
def Message.ofLine (source : String) : Message :=
  let cs := source.toList
  let isBlank := fun (c : Char) => c = ' ' || c = '\n' || c = '\r'
  let skip := fun (cs : List Char) => cs.dropWhile isBlank
  let word := fun (cs : List Char) => cs.takeWhile fun c => !isBlank c
  let after := fun (cs : List Char) => skip (cs.dropWhile fun c => !isBlank c)
  let start := skip cs
  let rest := after start
  let body := after rest
  { method := String.ofList (word start)
    target := String.ofList (word rest)
    body := if body.isEmpty then none else some (String.ofList body) }

/-- A segment of a path in JSON. -/
def Segment.toJson : Segment → Json
  | key name => .string name
  | index i => .int i

/-- A location in JSON. -/
def Location.toJson (place : Location) : Json :=
  .object [("line", .int place.line), ("column", .int place.column)]

/-- An error in JSON; the code is among its extensions. -/
def ResponseError.toJson (e : ResponseError) : Json :=
  let path := match e.path with
    | some path => [("path", Json.array (path.map Segment.toJson))]
    | none => []
  match e.cause with
  | .field error location =>
    .object ([("message", Json.string error.message), ("locations", .array [location.toJson])] ++
      path ++ [("extensions", .object [("code", .string error.code)])])
  | .request issue => .object ([("message", Json.string issue.message)] ++ path)

/-- A response in JSON; without errors it has no member for them. -/
def Response.toJson (r : Response) : Json :=
  .object ([("data", Json.ofValue r.data)] ++
    if r.errors.isEmpty then [] else [("errors", .array (r.errors.map ResponseError.toJson))])

/-- The page with a form for requests. -/
def Service.pageText : String :=
  "<!DOCTYPE html><title>Blog</title><form action=\"" ++ Service.queryPath ++
    "\"><textarea name=\"query\"></textarea><button>Run</button></form>"

/-- The body of a reply in JSON. -/
def ReplyBody.toJson : ReplyBody → Json
  | empty => .null
  | text content => .string content
  | page => .string Service.pageText
  | response r => r.toJson

/-- The line that a reply makes in a transcript. -/
def Reply.line (r : Reply) : String :=
  (Json.object [("status", .int r.status),
    ("body", if r.isSent then r.body.toJson else .null)]).text

end Gazette
