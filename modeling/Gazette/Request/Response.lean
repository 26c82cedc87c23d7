import Gazette.Request.Issue
import Gazette.Schema.Error

/-!
# Responses

The answer to a request: data, and the errors that happened on the way with their places in the data
and, for the failure of a field, in the text of the request.
-/

namespace Gazette

/-- A step of a path in a response: the key of a field, or the index of an item. -/
inductive Segment where
  | key (name : String)
  | index (i : Nat)
  deriving DecidableEq, Repr

/-- A path in a response, from the root. -/
abbrev Path := List Segment

/-- A place in a text: lines and columns count from one, and columns count characters.  A line feed
ends a line, and a carriage return goes back to its first column. -/
structure Location where
  line : Nat
  column : Nat
  deriving DecidableEq, Repr

namespace Location

/-- The place after `before`. -/
def after (place : Location) : (before : List Char) → Location
  | [] => place
  | '\n' :: rest => after ⟨place.line + 1, 1⟩ rest
  | '\r' :: rest => after ⟨place.line, 1⟩ rest
  | _ :: rest => after ⟨place.line, place.column + 1⟩ rest

/-- The number of bytes of a text in UTF-8. -/
def byteCount (cs : List Char) : Nat := cs.foldr (fun c n => c.utf8Size + n) 0

/-- The place that is reported for what starts where `remaining` characters of a text are left.  It
lies as many characters from the start of the text as there are bytes before, so it is the true
place if all characters before are ASCII, and a later one if not. -/
def ofRemaining (source : List Char) (remaining : Nat) : Location :=
  after ⟨1, 1⟩ (source.take (byteCount (source.take (source.length - remaining))))

end Location

/-- Why there is an error: a field failed, which starts at a place in the text of the request, or
something is wrong with the request. -/
inductive Cause where
  | field (error : FieldError) (location : Location)
  | request (issue : Issue)

/-- An error of a response.  Its path is that of the position that failed, once that is known. -/
structure ResponseError where
  cause : Cause
  path : Option Path := none

/-- A response: the data and the errors, in order. -/
structure Response where
  data : Value
  errors : List ResponseError := []

namespace Response

/-- Whether an error says nothing but that the request is wrong. -/
def isRefusal (e : ResponseError) : Bool :=
  match e.cause, e.path with
  | .request _, none => true
  | _, _ => false

/-- Whether a response says that its request was rejected: there is no data, and all errors lie in
the request. -/
def isRejected (r : Response) : Bool :=
  r.data.isNull && !r.errors.isEmpty && r.errors.all isRefusal

/-- The response to a request that is rejected. -/
def refusal (issues : List Issue) : Response :=
  ⟨.null, issues.map fun issue => ⟨.request issue, none⟩⟩

end Response

end Gazette
