import Gazette.Service.MediaType

/-!
# Bodies of several parts

A body of several parts has a boundary behind two hyphens before each part, and once more, with two
hyphens behind it, after the last one.  A part is header fields, an empty line and content.  What
stands before the first boundary and after the last one does not count.  `Multipart.parts?` gives
the parts in order.
-/

namespace Gazette

/-- A part of a body: its name, whether it is a file, and its content. -/
structure BodyPart where
  name : Option String
  isFile : Bool
  content : String
  deriving Repr

namespace Multipart

/-! ## Lines and blanks -/

/-- The end of a line. -/
def lineEnd : List Char := ['\r', '\n']

/-- Whether a character is a blank or a tab. -/
def isBlank (c : Char) : Bool := c = ' ' || c = '\t'

/-! ## Header fields -/

/-- Whether a character may stand in the value of a header field. -/
def isFieldChar (c : Char) : Bool := c = '\t' || MediaType.isQuotedChar c

/-- What follows the end of a header field. -/
def skipFieldEnd? : List Char → Option (List Char)
  | '\n' :: rest => some rest
  | '\r' :: '\n' :: rest => some rest
  | _ => none

/-- A text without the blanks around it. -/
def trim (cs : List Char) : List Char :=
  ((cs.dropWhile isBlank).reverse.dropWhile isBlank).reverse

/-- How many header fields a part may have. -/
def maxFields : Nat := 32

/-- The header fields up to an empty line, at most `room`, with their names in lower case. -/
def takeFields (room : Nat) (cs : List Char) : Option (List (String × List Char)) :=
  match skipFieldEnd? cs, room with
  | some _, _ => some []
  | none, 0 => none
  | none, room + 1 => do
    let (name, rest) ← MediaType.takeToken cs
    let rest ← Text.skipMark? ':' rest
    let fields ← takeFields room (← skipFieldEnd? (rest.dropWhile isFieldChar))
    return (MediaType.lowerCase name, trim (rest.takeWhile isFieldChar)) :: fields

/-- A quoted value up to its closing quote.  A quote behind a backslash stands for itself. -/
def takeQuoted : List Char → Option (List Char)
  | [] => none
  | '"' :: _ => some []
  | '\\' :: '"' :: rest => (takeQuoted rest).map ('"' :: ·)
  | c :: rest => (takeQuoted rest).map (c :: ·)

/-- The value behind the name of a parameter: an equals sign, and a quoted value or all characters
up to a semicolon. -/
def parameterValue? (cs : List Char) : Option (List Char) := do
  let rest ← Text.skipMark? '=' (cs.dropWhile isBlank)
  match rest.dropWhile isBlank with
  | '"' :: rest => takeQuoted rest
  | rest => return rest.takeWhile (· ≠ ';')

/-- The value of the first parameter in a header field that has a name.  `isFree` tells whether the
parameter may start here: at the start, and behind a blank or a semicolon.  Every character takes
one unit of `fuel`. -/
def findParameter? (name : List Char) : (fuel : Nat) → (isFree : Bool) → List Char →
    Option (List Char)
  | 0, _, _ => none
  | fuel + 1, isFree, cs =>
    match Text.skipWord? name cs, cs with
    | some after, _ =>
      if isFree then parameterValue? after else findParameter? name fuel true after
    | none, c :: rest => findParameter? name fuel (isBlank c || c = ';') rest
    | none, [] => none

/-- The parameter with a name in the value of a header field. -/
def parameter? (name : String) (value : List Char) : Option String :=
  (findParameter? name.toList (value.length + 1) true value).map String.ofList

/-! ## Parts -/

/-- The part with the given header fields and content.  Of fields of one name the last one
counts. -/
def partOf (fields : List (String × List Char)) (content : List Char) : BodyPart :=
  let disposition := fields.reverse.lookup "content-disposition"
  { name := disposition.bind (parameter? "name")
    isFile := (disposition.bind (parameter? "filename")).isSome
    content := String.ofList content }

/-- The parts of a text that follows a boundary; every part takes one unit of `fuel`. -/
def partsFrom (boundary : List Char) : (fuel : Nat) → List Char → Option (List BodyPart)
  | 0, _ => none
  | fuel + 1, cs =>
    match Text.skipWord? ['-', '-'] cs with
    | some _ => some []
    | none => do
      let start ← Text.skipWord? lineEnd (cs.dropWhile isBlank)
      let (head, rest) ← Text.cut? (lineEnd ++ lineEnd) start
      let fields ← takeFields maxFields (head ++ lineEnd ++ lineEnd)
      let (content, rest) ← Text.cut? (lineEnd ++ boundary) rest
      return partOf fields content :: (← partsFrom boundary fuel rest)

/-- The parts of a body with the given boundary; none if the body is not complete or a part is not
well formed. -/
def parts? (boundary body : String) : Option (List BodyPart) := do
  let boundary := '-' :: '-' :: boundary.toList
  let (_, rest) ← Text.cut? boundary body.toList
  partsFrom boundary (rest.length + 1) rest

end Multipart

end Gazette
