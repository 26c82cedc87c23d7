import Gazette.Text.Pieces

/-!
# Media types

The name of the form of a message body, such as `application/json; charset=utf-8`: a type, a
subtype, and parameters, whose values may be quoted.  `MediaType.ofText?` reads one.
-/

namespace Gazette

/-- A media type without its subtype: the type and the names of the parameters are in lower case. -/
structure MediaType where
  type : String
  parameters : List (String × String)
  deriving Repr

namespace MediaType

/-- Whether a character may stand in the names and plain values of a media type. -/
def isTokenChar (c : Char) : Bool :=
  c.isAlphanum || "!#$%&'*+-.^_`|~".toList.contains c

/-- A token of at least one character, and the text after it. -/
def takeToken (cs : List Char) : Option (List Char × List Char) :=
  match cs.takeWhile isTokenChar with
  | [] => none
  | token => some (token, cs.dropWhile isTokenChar)

/-- A token in lower case. -/
def lowerCase (token : List Char) : String := String.ofList (token.map Char.toLower)

/-- Whether a character may stand in a quoted value. -/
def isQuotedChar (c : Char) : Bool := 32 ≤ c.toNat && c.toNat ≠ 127

/-- The value of a parameter, and the text after it and the blanks behind its closing quote.  A
plain value may be empty at the end of the text only, and a quoted one has a first character, which
may be a quote itself. -/
def takeValue : List Char → Option (List Char × List Char)
  | [] => some ([], [])
  | '"' :: c :: rest =>
    let value := c :: rest.takeWhile (· ≠ '"')
    match rest.dropWhile (· ≠ '"') with
    | _ :: after => if value.all isQuotedChar then some (value, after.dropWhile (· = ' ')) else none
    | [] => none
  | cs => takeToken cs

/-- The parameters behind a semicolon, with semicolons between them; there may be none.  Every
parameter takes one unit of `fuel`. -/
def takeParameters : (fuel : Nat) → List Char → Option (List (String × String))
  | 0, _ => none
  | fuel + 1, cs =>
    match cs.dropWhile (· = ' ') with
    | [] => some []
    | start => do
      let (name, rest) ← takeToken start
      let (value, rest) ← takeValue (← Text.skipMark? '=' rest)
      let parameter := (lowerCase name, String.ofList value)
      match rest with
      | [] => return [parameter]
      | ';' :: rest => return parameter :: (← takeParameters fuel rest)
      | _ => none

/-- Reads a media type.  The subtype may be empty if no parameters follow. -/
def ofText? (source : String) : Option MediaType := do
  let (type, rest) ← takeToken source.toList
  let rest ← Text.skipMark? '/' rest
  match rest.dropWhile isTokenChar with
  | [] => return ⟨lowerCase type, []⟩
  | ';' :: after =>
    if rest.head? = some ';' then none
    else return ⟨lowerCase type, ← takeParameters (after.length + 1) after⟩
  | _ => none

/-- The value of the first parameter with a name in lower case. -/
def parameter? (m : MediaType) (name : String) : Option String := m.parameters.lookup name

end MediaType

end Gazette
