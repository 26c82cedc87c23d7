import Gazette.Value

/-!
# JSON

JSON values whose objects keep their members in the order written, repeated names included, and
whose numbers keep integers and doubles apart.  This file holds the values, their text
(`Json.text`) and the two directions between JSON and `Value`.
-/

namespace Gazette

/-- A JSON value.  An object keeps its members in order, also those of one name. -/
inductive Json where
  | null
  | boolean (b : Bool)
  | number (n : Number)
  | string (s : String)
  | array (items : List Json)
  | object (members : List (String × Json))
  deriving Inhabited

namespace Json

/-- An integer. -/
def int (n : Int) : Json := number (.int n)

/-- A string, or null. -/
def ofString? : Option String → Json
  | some s => string s
  | none => null

/-- The item under a name in the members of an object; the last one of a repeated name. -/
def lookup (name : String) (members : List (String × Json)) : Option Json :=
  members.reverse.lookup name

/-- The member of an object under a name; none for a value that is no object. -/
def member? (name : String) : Json → Option Json
  | object members => lookup name members
  | _ => none

/-! ## Text -/

/-- The digit of a number below 16, in lower case. -/
def hexDigit (n : Nat) : Char := (Nat.toDigits 16 n).headD '0'

/-- A character as it stands in a JSON string: the quote, the backslash and the first 32
characters are escaped, by a letter if they have one and else by their code. -/
def escape (c : Char) : List Char :=
  match c with
  | '"' => ['\\', '"']
  | '\\' => ['\\', '\\']
  | '\n' => ['\\', 'n']
  | '\r' => ['\\', 'r']
  | '\t' => ['\\', 't']
  | '\x08' => ['\\', 'b']
  | '\x0c' => ['\\', 'f']
  | c =>
    if c.toNat < 32 then ['\\', 'u', '0', '0', hexDigit (c.toNat / 16), hexDigit (c.toNat % 16)]
    else [c]

/-- A string in quotes. -/
def quoted (s : String) : String := "\"" ++ String.ofList (s.toList.flatMap escape) ++ "\""

mutual

/-- The text of a JSON value, without blanks. -/
def text : Json → String
  | null => "null"
  | boolean true => "true"
  | boolean false => "false"
  | number n => n.text
  | string s => quoted s
  | array items => "[" ++ String.intercalate "," (itemTexts items) ++ "]"
  | object members => "\x7b" ++ String.intercalate "," (memberTexts members) ++ "\x7d"

/-- The texts of the items of an array. -/
def itemTexts : List Json → List String
  | [] => []
  | v :: rest => v.text :: itemTexts rest

/-- The texts of the members of an object. -/
def memberTexts : List (String × Json) → List String
  | [] => []
  | (name, v) :: rest => (quoted name ++ ":" ++ v.text) :: memberTexts rest

end

/-! ## Values as JSON -/

mutual

/-- A value in a response: an enum literal is its name and binary data a list of bytes. -/
def ofValue : Value → Json
  | .null => null
  | .number n => number n
  | .string s => string s
  | .boolean b => boolean b
  | .enum name => string name
  | .binary bytes => array (bytes.map fun b => int b.toNat)
  | .list items => array (ofValues items)
  | .object members => object (ofMembers members)

/-- The items of a list as JSON. -/
def ofValues : List Value → List Json
  | [] => []
  | v :: rest => ofValue v :: ofValues rest

/-- The members of an object as JSON. -/
def ofMembers : List (String × Value) → List (String × Json)
  | [] => []
  | (name, v) :: rest => (name, ofValue v) :: ofMembers rest

end

mutual

/-- The value that plain JSON stands for; of a repeated member the last one counts. -/
def toValue : Json → Value
  | null => .null
  | boolean b => .boolean b
  | number n => .number n
  | string s => .string s
  | array items => .list (toValues items)
  | object members => .object (Entries.ofPairs (toMembers members))

/-- The items of an array as values. -/
def toValues : List Json → List Value
  | [] => []
  | v :: rest => v.toValue :: toValues rest

/-- The members of a JSON object as those of a value. -/
def toMembers : List (String × Json) → List (String × Value)
  | [] => []
  | (name, v) :: rest => (name, v.toValue) :: toMembers rest

end

end Json

end Gazette
