import Gazette.Text.Quoted
import Gazette.Entries

/-!
# Values

The values that arguments, attributes and responses hold, and their text as it appears in messages
and schema texts (`Value.text`): enum names stand bare, strings are quoted, and binary data reads
like a list of bytes.
-/

namespace Gazette

/-- A value. -/
inductive Value where
  | null
  | number (n : Number)
  | string (s : String)
  | boolean (b : Bool)
  | enum (name : String)
  | binary (bytes : List UInt8)
  | list (items : List Value)
  | object (members : List (String × Value))
  deriving Inhabited

namespace Value

/-- Whether a value is null. -/
def isNull : Value → Bool
  | null => true
  | _ => false

/-- An integer as a value. -/
def int (n : Int) : Value := number (.int n)

/-- A text as a value, or null. -/
def ofString? : Option String → Value
  | some s => string s
  | none => null

/-- The name that an enum literal or a string holds. -/
def name? : Value → Option String
  | enum name => some name
  | string name => some name
  | _ => none

/-! ## Text -/

/-- Texts with a comma and a blank between them. -/
def separated : List (List Char) → List Char
  | [] => []
  | [cs] => cs
  | cs :: rest => cs ++ ',' :: ' ' :: separated rest

mutual

/-- The characters of a value as a literal. -/
def chars : Value → List Char
  | null => "null".toList
  | number n => n.chars
  | string s => Text.quoted s.toList
  | boolean true => "true".toList
  | boolean false => "false".toList
  | enum name => name.toList
  | binary bytes => '[' :: (separated (bytes.map fun b => Number.digits b.toNat) ++ [']'])
  | list items => '[' :: (separated (itemTexts items) ++ [']'])
  | object members => '{' :: (separated (memberTexts members) ++ ['}'])

/-- The characters of each item. -/
def itemTexts : List Value → List (List Char)
  | [] => []
  | v :: rest => v.chars :: itemTexts rest

/-- The characters of each member: its name, a colon and its value. -/
def memberTexts : List (String × Value) → List (List Char)
  | [] => []
  | (name, v) :: rest => (name.toList ++ ':' :: ' ' :: v.chars) :: memberTexts rest

end

/-- A value as a literal. -/
def text (v : Value) : String := String.ofList v.chars

theorem itemTexts_eq_map (items : List Value) : itemTexts items = items.map chars := by
  induction items with
  | nil => rfl
  | cons v rest ih => simp [itemTexts, ih]

end Value

end Gazette
