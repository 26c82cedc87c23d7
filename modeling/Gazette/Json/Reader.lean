import Gazette.Json
import Gazette.Text.Pieces

/-!
# Reading JSON

`Json.ofText?` reads a text that is one JSON value with blanks around it.  Numbers that no double
can hold are refused, as are unescaped control characters, half pairs of `\u` escapes, and arrays
and objects nested more than `maxNesting` deep.
-/

namespace Gazette.Json

/-- How deep arrays and objects may be nested. -/
def maxNesting : Nat := 127

/-- Whether a character may stand between the parts of a JSON text. -/
def isBlank (c : Char) : Bool := c = ' ' || c = '\n' || c = '\t' || c = '\r'

/-- A text from its first character on that is not blank. -/
def skipBlanks (cs : List Char) : List Char := cs.dropWhile isBlank

/-! ## Strings -/

/-- The number that a hexadecimal digit stands for, in either case. -/
def hexValue? (c : Char) : Option Nat :=
  if '0' ≤ c ∧ c ≤ '9' then some (c.toNat - '0'.toNat)
  else if 'a' ≤ c ∧ c ≤ 'f' then some (c.toNat - 'a'.toNat + 10)
  else if 'A' ≤ c ∧ c ≤ 'F' then some (c.toNat - 'A'.toNat + 10)
  else none

/-- The code of four hexadecimal digits. -/
def hexCode? (a b c d : Char) : Option Nat := do
  return 4096 * (← hexValue? a) + 256 * (← hexValue? b) + 16 * (← hexValue? c) + (← hexValue? d)

/-- The code of a character after a backslash. -/
def escapeCode? (c : Char) : Option Nat :=
  match c with
  | '"' | '\\' | '/' => some c.toNat
  | 'b' => some 8
  | 'f' => some 12
  | 'n' => some 10
  | 'r' => some 13
  | 't' => some 9
  | _ => none

/-- The codes of a string up to its closing quote, and the text after the quote.  A `\u` escape
gives its code even where that is half of a pair. -/
def takeCodes : List Char → Option (List Nat × List Char)
  | [] => none
  | '"' :: rest => some ([], rest)
  | '\\' :: 'u' :: a :: b :: c :: d :: rest => do
    let code ← hexCode? a b c d
    let (codes, after) ← takeCodes rest
    return (code :: codes, after)
  | '\\' :: c :: rest => do
    let code ← escapeCode? c
    let (codes, after) ← takeCodes rest
    return (code :: codes, after)
  | c :: rest =>
    if c.toNat < 32 ∨ c = '\\' then none
    else do
      let (codes, after) ← takeCodes rest
      return (c.toNat :: codes, after)

/-- Whether a code is the first half of a pair. -/
def isHighHalf (n : Nat) : Bool := 0xD800 ≤ n && n < 0xDC00

/-- Whether a code is the second half of a pair. -/
def isLowHalf (n : Nat) : Bool := 0xDC00 ≤ n && n < 0xE000

/-- The characters of codes, with pairs joined; none if there is a half without its other half. -/
def ofCodes? : List Nat → Option (List Char)
  | [] => some []
  | n :: rest =>
    if isLowHalf n then none
    else if isHighHalf n then
      match rest with
      | m :: rest' =>
        if isLowHalf m then
          (ofCodes? rest').map (Char.ofNat (0x10000 + (n - 0xD800) * 0x400 + (m - 0xDC00)) :: ·)
        else none
      | [] => none
    else (ofCodes? rest).map (Char.ofNat n :: ·)

/-- The string up to its closing quote, and the text after that. -/
def takeString (cs : List Char) : Option (String × List Char) := do
  let (codes, rest) ← takeCodes cs
  return (String.ofList (← ofCodes? codes), rest)

/-! ## Values -/

mutual

/-- The value at the start of a text, and the text after it.  Each call uses one unit of `fuel`, and
`depth` more arrays and objects may be entered. -/
def takeValue : (fuel depth : Nat) → List Char → Option (Json × List Char)
  | 0, _, _ => none
  | fuel + 1, depth, cs =>
    match skipBlanks cs with
    | 'n' :: rest => (Text.skipWord? "ull".toList rest).map (null, ·)
    | 't' :: rest => (Text.skipWord? "rue".toList rest).map (boolean true, ·)
    | 'f' :: rest => (Text.skipWord? "alse".toList rest).map (boolean false, ·)
    | '"' :: rest => (takeString rest).map fun (s, after) => (string s, after)
    | '[' :: rest =>
      match depth with
      | 0 => none
      | depth + 1 =>
        match skipBlanks rest with
        | ']' :: after => some (array [], after)
        | _ => (takeItems fuel depth rest).map fun (items, after) => (array items, after)
    | '{' :: rest =>
      match depth with
      | 0 => none
      | depth + 1 =>
        match skipBlanks rest with
        | '}' :: after => some (object [], after)
        | _ => (takeMembers fuel depth rest).map fun (members, after) => (object members, after)
    | rest => do
      let (lexeme, after) ← Number.takeLexeme rest
      return (number (← lexeme.toNumber?), after)

/-- The items of an array up to its bracket, and the text after that. -/
def takeItems : (fuel depth : Nat) → List Char → Option (List Json × List Char)
  | 0, _, _ => none
  | fuel + 1, depth, cs => do
    let (item, rest) ← takeValue fuel depth cs
    match skipBlanks rest with
    | ',' :: rest =>
      let (items, after) ← takeItems fuel depth rest
      return (item :: items, after)
    | ']' :: after => return ([item], after)
    | _ => none

/-- The members of an object up to its brace, and the text after that. -/
def takeMembers : (fuel depth : Nat) → List Char → Option (List (String × Json) × List Char)
  | 0, _, _ => none
  | fuel + 1, depth, cs =>
    match skipBlanks cs with
    | '"' :: rest => do
      let (name, rest) ← takeString rest
      match skipBlanks rest with
      | ':' :: rest =>
        let (item, rest) ← takeValue fuel depth rest
        match skipBlanks rest with
        | ',' :: rest =>
          let (members, after) ← takeMembers fuel depth rest
          return ((name, item) :: members, after)
        | '}' :: after => return ([(name, item)], after)
        | _ => none
      | _ => none
    | _ => none

end

/-- Reads a text that is one JSON value.  Two units of fuel for each character suffice, since of
any two calls in a row one reads a character. -/
def ofChars? (cs : List Char) : Option Json := do
  let (value, rest) ← takeValue (2 * cs.length + 2) maxNesting cs
  if (skipBlanks rest).isEmpty then return value else none

/-- The value that a text stands for. -/
def ofText? (source : String) : Option Json := ofChars? source.toList

end Gazette.Json
