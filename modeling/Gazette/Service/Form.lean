import Gazette.Json.Reader

/-!
# Forms

The query string of an address holds pairs of names and values between ampersands.  A plus sign
stands for a blank, and a percent sign with two hexadecimal digits for a byte; the bytes are read as
UTF-8, with a replacement character for whatever is none.
-/

namespace Gazette.Form

/-! ## Bytes -/

/-- The bytes that a text stands for. -/
def unescape : List Char → List UInt8
  | [] => []
  | '+' :: rest => 32 :: unescape rest
  | '%' :: a :: b :: rest =>
    match Json.hexValue? a, Json.hexValue? b with
    | some x, some y => UInt8.ofNat (16 * x + y) :: unescape rest
    | _, _ => 37 :: unescape (a :: b :: rest)
  | c :: rest => String.utf8EncodeChar c ++ unescape rest
termination_by cs => cs.length

/-- The character that replaces bytes which are no character. -/
def replacement : Char := '\ufffd'

/-- Whether a byte lies between two bounds. -/
def isIn (b lo hi : Nat) : Bool := lo ≤ b && b ≤ hi

/-- The range of the second byte of a character by the first one, and how many bytes follow the
first; none if no character of more than one byte starts with it. -/
def leadByte? (b : Nat) : Option (Nat × Nat × Nat) :=
  if isIn b 0xC2 0xDF then some (0x80, 0xBF, 1)
  else if b = 0xE0 then some (0xA0, 0xBF, 2)
  else if b = 0xED then some (0x80, 0x9F, 2)
  else if isIn b 0xE1 0xEF then some (0x80, 0xBF, 2)
  else if b = 0xF0 then some (0x90, 0xBF, 3)
  else if isIn b 0xF1 0xF3 then some (0x80, 0xBF, 3)
  else if b = 0xF4 then some (0x80, 0x8F, 3)
  else none

/-- The code that `more` bytes complete, each in its range, with how many of them there are.  Gives
none for the code if one is missing. -/
def follow (code lo hi : Nat) : (more : Nat) → List UInt8 → Option Nat × Nat
  | 0, _ => (some code, 0)
  | _ + 1, [] => (none, 0)
  | more + 1, b :: rest =>
    if isIn b.toNat lo hi then
      let (found, count) := follow (64 * code + (b.toNat - 0x80)) 0x80 0xBF more rest
      (found, count + 1)
    else (none, 0)

/-- The bits of the first byte of a character that `more` bytes follow. -/
def leadBits (b more : Nat) : Nat :=
  match more with
  | 1 => b - 0xC0
  | 2 => b - 0xE0
  | _ => b - 0xF0

/-- Reads bytes as UTF-8.  The longest beginning of a character that is not completed is replaced as
a whole. -/
def decode : List UInt8 → List Char
  | [] => []
  | b :: rest =>
    if b.toNat < 0x80 then Char.ofNat b.toNat :: decode rest
    else
      match leadByte? b.toNat with
      | none => replacement :: decode rest
      | some (lo, hi, more) =>
        match follow (leadBits b.toNat more) lo hi more rest with
        | (some code, count) => Char.ofNat code :: decode (rest.drop count)
        | (none, count) => replacement :: decode (rest.drop count)
termination_by bytes => bytes.length

/-- The text that an escaped one stands for. -/
def decodeText (cs : List Char) : String := String.ofList (decode (unescape cs))

/-! ## Pairs -/

/-- The name and the value of a piece; without an equals sign the value is empty. -/
def pairOf (piece : List Char) : String × String :=
  (decodeText (piece.takeWhile (· ≠ '=')), decodeText ((piece.dropWhile (· ≠ '=')).drop 1))

/-- The pairs of a query string or a form; empty pieces are no pairs. -/
def pairs (cs : List Char) : List (String × String) :=
  ((Text.pieces '&' cs).filter fun piece => !piece.isEmpty).map pairOf

/-- The value under a name that may be missing but must not be repeated; an error if it is. -/
def single? (name : String) (form : List (String × String)) : Except Unit (Option String) :=
  match form.filter fun pair => pair.1 = name with
  | [] => .ok none
  | [(_, value)] => .ok (some value)
  | _ => .error ()

end Gazette.Form
