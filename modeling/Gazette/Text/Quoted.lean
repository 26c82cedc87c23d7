import Gazette.Number

/-!
# Quoted text

A string inside the text of a value stands between double quotes.  Carriage return, line feed, tab,
the quote and the backslash have escapes of two characters; every other control character is
written as `\u` and its code point, in decimal and padded to four digits.  All other characters
stand for themselves.
-/

namespace Gazette.Text

/-- Whether a character is a control character: one of the first 32, or one from delete up to
the 32 after it. -/
def isControl (c : Char) : Bool := c.toNat < 32 || (127 ≤ c.toNat && c.toNat < 160)

/-- Digits with zeros before them, up to a width. -/
def padLeft (width : Nat) (ds : List Char) : List Char :=
  List.replicate (width - ds.length) '0' ++ ds

/-- A character as it stands between quotes; controls are written by their number in decimal digits.
-/
def escape (c : Char) : List Char :=
  match c with
  | '\r' => ['\\', 'r']
  | '\n' => ['\\', 'n']
  | '\t' => ['\\', 't']
  | '"' => ['\\', '"']
  | '\\' => ['\\', '\\']
  | c => if isControl c then '\\' :: 'u' :: padLeft 4 (Number.digits c.toNat) else [c]

/-- A text in quotes. -/
def quoted (cs : List Char) : List Char := '"' :: (cs.flatMap escape ++ ['"'])

end Gazette.Text
