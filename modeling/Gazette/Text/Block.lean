/-!
# Block text

Descriptions stand in block strings: between lines of three double quotes, each line of the text
behind the indentation of what it describes.  Three quotes in a row inside the text get a backslash
before them, so that they do not close the block.  `chars` writes such a string, and `content` gives
the text of one that was read, without the indentation that its lines share.
-/

namespace Gazette.Text.Block

/-- Divides a text at line feeds; there is one more piece than there are line feeds. -/
def splitFeeds : List Char → List (List Char)
  | [] => [[]]
  | '\n' :: rest => [] :: splitFeeds rest
  | c :: rest =>
    match splitFeeds rest with
    | line :: lines => (c :: line) :: lines
    | [] => [[c]]

/-- A line without one carriage return at its end. -/
def dropReturn (line : List Char) : List Char :=
  if line.getLast? = some '\r' then line.dropLast else line

/-- The lines of a text.  A line ends at a line feed with at most one carriage return before it; the
end of the text ends a last line that is not empty, where a carriage return stays. -/
def lines (cs : List Char) : List (List Char) :=
  let pieces := splitFeeds cs
  let last := pieces.getLast?.getD []
  pieces.dropLast.map dropReturn ++ (if last.isEmpty then [] else [last])

/-- A line with a backslash before every three quotes in a row. -/
def escapeQuotes : List Char → List Char
  | '"' :: '"' :: '"' :: rest => '\\' :: '"' :: '"' :: '"' :: escapeQuotes rest
  | c :: rest => c :: escapeQuotes rest
  | [] => []

/-- The marks that open and close a block. -/
def quotes : List Char := ['"', '"', '"']

/-- A block string with `indent` before each of its lines. -/
def chars (indent : List Char) (text : List Char) : List Char :=
  let line := fun (content : List Char) => indent ++ content ++ ['\n']
  line quotes ++ (lines text).flatMap (fun l => line (escapeQuotes l)) ++ line quotes

/-! ## Reading -/

/-- Divides a text at every kind of line end; there is one more piece than there are ends. -/
def splitLines : List Char → List (List Char)
  | [] => [[]]
  | '\r' :: '\n' :: rest => [] :: splitLines rest
  | c :: rest =>
    if c = '\n' ∨ c = '\r' then [] :: splitLines rest
    else
      match splitLines rest with
      | line :: lines => (c :: line) :: lines
      | [] => [[c]]

/-- Whether a character indents a line. -/
def isIndent (c : Char) : Bool := c = ' ' || c = '\t'

/-- Whether a line has nothing but indentation. -/
def isBlank (line : List Char) : Bool := line.all isIndent

/-- The width of the indentation that all lines share which are not blank; zero if all are. -/
def commonIndent (lines : List (List Char)) : Nat :=
  let widths := (lines.filter fun line => !isBlank line).map fun line =>
    (line.takeWhile isIndent).length
  widths.min?.getD 0

/-- A line without an indentation of a given width; a line of less width stays as it is. -/
def removeIndent (width : Nat) (line : List Char) : List Char :=
  if width ≤ line.length then line.drop width else line

/-- The lines between the blank ones at the beginning and at the end. -/
def trimBlank (lines : List (List Char)) : List (List Char) :=
  (((lines.dropWhile isBlank).reverse).dropWhile isBlank).reverse

/-- The text that lines make. -/
def joinLines : List (List Char) → List Char
  | [] => []
  | [line] => line
  | line :: rest => line ++ '\n' :: joinLines rest

/-- The text that stands in a block.  The first line, beside the opening quotes, keeps its
indentation and does not count for that of the others. -/
def content (raw : List Char) : List Char :=
  match splitLines raw with
  | first :: rest =>
    joinLines (trimBlank (first :: rest.map (removeIndent (commonIndent rest))))
  | [] => []

end Gazette.Text.Block
