import Gazette.Json

/-!
# Records in JSON

A record is written as an object with one member for each of its parts.  It is read from such an
object, where further members are ignored and an absent member counts as null, or from an array of
exactly its parts in their order.
-/

namespace Gazette.Json

/-- The parts of a record with the given names: the members of an object, or the items of an array
of the same length. -/
def parts? (names : List String) : Json → Option (List Json)
  | object members => some (names.map fun name => (lookup name members).getD null)
  | array items => if items.length = names.length then some items else none
  | _ => none

/-- The text of a string. -/
def string? : Json → Option String
  | string s => some s
  | _ => none

/-- The double nearest to a number. -/
def double? : Json → Option Double
  | number n => some n.toDouble
  | _ => none

/-- A part that may be null, read by `read` if it is not. -/
def optional? {α : Type} (read : Json → Option α) : Json → Option (Option α)
  | null => some none
  | value => (read value).map some

end Gazette.Json
