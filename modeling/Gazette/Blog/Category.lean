import Gazette.Json

/-!
# Categories

The categories that a post can be filed under, with the name that stands for each in requests and
records, and its slug.
-/

namespace Gazette

/-- What a post can be about. -/
inductive Category where
  | server | optimization | release
  deriving DecidableEq, Repr

namespace Category

/-- All categories, in the order in which the enum declares them. -/
def all : List Category := [server, optimization, release]

/-- The name of a category, as requests and JSON have it. -/
def name : Category → String
  | server => "SERVER"
  | optimization => "OPTIMIZATION"
  | release => "RELEASE"

/-- The internal slug of a category. -/
def slug : Category → String
  | server => "server-side-swift"
  | optimization => "optimization"
  | release => "release"

/-- The category with a name. -/
def ofName? (name : String) : Option Category := all.find? fun c => c.name = name

/-- The message for a name that no category has. -/
def unknownMessage (name : String) : String := "Unknown category: " ++ name

/-- A category as JSON: its name. -/
def toJson (c : Category) : Json := .string c.name

/-- Reads a category from its name, or from an object whose only member has that name and is
null. -/
def ofJson? : Json → Option Category
  | .string name => ofName? name
  | .object members =>
    match Entries.ofPairs members with
    | [(name, .null)] => ofName? name
    | _ => none
  | _ => none

@[simp]
theorem ofName?_name (c : Category) : ofName? c.name = some c := by cases c <;> decide

end Category

end Gazette
