import Gazette.Json.Record
import Gazette.Service.Multipart

/-!
# Uploads

A body of several parts can bring files for the variables of a request.  A map gives each file, by
the name of its part, the paths of the variables that it stands for, such as `variables.images.0`.
`Upload.attach?` puts a mark for the file at each of these places.
-/

namespace Gazette.Upload

/-! ## Paths -/

/-- The step of a path as an index: decimal digits, perhaps behind a plus sign. -/
def index? (step : String) : Option Nat :=
  match step.toList with
  | '+' :: rest => Number.ofDigits? rest
  | cs => Number.ofDigits? cs

/-- A value with another one at the place that a path leads to, by names of members and indices of
items; none if there is no such place. -/
def replaceAt? (new : Value) : (path : List String) → Value → Option Value
  | [], _ => some new
  | step :: rest, .list items => do
    let i ← index? step
    return .list (items.set i (← replaceAt? new rest (← items[i]?)))
  | step :: rest, .object members => do
    return .object (Entries.put step (← replaceAt? new rest (← members.lookup step)) members)
  | _, _ => none

/-- The steps of a path to a variable; none if it leads elsewhere. -/
def steps? (path : String) : Option (List String) :=
  (Text.skipWord? "variables.".toList path.toList).map fun rest =>
    (Text.pieces '.' rest).map String.ofList

/-! ## Maps -/

/-- The paths for each file by its name. -/
abbrev FileMap := Entries (List String)

/-- The map that a JSON value is: an object of lists of strings. -/
def mapOfJson? : Json → Option FileMap
  | .object members => do
    let pairs ← members.mapM fun (name, value) =>
      match value with
      | .array items => do return (name, ← items.mapM Json.string?)
      | _ => none
    return Entries.ofPairs pairs
  | _ => none

/-! ## Files -/

/-- The values of variables with `count` marks for files among them, and what is left of the map. -/
structure State where
  values : Entries Value
  count : Nat
  left : FileMap

/-- The mark for the file with a number. -/
def mark (n : Nat) : Value := .string ("#__graphql_file__:" ++ String.ofList (Number.digits n))

/-- Puts the next mark at the end of a path, if the path leads anywhere. -/
def State.putAt (s : State) (path : String) : State :=
  match (steps? path).bind fun steps => replaceAt? (mark s.count) steps (.object s.values) with
  | some (.object values) => { s with values := values, count := s.count + 1 }
  | _ => s

/-- Puts marks for the file of a name at its paths.  A second file of the name has none. -/
def State.addFile (s : State) (name : String) : State :=
  match s.left.lookup name with
  | some paths => paths.foldl State.putAt { s with left := Entries.erase name s.left }
  | none => s

/-- The values of variables with marks for the files of the given names; none if there is no file
for a name in the map. -/
def attach? (values : Entries Value) (map : FileMap) (files : List String) :
    Option (Entries Value) :=
  let s := files.foldl State.addFile ⟨values, 0, map⟩
  if s.left.isEmpty then some s.values else none

end Gazette.Upload
