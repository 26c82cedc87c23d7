import Gazette.Value

/-!
# Merging results

Two results under one key become one: of two objects the members are merged, of two lists the
objects at one place, and otherwise the first result stays.  `Value.ofSelections` makes the object
of a selection set from its results in order.
-/

namespace Gazette.Value

mutual

/-- One result of two for one key. -/
def merge (old : Value) : (new : Value) → Value
  | .object added =>
    match old with
    | .object members => .object (mergeMembers members added)
    | other => other
  | .list added =>
    match old with
    | .list items => .list (mergeItems items added)
    | other => other
  | _ => old

/-- Members with others added in order, merged under names that are there already. -/
def mergeMembers (members : List (String × Value)) :
    (added : List (String × Value)) → List (String × Value)
  | [] => members
  | (name, new) :: rest =>
    let item := match members.lookup name with
      | some old => merge old new
      | none => new
    mergeMembers (Entries.put name item members) rest

/-- Items with the objects among `added` merged into the objects at their places. -/
def mergeItems (items : List Value) : (added : List Value) → List Value
  | [] => items
  | .object members :: rest =>
    match items with
    | .object old :: olds => .object (mergeMembers old members) :: mergeItems olds rest
    | other :: olds => other :: mergeItems olds rest
    | [] => []
  | _ :: rest =>
    match items with
    | old :: olds => old :: mergeItems olds rest
    | [] => []

end

/-- The object of the results of selections, where results under one key are merged. -/
def ofSelections (results : List (String × Value)) : Value := .object (mergeMembers [] results)

end Gazette.Value
