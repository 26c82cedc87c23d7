import Gazette.Schema.Registry

/-!
# Outlines

What a schema tells about its types: names, descriptions, fields, arguments, interfaces and values,
but not how fields are resolved (`Outline`).  A type can be seen if the roots lead to it
(`Outline.visible`).
-/

namespace Gazette

/-- The kinds of types: those that are named, and the two wrappers. -/
inductive TypeKind where
  | scalar | object | interface | enum | list | nonNull
  deriving DecidableEq, Repr

/-- The name of a kind. -/
def TypeKind.name : TypeKind → String
  | scalar => "SCALAR"
  | object => "OBJECT"
  | interface => "INTERFACE"
  | enum => "ENUM"
  | list => "LIST"
  | nonNull => "NON_NULL"

/-- A field without its resolver. -/
structure FieldOutline where
  name : String
  description : Option String
  arguments : List ArgumentSpec
  type : TypeRef

/-- What a declaration says: a type without its resolvers. -/
structure Outline where
  kind : TypeKind
  name : String
  description : Option String
  fields : List FieldOutline
  implements : List String
  values : List String
  valueDescriptions : Entries String

namespace Outline

/-- The outline of a type. -/
def ofType {σ ν : Type} : NamedType σ ν → Outline
  | .scalar type => ⟨.scalar, type.name, type.description, [], [], [], []⟩
  | .enum type =>
    ⟨.enum, type.name, type.description, [], [], type.values, type.valueDescriptions⟩
  | .object type =>
    let fields := type.fields.map fun f => ⟨f.name, f.description, f.arguments, f.type⟩
    ⟨.object, type.name, type.description, fields, type.implements, [], []⟩
  | .interface type =>
    let fields := type.fields.map fun f => ⟨f.name, f.description, [], f.type⟩
    ⟨.interface, type.name, type.description, fields, [], [], []⟩

/-- The outlines of the types of a registry, in its order. -/
def ofRegistry {σ ν : Type} (r : Registry σ ν) : List Outline := r.types.map ofType

/-- The outline with a name. -/
def find? (outlines : List Outline) (name : String) : Option Outline :=
  outlines.find? fun o => o.name = name

/-- Whether a name starts with two low lines, as those of the types and fields that tell about the
schema itself do. -/
def isReserved (name : String) : Bool := "__".toList.isPrefixOf name.toList

/-- The outlines of the objects that implement an interface, in order. -/
def implementors (outlines : List Outline) (interface : String) : List Outline :=
  outlines.filter fun o => o.implements.contains interface

/-- The types that an outline leads to: those of its fields and their arguments, and the objects of
an interface. -/
def successors (outlines : List Outline) (o : Outline) : List String :=
  o.fields.flatMap (fun f =>
      f.type.baseName :: f.arguments.map fun spec => spec.type.baseName) ++
    (if o.kind = .interface then (implementors outlines o.name).map Outline.name else [])

/-- The names in `seen`, and those of the types that `names` lead to without passing one of `seen`.
Every step adds a type or looks at one name, so `fuel` need not exceed the steps there are. -/
def reach (outlines : List Outline) : (fuel : Nat) → (seen names : List String) → List String
  | 0, seen, _ => seen
  | _ + 1, seen, [] => seen
  | fuel + 1, seen, name :: rest =>
    if seen.contains name then reach outlines fuel seen rest
    else
      match find? outlines name with
      | some o => reach outlines fuel (name :: seen) (successors outlines o ++ rest)
      | none => reach outlines fuel seen rest

/-- A bound for the steps of a search from one name: each type gives its successors once. -/
def searchSteps (outlines : List Outline) : Nat :=
  outlines.foldr (fun o n => (successors outlines o).length + n) 2

/-- Adds an interface, and what it leads to, if one of its objects is among the names. -/
def addInterface (outlines : List Outline) (seen : List String) (o : Outline) : List String :=
  if o.kind = .interface ∧ (implementors outlines o.name).any fun i => seen.contains i.name then
    reach outlines (searchSteps outlines) seen [o.name]
  else seen

/-- Puts an outline before the first one whose name does not come before its own. -/
def insertByName (o : Outline) : List Outline → List Outline
  | [] => [o]
  | p :: rest => if p.name < o.name then p :: insertByName o rest else o :: p :: rest

/-- Outlines in the order of their names. -/
def sortByName (outlines : List Outline) : List Outline := outlines.foldr insertByName []

/-- The names of the types that can be seen: those that the roots lead to, then in the order of
names those that an interface of a seen object leads to, and all built-in and reserved ones. -/
def visible (outlines : List Outline) (roots : List String) : List String :=
  let reached := roots.foldl (fun seen root => reach outlines (searchSteps outlines) seen [root]) []
  let reached := (sortByName outlines).foldl (addInterface outlines) reached
  (outlines.map Outline.name).filter fun name =>
    Registry.isBuiltin name || isReserved name || reached.contains name

end Outline

end Gazette
