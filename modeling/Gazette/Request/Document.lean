import Gazette.TypeRef
import Gazette.Value

/-!
# Request documents

The operations and fragments that a request is made of, as they are written: selections of fields
and fragments, arguments whose values may name variables, and directives.  A field keeps the place
where it stands as the number of characters from its start to the end of the text.
-/

namespace Gazette

/-- A value as a document writes it. -/
inductive Literal where
  | reference (name : String)
  | null
  | number (n : Number)
  | string (s : String)
  | boolean (b : Bool)
  | enum (name : String)
  | list (items : List Literal)
  | object (members : List (String × Literal))
  deriving Inhabited

namespace Literal

mutual

/-- The value of a literal where `given` assigns variables; none if a variable has no value. -/
def eval? (given : String → Option Value) : Literal → Option Value
  | reference name => given name
  | null => some .null
  | number n => some (.number n)
  | string s => some (.string s)
  | boolean b => some (.boolean b)
  | enum name => some (.enum name)
  | list items => (evalItems? given items).map .list
  | object members => (evalMembers? given members).map .object

/-- The values of the items of a list. -/
def evalItems? (given : String → Option Value) : List Literal → Option (List Value)
  | [] => some []
  | l :: rest => do return (← l.eval? given) :: (← evalItems? given rest)

/-- The values of the members of an object. -/
def evalMembers? (given : String → Option Value) :
    List (String × Literal) → Option (List (String × Value))
  | [] => some []
  | (name, l) :: rest => do return (name, ← l.eval? given) :: (← evalMembers? given rest)

end

mutual

/-- The variables that a literal refers to. -/
def references : Literal → List String
  | reference name => [name]
  | list items => referencesOfItems items
  | object members => referencesOfMembers members
  | _ => []

/-- The variables that the items of a list refer to. -/
def referencesOfItems : List Literal → List String
  | [] => []
  | l :: rest => l.references ++ referencesOfItems rest

/-- The variables that the members of an object refer to. -/
def referencesOfMembers : List (String × Literal) → List String
  | [] => []
  | (_, l) :: rest => l.references ++ referencesOfMembers rest

end

mutual

/-- Whether two literals are written alike: numbers are the same ones, and the members of objects
agree in any order. -/
def alike : Literal → Literal → Bool
  | reference a, reference b => a = b
  | null, null => true
  | number a, number b => a.same b
  | string a, string b => a = b
  | boolean a, boolean b => a = b
  | enum a, enum b => a = b
  | list as, list bs => alikeItems as bs
  | object as, object bs => as.length = bs.length && alikeMembers as bs
  | _, _ => false

/-- Whether the items of two lists are alike, one by one. -/
def alikeItems : List Literal → List Literal → Bool
  | [], [] => true
  | a :: as, b :: bs => a.alike b && alikeItems as bs
  | _, _ => false

/-- Whether each member has one of its name among `others` that is alike. -/
def alikeMembers : List (String × Literal) → List (String × Literal) → Bool
  | [], _ => true
  | (name, a) :: rest, others =>
    (match others.lookup name with
      | some b => a.alike b
      | none => false) && alikeMembers rest others

end

end Literal

/-- The written arguments of a field or a directive, in order. -/
abbrev Arguments := List (String × Literal)

/-- A directive with its arguments. -/
structure Directive where
  name : String
  arguments : Arguments
  deriving Inhabited

/-- A selected field without its own selections.  `remaining` counts the characters of the text from
the start of the field on. -/
structure FieldHead where
  label : Option String
  name : String
  arguments : Arguments
  directives : List Directive
  remaining : Nat
  deriving Inhabited

/-- The key under which a field is shown: its label, or else its name. -/
def FieldHead.key (f : FieldHead) : String := f.label.getD f.name

/-- A selection: a field, a fragment by its name, or a fragment in place. -/
inductive Selection where
  | field (head : FieldHead) (selections : List Selection)
  | spread (name : String) (directives : List Directive)
  | inline (condition : Option String) (directives : List Directive) (selections : List Selection)
  deriving Inhabited

/-- The declaration of a variable. -/
structure VariableDeclaration where
  name : String
  type : TypeRef
  directives : List Directive
  default : Option Value

namespace VariableDeclaration

/-- The type of a variable as its uses see it: one that can be null but has a default is never
null. -/
def effectiveType (v : VariableDeclaration) : TypeRef :=
  if v.default.isSome then v.type.required else v.type

/-- The value of a variable that none is given for: its default, or null if it can be null. -/
def fallback? (v : VariableDeclaration) : Option Value :=
  match v.default with
  | some value => some value
  | none => if v.type.isNonNull then none else some .null

end VariableDeclaration

/-- The kinds of operations. -/
inductive OperationKind where
  | query | mutation | subscription
  deriving DecidableEq, Repr

/-- An operation of a document. -/
structure Operation where
  kind : OperationKind
  name : Option String
  declarations : List VariableDeclaration
  directives : List Directive
  selections : List Selection

/-- A fragment with the type that it is on. -/
structure Fragment where
  name : String
  condition : String
  directives : List Directive
  selections : List Selection

/-- What a text defines: operations and fragments, in order. -/
structure Document where
  operations : List Operation
  fragments : List Fragment

namespace Document

/-- The fragment with a name. -/
def fragment? (d : Document) (name : String) : Option Fragment :=
  d.fragments.find? fun f => f.name = name

end Document

end Gazette
