import Gazette.Request.Document

/-!
# Plans

A plan is a selection with its fragments written out (`Plan.expand`), which is how requests are
checked and run.  Expansion fails where selections are nested deeper than a limit; so it ends for
fragments that refer to themselves, too.
-/

namespace Gazette

/-- A selection with its fragments written out.  `fragment` holds the name of the fragment, unless
it stands in place, and `missing` stands for a name that no fragment has. -/
inductive Plan where
  | field (head : FieldHead) (plans : List Plan)
  | fragment (name : Option String) (condition : Option String) (directives : List Directive)
      (plans : List Plan)
  | missing (name : String)
  deriving Inhabited

namespace Plan

/-- The name of the field that gives the name of an object's type. -/
def typeNameField : String := "__typename"

/-! ## Expansion -/

/-- Writes out one selection, given how to write out the selections inside it. -/
def expandOne (d : Document) (inside : List Selection → Option (List Plan)) :
    Selection → Option Plan
  | .field head [] => some (.field head [])
  | .field head selections => (inside selections).map (.field head)
  | .spread name directives =>
    match d.fragment? name with
    | some f => (inside f.selections).map (.fragment (some name) (some f.condition) directives)
    | none => some (.missing name)
  | .inline condition directives selections =>
    (inside selections).map (.fragment none condition directives)

/-- Writes out selections that have at most `limit` levels of selections inside them. -/
def expand (d : Document) : (limit : Nat) → List Selection → Option (List Plan)
  | 0, selections => selections.mapM (expandOne d fun _ => none)
  | limit + 1, selections => selections.mapM (expandOne d (expand d limit))

/-! ## Depth -/

mutual

/-- How deep fields are nested; fragments do not count, and neither does the field for the name of a
type. -/
def depth : List Plan → Nat
  | [] => 0
  | p :: rest => max p.depthOne (depth rest)

/-- How deep fields are nested in one selection. -/
def depthOne : Plan → Nat
  | field head plans => if head.name = typeNameField then 0 else depth plans + 1
  | fragment _ _ _ plans => depth plans
  | missing _ => 0

end

/-! ## Fragments and variables -/

mutual

/-- The names of the fragments that selections spread, at any depth. -/
def fragments : List Plan → List String
  | [] => []
  | p :: rest => p.fragmentsOne ++ fragments rest

/-- The names of the fragments that one selection spreads. -/
def fragmentsOne : Plan → List String
  | field head plans => if head.name = typeNameField then [] else fragments plans
  | fragment name _ _ plans => name.toList ++ fragments plans
  | missing name => [name]

end

/-- The literals of arguments. -/
def literals (arguments : Arguments) : List Literal := arguments.map Prod.snd

/-- The variables that arguments and directives refer to. -/
def referencesAt (arguments : Arguments) (directives : List Directive) : List String :=
  (literals arguments ++ directives.flatMap fun d => literals d.arguments).flatMap
    Literal.references

mutual

/-- The variables that selections refer to, at any depth. -/
def references : List Plan → List String
  | [] => []
  | p :: rest => p.referencesOne ++ references rest

/-- The variables that one selection refers to. -/
def referencesOne : Plan → List String
  | field head plans =>
    if head.name = typeNameField then []
    else referencesAt head.arguments head.directives ++ references plans
  | fragment _ _ directives plans => referencesAt [] directives ++ references plans
  | missing _ => []

end

/-! ## Skipped selections -/

/-- Whether a directive leaves its selection out: it skips on a true condition, or it includes on
one that is not true.  A condition that no given value makes true is not true. -/
def leavesOut (given : String → Option Value) (d : Directive) : Bool :=
  match d.arguments.lookup "if" with
  | none => false
  | some literal =>
    let condition := match literal.eval? given with
      | some (.boolean b) => b
      | _ => false
    if d.name = "skip" then condition else d.name = "include" && !condition

/-- Whether no directive leaves a selection out. -/
def isKept (given : String → Option Value) (directives : List Directive) : Bool :=
  directives.all fun d => !leavesOut given d

mutual

/-- The plans without the selections that directives leave out. -/
def prune (given : String → Option Value) : List Plan → List Plan
  | [] => []
  | p :: rest => p.pruneOne given ++ prune given rest

/-- What directives leave of one selection. -/
def pruneOne (given : String → Option Value) : Plan → List Plan
  | field head plans =>
    if isKept given head.directives then [field head (prune given plans)] else []
  | fragment name condition directives plans =>
    if isKept given directives then [fragment name condition directives (prune given plans)] else []
  | missing name => [missing name]

end

end Plan

end Gazette
