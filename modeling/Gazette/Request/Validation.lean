import Gazette.Request.Issue
import Gazette.Request.Plan
import Gazette.Schema.Outline

/-!
# Validation

A document is checked against the schema before any of it runs.  Every operation is checked with its
fragments written out (`Validation.operationIssues`), and the document as a whole for operations and
fragments that cannot be told apart or are not used (`Validation.documentIssues`).  The values that
the request gives to variables stand in for them where values are checked.
-/

namespace Gazette.Validation

/-- What a document is checked against: the types of the schema, its roots, and the given values of
variables. -/
structure Scope where
  outlines : List Outline
  query : String
  mutation : Option String
  given : String → Option Value

namespace Scope

/-- The outline of the type with a name. -/
def find? (scope : Scope) (name : String) : Option Outline := Outline.find? scope.outlines name

/-- The objects that a value of a type can be: those of an interface, or the object itself. -/
def possible (scope : Scope) (o : Outline) : List String :=
  match o.kind with
  | .interface => (Outline.implementors scope.outlines o.name).map Outline.name
  | .object => [o.name]
  | _ => []

/-- Whether some object can be of both types. -/
def overlap (scope : Scope) (a b : Outline) : Bool :=
  a.name = b.name || (scope.possible a).any (scope.possible b).contains

end Scope

/-- Whether a type has fields to select. -/
def isComposite (o : Outline) : Bool := o.kind = .object || o.kind = .interface

/-! ## Values -/

/-- Whether a built-in scalar has a value that is not null; other scalars have every value. -/
def scalarHas (name : String) (value : Value) : Bool :=
  if name = builtin.string then
    match value with
    | .string _ => true
    | _ => false
  else if name = builtin.int then
    match value with
    | .number n => n.toInt64?.isSome
    | _ => false
  else if name = builtin.float then
    match value with
    | .number _ => true
    | _ => false
  else if name = builtin.boolean then
    match value with
    | .boolean _ => true
    | _ => false
  else if name = builtin.id then
    match value with
    | .string _ => true
    | .number n => n.toInt64?.isSome
    | _ => false
  else true

/-- Whether the type with a name has a value that is not null. -/
def namedHas (scope : Scope) (name : String) (value : Value) : Bool :=
  match scope.find? name with
  | some o =>
    match o.kind with
    | .scalar => scalarHas o.name value
    | .enum => value.name?.elim false o.values.contains
    | _ => true
  | none => false

/-- Whether a type has a value.  A list type has a single value in place of a list. -/
def has (scope : Scope) : TypeRef → Value → Bool
  | .nonNull inner, value => !value.isNull && has scope inner value
  | .list item, value =>
    match value with
    | .null => true
    | .list items => items.all (has scope item)
    | single => has scope item single
  | .named name, value => value.isNull || namedHas scope name value

/-! ## Arguments -/

/-- The issue of the first name that is there twice, if there is one. -/
def repeatedIssues (issue : String → Issue) (names : List String) : List Issue :=
  ((Entries.firstRepeated names).map issue).toList

/-- The issues of the value of an argument.  It is not checked while a variable in it has no given
value. -/
def valueIssues (scope : Scope) (spec : ArgumentSpec) (literal : Literal) : List Issue :=
  match literal.eval? scope.given with
  | some value => if has scope spec.type value then [] else [.invalidValue spec.name]
  | none => []

/-- Issues of written arguments: repeated, unknown, unfit or missing ones. -/
def argumentIssues (scope : Scope) (specs : List ArgumentSpec) (arguments : Arguments) :
    List Issue :=
  repeatedIssues .repeatedArgument (arguments.map Prod.fst) ++
    arguments.flatMap (fun (name, literal) =>
      match specs.find? fun spec => spec.name = name with
      | some spec => valueIssues scope spec literal
      | none => [.unknownArgument name]) ++
    specs.flatMap fun spec =>
      if spec.isRequired ∧ spec.default.isNone ∧ (arguments.lookup spec.name).isNone then
        [.missingArgument spec.name]
      else []

/-! ## Directives -/

/-- The declared argument of the directives `include` and `skip`. -/
def conditionSpec : ArgumentSpec := { name := "if", type := .namedNonNull builtin.boolean }

/-- The arguments of a directive on a selection; none for a directive that there is not. -/
def directiveSpecs? (name : String) : Option (List ArgumentSpec) :=
  if name = "include" ∨ name = "skip" then some [conditionSpec] else none

/-- Issues of the directives of a selection. -/
def directiveIssues (scope : Scope) (directives : List Directive) : List Issue :=
  repeatedIssues .repeatedDirective (directives.map Directive.name) ++
    directives.flatMap fun d =>
      match directiveSpecs? d.name with
      | some specs => argumentIssues scope specs d.arguments
      | none => [.unknownDirective d.name]

/-- Issues of directives where none is allowed. -/
def misplacedIssues (directives : List Directive) : List Issue :=
  directives.map fun d => .misplacedDirective d.name

/-! ## Variables where they stand -/

/-- The type of the items of a list that may be marked as not null. -/
def itemType? : TypeRef → Option TypeRef
  | .nonNull inner => itemType? inner
  | .list item => some item
  | .named _ => none

mutual

/-- The variables of a literal with the types that are expected where they stand.  In objects, and
in lists where no list is expected, there is no expected type. -/
def uses (expected : TypeRef) : Literal → List (String × TypeRef)
  | .reference name => [(name, expected)]
  | .list items =>
    match itemType? expected with
    | some item => usesOfItems item items
    | none => []
  | _ => []

/-- The variables in the items of a list, with the types that are expected there. -/
def usesOfItems (expected : TypeRef) : List Literal → List (String × TypeRef)
  | [] => []
  | l :: rest => uses expected l ++ usesOfItems expected rest

end

/-- The variables in arguments, with the types that are expected there. -/
def usesOfArguments (specs : List ArgumentSpec) (arguments : Arguments) :
    List (String × TypeRef) :=
  arguments.flatMap fun (name, literal) =>
    match specs.find? fun spec => spec.name = name with
    | some spec => uses spec.type literal
    | none => []

/-- The variables in the arguments of directives, with the types that are expected there. -/
def usesOfDirectives (directives : List Directive) : List (String × TypeRef) :=
  directives.flatMap fun d => usesOfArguments ((directiveSpecs? d.name).getD []) d.arguments

/-- Whether a variable of type `actual` may stand where `expected` is asked for. -/
def fits : (expected actual : TypeRef) → Bool
  | .nonNull a, .nonNull b => fits a b
  | .named a, .nonNull b => fits (.named a) b
  | .named a, .named b => a = b
  | .list a, .list b => fits a b
  | _, _ => false

/-- Issues of variables that do not fit where they are used. -/
def useIssues (declarations : List VariableDeclaration) (used : List (String × TypeRef)) :
    List Issue :=
  used.flatMap fun (name, expected) =>
    match declarations.find? fun v => v.name = name with
    | some v =>
      if fits expected v.effectiveType then [] else [.misfitVariable name]
    | none => []

/-! ## Keys -/

/-- What stands under a key in a selection set: the type condition of the fragment around it, the
key, and the field. -/
structure Keyed where
  condition : Option String
  head : FieldHead

mutual

/-- The fields of a selection set, through its fragments but not into fields. -/
def keyed (condition : Option String) : List Plan → List Keyed
  | [] => []
  | p :: rest => keyedOne condition p ++ keyed condition rest

/-- The fields of one selection that are shown next to each other, with the types of their
fragments. -/
def keyedOne (condition : Option String) : Plan → List Keyed
  | .field head _ => [⟨condition, head⟩]
  | .fragment _ inner _ plans => keyed inner plans
  | .missing _ => []

end

/-- Whether two fields under one key are the same field with the same arguments. -/
def agree (a b : FieldHead) : Bool :=
  a.name = b.name && a.arguments.length = b.arguments.length &&
    a.arguments.all fun (name, literal) =>
      match b.arguments.lookup name with
      | some other => literal.alike other
      | none => false

/-- The issues of fields that differ from the first one under the same condition and key; `firsts`
holds the first ones so far. -/
def conflicts (firsts : List Keyed) : List Keyed → List Issue
  | [] => []
  | k :: rest =>
    match firsts.find? fun f => f.condition = k.condition && f.head.key = k.head.key with
    | some f =>
      (if agree f.head k.head then [] else [.conflict k.head.key]) ++ conflicts firsts rest
    | none => conflicts (firsts ++ [k]) rest

/-- Issues of fields that are shown under one key. -/
def keyIssues (plans : List Plan) : List Issue := conflicts [] (keyed none plans)

/-! ## Selections -/

/-- The issues of a field on its own: directives, arguments, the use of variables, and whether it
has selections where it needs them. -/
def fieldIssues (scope : Scope) (declarations : List VariableDeclaration) (head : FieldHead)
    (field : FieldOutline) (target : Outline) (plans : List Plan) : List Issue :=
  directiveIssues scope head.directives ++
    argumentIssues scope field.arguments head.arguments ++
    useIssues declarations
      (usesOfArguments field.arguments head.arguments ++ usesOfDirectives head.directives) ++
    if isComposite target = plans.isEmpty then [.selectionMismatch head.name] else []

mutual

/-- Issues of selections on a type. -/
def planIssues (scope : Scope) (declarations : List VariableDeclaration) (type : Outline) :
    List Plan → List Issue
  | [] => []
  | p :: rest => planIssuesOne scope declarations type p ++ planIssues scope declarations type rest

/-- The issues of one selection inside a type.  The field for the name of a type is not checked. -/
def planIssuesOne (scope : Scope) (declarations : List VariableDeclaration) (type : Outline) :
    Plan → List Issue
  | .field head plans =>
    if head.name = Plan.typeNameField then []
    else
      match type.fields.find? fun f => f.name = head.name with
      | none => [.unknownField type.name head.name]
      | some field =>
        match scope.find? field.type.baseName with
        | none => [.unknownType field.type.baseName]
        | some target =>
          fieldIssues scope declarations head field target plans ++ keyIssues plans ++
            planIssues scope declarations target plans
  | .fragment _ none directives plans =>
    directiveIssues scope directives ++ useIssues declarations (usesOfDirectives directives) ++
      keyIssues plans ++ planIssues scope declarations type plans
  | .fragment _ (some condition) directives plans =>
    match scope.find? condition with
    | none => [.unknownType condition]
    | some target =>
      directiveIssues scope directives ++ useIssues declarations (usesOfDirectives directives) ++
        (if isComposite target then [] else [.fragmentOnLeaf condition]) ++
        (if scope.overlap type target then [] else [.impossibleFragment type.name condition]) ++
        keyIssues plans ++ planIssues scope declarations target plans
  | .missing name => [.unknownFragment name]

end

/-! ## Operations -/

/-- The name of the scalar of uploaded files. -/
def uploadType : String := "Upload"

/-- The issues of the directives of a variable.  Only directives that selections may have must not
be repeated; others have no meaning here. -/
def variableDirectiveIssues (directives : List Directive) : List Issue :=
  repeatedIssues .repeatedDirective
    ((directives.map Directive.name).filter fun name => (directiveSpecs? name).isSome)

/-- Issues of the declaration of a variable. -/
def declarationIssues (scope : Scope) (kind : OperationKind) (v : VariableDeclaration) :
    List Issue :=
  match scope.find? v.type.baseName with
  | none => [.unknownType v.type.baseName]
  | some o =>
    (if isComposite o then [.notAnInputVariable v.name] else []) ++
      (if o.name = uploadType ∧ kind ≠ .mutation then [.misplacedUpload v.name] else []) ++
      variableDirectiveIssues v.directives ++
      match v.default with
      | some value => if !v.type.isNonNull && has scope v.type value then []
        else [.invalidDefault v.name]
      | none => []

/-- The issues of the variables of an operation, where `named` are the ones that its selections
name. -/
def variableIssues (scope : Scope) (o : Operation) (named : List String) : List Issue :=
  let declared := o.declarations.map VariableDeclaration.name
  repeatedIssues .repeatedVariable declared ++
    o.declarations.flatMap (declarationIssues scope o.kind) ++
    (declared.filter fun name => !named.contains name).map .unusedVariable ++
    (named.filter fun name => !declared.contains name).map .undeclaredVariable

/-- The name of the root of a kind of operation. -/
def root? (scope : Scope) : OperationKind → Option String
  | .query => some scope.query
  | .mutation => scope.mutation
  | .subscription => none

/-- How many selections may be nested in the text of one operation or fragment. -/
def writtenLimit : Nat := 64

/-- Issues of an operation, where selections are written out up to a limit. -/
def operationIssues (scope : Scope) (d : Document) (limit : Nat) (o : Operation) : List Issue :=
  match Plan.expand d limit o.selections with
  | none => [.tooDeep limit]
  | some plans =>
    misplacedIssues o.directives ++
      variableIssues scope o (Plan.references plans) ++
      (if limit < Plan.depth plans then [.tooDeep limit] else []) ++
      match (root? scope o.kind).bind scope.find? with
      | none => [.unsupported o.kind]
      | some root => keyIssues plans ++ planIssues scope o.declarations root plans

/-! ## Documents -/

/-- Whether selections are nested at most `limit` deep as they are written. -/
def writtenWithin (limit : Nat) (selections : List Selection) : Bool :=
  (Plan.expand ⟨[], []⟩ limit selections).isSome

/-- The names of the fragments that the operations of a document spread. -/
def usedFragments (d : Document) (limit : Nat) : List String :=
  d.operations.flatMap fun o => ((Plan.expand d limit o.selections).map Plan.fragments).getD []

/-- Issues of a fragment by itself. -/
def fragmentIssues (used : List String) (f : Fragment) : List Issue :=
  misplacedIssues f.directives ++
    (if writtenWithin writtenLimit f.selections then [] else [.tooDeep writtenLimit]) ++
    if used.contains f.name then [] else [.unusedFragment f.name]

/-- The issues of operations that cannot be told apart: two of one name, or one without a name
beside others. -/
def nameIssues (operations : List Operation) : List Issue :=
  if operations.isEmpty then [.noOperation none]
  else if 1 < operations.length ∧ operations.any fun o => o.name.isNone then [.ambiguousOperations]
  else if (Entries.firstRepeated (operations.filterMap Operation.name)).isSome then
    [.ambiguousOperations]
  else []

/-- All issues of a document. -/
def documentIssues (scope : Scope) (d : Document) (limit : Nat) : List Issue :=
  nameIssues d.operations ++
    repeatedIssues .repeatedFragment (d.fragments.map Fragment.name) ++
    d.fragments.flatMap (fragmentIssues (usedFragments d limit)) ++
    d.operations.flatMap fun o =>
      (if writtenWithin writtenLimit o.selections then [] else [.tooDeep writtenLimit]) ++
        operationIssues scope d limit o

end Gazette.Validation
