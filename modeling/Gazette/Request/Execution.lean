import Gazette.Request.Merge
import Gazette.Request.Plan
import Gazette.Request.Response
import Gazette.Schema.Binding
import Gazette.Schema.Completion

/-!
# Execution

The fields of a selection set run one after the other, each with all that is below it (`execute`).
Every field and every item of a list is a position: an error at a position whose type can be null is
recorded and the position is null, and any other error goes on to the position around it.  Only a
field that leads from a value to the schema is none, and what it finds there belongs to the position
around it.  A run carries the state of the schema and the recorded errors, and what it has done to
them stays when it fails.
-/

namespace Gazette.Execution

/-- What a run changes: the state of the schema, and the errors recorded so far, in order. -/
structure Progress (σ : Type) where
  state : σ
  recorded : List ResponseError

/-- A computation that may record errors and may fail with one. -/
abbrev Run (σ α : Type) := Progress σ → Except ResponseError α × Progress σ

namespace Run

variable {σ α β : Type}

/-- The run that does nothing and has a result. -/
def done (a : α) : Run σ α := fun p => (.ok a, p)

/-- The run that does nothing and fails. -/
def fail (e : ResponseError) : Run σ α := fun p => (.error e, p)

/-- One run and then another that depends on its result. -/
def andThen (run : Run σ α) (next : α → Run σ β) : Run σ β := fun p =>
  match run p with
  | (.ok a, p) => next a p
  | (.error e, p) => (.error e, p)

/-- A run with its result mapped. -/
def mapResult (run : Run σ α) (f : α → β) : Run σ β := run.andThen fun a => done (f a)

/-- A run of a position of type `type` at `path`.  An error takes the path of the first position it
meets. -/
def position (type : TypeRef) (path : Path) (run : Run σ Value) : Run σ Value := fun p =>
  match run p with
  | (.ok value, p) => (.ok value, p)
  | (.error e, p) =>
    let e := { e with path := e.path.or (some path) }
    if type.isNonNull then (.error e, p)
    else (.ok .null, { p with recorded := p.recorded ++ [e] })

/-- Runs for the items of a list, one after the other, with their indices from `i` on. -/
def eachFrom (run : Nat → α → Run σ β) (i : Nat) : List α → Run σ (List β)
  | [] => done []
  | a :: rest => (run i a).andThen fun b => (eachFrom run (i + 1) rest).mapResult (b :: ·)

end Run

/-- What does not change during a run: the types, the root value, the text of the request, and the
given values and the declarations of variables. -/
structure Scope (σ ν : Type) where
  registry : Registry σ ν
  root : ν
  source : List Char
  given : String → Option Value
  declarations : List VariableDeclaration

namespace Scope

variable {σ ν : Type}

/-- The value of a variable: the one that is given, or else what the declaration falls back to. -/
def valueOf? (scope : Scope σ ν) (name : String) : Option Value :=
  (scope.declarations.find? fun v => v.name = name).bind fun v =>
    (scope.given v.name).or v.fallback?

/-- The first variable among names that has no value. -/
def firstUnbound (scope : Scope σ ν) (names : List String) : String :=
  (names.find? fun name => (scope.valueOf? name).isNone).getD ""

/-- The values of written arguments; an error if one needs a variable that has no value. -/
def written (scope : Scope σ ν) : Arguments → Except Issue (Entries Value)
  | [] => .ok []
  | (name, literal) :: rest =>
    match literal.eval? scope.valueOf? with
    | some value => do return (name, value) :: (← scope.written rest)
    | none => .error (.variableNotGiven (scope.firstUnbound literal.references))

end Scope

/-- Arguments with the declared defaults of those that are not there. -/
def withDefaults (specs : List ArgumentSpec) (arguments : Entries Value) : Entries Value :=
  arguments ++ specs.filterMap fun spec =>
    match spec.default with
    | some value => if arguments.has spec.name then none else some (spec.name, value)
    | none => none

variable {σ ν : Type} [Node ν]

/-- The result of a field on a value: that of its resolver, or else the part of its name. -/
def fieldResult (object : String) (field : Field σ ν) (parent : ν) (arguments : BoundArguments) :
    σ → Except FieldError (FieldValue ν) × σ :=
  match field.resolver with
  | some resolve => resolve parent arguments
  | none => fun s =>
    match Node.part parent field.name with
    | some value => (.ok (.leaf value), s)
    | none => (.error (.missingAttribute object field.name), s)

/-- Binds the arguments of a field, resolves it and completes the result. -/
def resolveField (registry : Registry σ ν) (object : String) (field : Field σ ν) (parent : ν)
    (arguments : Entries Value) (s : σ) : Except FieldError (Option (Completed ν)) × σ :=
  match registry.bind field.name field.arguments arguments with
  | .error e => (.error e, s)
  | .ok bound =>
    match fieldResult object field parent bound s with
    | (.error e, s) => (.error e, s)
    | (.ok result, s) => (registry.complete field.type result, s)

/-- Resolves a field of an object.  What is declared for it is looked up by the names of both. -/
def resolveDeclared (registry : Registry σ ν) (object field : String) (parent : ν)
    (arguments : Entries Value) (s : σ) : Except FieldError (Option (Completed ν)) × σ :=
  match registry.field? object field with
  | some declared => resolveField registry object declared parent arguments s
  | none => (.error (.unknownField object field), s)

section

variable {registry : Registry σ ν} {object : String} {field : Field σ ν}

theorem resolveField_of_bind {parent : ν} {arguments : Entries Value} {bound : BoundArguments}
    {result : FieldValue ν} {s s' : σ}
    (hbind : registry.bind field.name field.arguments arguments = .ok bound)
    (hresult : fieldResult object field parent bound s = (.ok result, s')) :
    resolveField registry object field parent arguments s =
      (registry.complete field.type result, s') := by
  rw [resolveField, hbind]
  simp only [hresult]

theorem resolveDeclared_eq (h : registry.field? object field.name = some field) :
    resolveDeclared registry object field.name = resolveField registry object field := by
  funext parent arguments s
  rw [resolveDeclared, h]

end

/-- Why there is an error when a field fails, which starts where `remaining` characters of the text
are left.  The failure of a field that tells about the schema lies in the request. -/
def causeOf (scope : Scope σ ν) (field : Field σ ν) (remaining : Nat) (e : FieldError) : Cause :=
  match field.role with
  | .ordinary => .field e (.ofRemaining scope.source remaining)
  | .gateway | .introspective => .request (.introspection e)

/-- The run of a field, which starts where `remaining` characters of the text are left, up to its
completed result. -/
def runField (scope : Scope σ ν) (object : String) (field : Field σ ν) (parent : ν)
    (arguments : Entries Value) (remaining : Nat) : Run σ (Option (Completed ν)) := fun p =>
  match resolveDeclared scope.registry object field.name parent arguments p.state with
  | (.ok result, s) => (.ok result, { p with state := s })
  | (.error e, s) => (.error ⟨causeOf scope field remaining e, none⟩, { p with state := s })

/-- How the selections inside a field run on an object. -/
abbrev Inside (σ ν : Type) := ObjectType σ ν → ν → Path → Run σ Value

/-- The run for a completed value of the type with a name.  A null among the items of a list has no
object of its own, so the selections of an object type run on the root value. -/
def presentNamed (scope : Scope σ ν) (inside : Inside σ ν) (name : String) (value : Completed ν)
    (path : Path) : Run σ Value :=
  match scope.registry.find? name, value with
  | some (.scalar _), .leaf v => .done v
  | some (.scalar _), .null => .done .null
  | some (.enum _), .leaf v => .done v
  | some (.object o), .node v => inside o v path
  | some (.object o), .null => inside o scope.root path
  | some (.interface _), .tagged tag v =>
    match scope.registry.object? tag with
    | some o => inside o v path
    | none => .fail ⟨.request (.unknownType tag), none⟩
  | _, _ => .fail ⟨.request (.nullItem name), none⟩

/-- The run for a completed value of a type; each item of a list is a position. -/
def present (scope : Scope σ ν) (inside : Inside σ ν) : TypeRef → Completed ν → Path → Run σ Value
  | .nonNull inner, value, path => present scope inside inner value path
  | .list item, value, path =>
    match value with
    | .list items =>
      (Run.eachFrom (fun i v =>
        let path := path ++ [.index i]
        Run.position item path (present scope inside item v path)) 0 items).mapResult .list
    | _ => .fail ⟨.request (.nullItem (TypeRef.list item).text), none⟩
  | .named name, value, path => presentNamed scope inside name value path

/-- The run for the values of written arguments. -/
def runWritten (scope : Scope σ ν) (arguments : Arguments) : Run σ (Entries Value) :=
  match scope.written arguments with
  | .ok values => .done values
  | .error issue => .fail ⟨.request issue, none⟩

/-- The run for a field with the values of its written arguments. -/
def runWith (scope : Scope σ ν) (inside : Inside σ ν) (object : String) (field : Field σ ν)
    (head : FieldHead) (parent : ν) (path : Path) (arguments : Entries Value) : Run σ Value :=
  (runField scope object field parent (withDefaults field.arguments arguments)
    head.remaining).andThen fun
      | some value => present scope inside field.type value path
      | none => .done .null

/-- The run for a field of an object at the path `around`.  Written arguments are evaluated before
the position of an ordinary field begins, so an error there belongs to the position around it. -/
def runAt (scope : Scope σ ν) (inside : Inside σ ν) (object : String) (field : Field σ ν)
    (head : FieldHead) (parent : ν) (around : Path) : Run σ Value :=
  let path := around ++ [.key head.key]
  let written := runWritten scope head.arguments
  let run := runWith scope inside object field head parent
  match field.role with
  | .ordinary => written.andThen fun values => Run.position field.type path (run path values)
  | .gateway => written.andThen (run around)
  | .introspective => Run.position field.type path (written.andThen (run path))

/-- Whether the selections of a fragment apply to an object. -/
def applies (object : ObjectType σ ν) : Option String → Bool
  | none => true
  | some condition => condition = object.name || object.isA condition

mutual

/-- The run of selections on a value of an object, one after the other, up to the first failure. -/
def executeAll (scope : Scope σ ν) (object : ObjectType σ ν) (parent : ν) (path : Path) :
    List Plan → Run σ (List (String × Value))
  | [] => .done []
  | p :: rest =>
    (executeOne scope object parent path p).andThen fun first =>
      (executeAll scope object parent path rest).mapResult (first ++ ·)

/-- The run of one selection on a value of an object. -/
def executeOne (scope : Scope σ ν) (object : ObjectType σ ν) (parent : ν) (path : Path) :
    Plan → Run σ (List (String × Value))
  | .field head plans =>
    if head.name = Plan.typeNameField then .done [(head.key, .string object.name)]
    else
      match object.field? head.name with
      | none => .done []
      | some field =>
        let inside := fun (o : ObjectType σ ν) (v : ν) (path : Path) =>
          (executeAll scope o v path plans).mapResult Value.ofSelections
        (runAt scope inside object.name field head parent path).mapResult
          fun value => [(head.key, value)]
  | .fragment _ condition _ plans =>
    if applies object condition then executeAll scope object parent path plans else .done []
  | .missing _ => .done []

end

/-- Runs selections on the root value.  A failure that no position has caught leaves no data. -/
def respond (scope : Scope σ ν) (object : ObjectType σ ν) (plans : List Plan) (s : σ) :
    Response × σ :=
  match executeAll scope object scope.root [] plans ⟨s, []⟩ with
  | (.ok results, p) => (⟨Value.ofSelections results, p.recorded⟩, p.state)
  | (.error e, p) => (⟨.null, e :: p.recorded⟩, p.state)

end Gazette.Execution
