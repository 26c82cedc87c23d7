import Gazette.Request.Document.Reader
import Gazette.Request.Execution
import Gazette.Request.Validation
import Gazette.Schema

/-!
# Requests

A request is the text of a document, the name of the operation to run, and values for its variables.
`Schema.respond` reads the document, checks it, selects the operation, leaves out what directives
skip and runs the rest.  A request that is refused on the way changes nothing.
-/

namespace Gazette

/-- A request: the text of a document, the operation that it names, and the values of variables. -/
structure Request where
  query : String
  operation : Option String := none
  values : List (String × Value) := []

namespace Request

/-- The value that a request gives for a variable. -/
def given (request : Request) (name : String) : Option Value := request.values.lookup name

end Request

/-- The operation that a name selects.  Without a name there must be one operation only, and an
operation without a name cannot be selected by one. -/
def Document.select? (d : Document) : Option String → Option Operation
  | some name => d.operations.find? fun o => o.name = some name
  | none =>
    match d.operations with
    | [o] => some o
    | _ => none

namespace Schema

variable {σ ν : Type}

/-- What validation of a request sees of the schema. -/
def validationScope (schema : Schema σ ν) (request : Request) : Validation.Scope :=
  let r := schema.executable
  ⟨Outline.ofRegistry r, r.query, r.mutation, request.given⟩

/-- What a request runs: the root object and the selections of the operation, or why it is
refused. -/
structure Selected (σ ν : Type) where
  operation : Operation
  root : ObjectType σ ν
  plans : List Plan

/-- The root of a kind of operation; there is none for subscriptions. -/
def rootOf? (r : Registry σ ν) : OperationKind → Option (ObjectType σ ν)
  | .query => r.queryRoot?
  | .mutation => r.mutationRoot?
  | .subscription => none

/-- Reads and validates a request, and finds the operation to run. -/
def select (schema : Schema σ ν) (request : Request) :
    Except (List Issue) (Selected σ (Subject ν)) :=
  match Document.ofText? request.query with
  | none => .error [.unreadable]
  | some d =>
    match Validation.documentIssues (schema.validationScope request) d schema.depthLimit with
    | [] =>
      match d.select? request.operation with
      | none => .error [.noOperation request.operation]
      | some o =>
        match rootOf? schema.executable o.kind,
          Plan.expand d schema.depthLimit o.selections with
        | some root, some plans => .ok ⟨o, root, Plan.prune request.given plans⟩
        | none, _ => .error [.unsupported o.kind]
        | _, none => .error [.tooDeep schema.depthLimit]
    | issues => .error issues

/-- The response to a request, and the state after it. -/
def respond [Node ν] (schema : Schema σ ν) (request : Request) (s : σ) : Response × σ :=
  match schema.select request with
  | .error issues => (Response.refusal issues, s)
  | .ok selected =>
    Execution.respond
      ⟨schema.executable, .value schema.root, request.query.toList, request.given,
        selected.operation.declarations⟩
      selected.root selected.plans s

end Schema

end Gazette
