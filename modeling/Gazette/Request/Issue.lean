import Gazette.Request.Document
import Gazette.Schema.Error

/-!
# Issues

What can be wrong with a request, other than the failure of a field of the schema: the text is no
document, the document breaks a rule of the schema, or a value that only the request can give is
missing or wrong.
-/

namespace Gazette

/-- Something wrong with a request. -/
inductive Issue where
  | unreadable
  /-- No operation has the name, or the request does not say which one it means. -/
  | noOperation (name : Option String)
  | ambiguousOperations
  | repeatedFragment (name : String)
  | tooDeep (limit : Nat)
  | unsupported (kind : OperationKind)
  | unknownType (name : String)
  | unknownField (type name : String)
  | unknownFragment (name : String)
  | unknownArgument (name : String)
  | unknownDirective (name : String)
  | misplacedDirective (name : String)
  | repeatedDirective (name : String)
  | repeatedArgument (name : String)
  | repeatedVariable (name : String)
  | missingArgument (name : String)
  | invalidValue (argument : String)
  | unusedFragment (name : String)
  /-- A fragment on a type without fields. -/
  | fragmentOnLeaf (type : String)
  /-- A fragment that no value of the type around it fits. -/
  | impossibleFragment (type condition : String)
  /-- Selections inside a field that has none, or none inside one that needs them. -/
  | selectionMismatch (field : String)
  | conflict (key : String)
  | unusedVariable (name : String)
  | undeclaredVariable (name : String)
  | notAnInputVariable (name : String)
  /-- A variable whose type does not fit where it stands. -/
  | misfitVariable (name : String)
  | invalidDefault (name : String)
  /-- A variable for uploads outside a mutation. -/
  | misplacedUpload (name : String)
  /-- A variable that the request gives no value and that cannot be null. -/
  | variableNotGiven (name : String)
  /-- A null where the type has no way to show one. -/
  | nullItem (type : String)
  /-- A field that tells about the schema failed. -/
  | introspection (error : FieldError)
  deriving Repr

/-- A name in quotes. -/
def quotedName (name : String) : String := "\"" ++ name ++ "\""

/-- The keyword of a kind of operation. -/
def OperationKind.name : OperationKind → String
  | query => "query"
  | mutation => "mutation"
  | subscription => "subscription"

/-- The message of an issue. -/
def Issue.message : Issue → String
  | unreadable => "The query cannot be read"
  | noOperation (some name) => "There is no operation " ++ quotedName name
  | noOperation none => "The request does not say which operation to run"
  | ambiguousOperations => "Operations cannot be told apart by their names"
  | repeatedFragment name => "There are two fragments " ++ quotedName name
  | tooDeep limit => "Selections are nested deeper than " ++ String.ofList (Number.digits limit)
  | unsupported kind => "The schema has no operations of the kind " ++ kind.name
  | unknownType name => "There is no type " ++ quotedName name
  | unknownField type name => "The type " ++ quotedName type ++ " has no field " ++ quotedName name
  | unknownFragment name => "There is no fragment " ++ quotedName name
  | unknownArgument name => "There is no argument " ++ quotedName name
  | unknownDirective name => "There is no directive " ++ quotedName name
  | misplacedDirective name => "The directive " ++ quotedName name ++ " cannot stand here"
  | repeatedDirective name => "The directive " ++ quotedName name ++ " is repeated"
  | repeatedArgument name => "The argument " ++ quotedName name ++ " is repeated"
  | repeatedVariable name => "The variable " ++ quotedName name ++ " is declared twice"
  | missingArgument name => "The argument " ++ quotedName name ++ " is missing"
  | invalidValue argument => "The argument " ++ quotedName argument ++ " cannot have this value"
  | unusedFragment name => "The fragment " ++ quotedName name ++ " is not used"
  | fragmentOnLeaf type => "The type " ++ quotedName type ++ " has no fields for a fragment"
  | impossibleFragment type condition =>
    "No value of the type " ++ quotedName type ++ " fits a fragment on " ++ quotedName condition
  | selectionMismatch field => "The field " ++ quotedName field ++
      " has selections and needs none, or needs selections and has none"
  | conflict key => "The key " ++ quotedName key ++ " stands for two fields"
  | unusedVariable name => "The variable " ++ quotedName name ++ " is not used"
  | undeclaredVariable name => "The variable " ++ quotedName name ++ " is not declared"
  | notAnInputVariable name => "The variable " ++ quotedName name ++ " is not of an input type"
  | misfitVariable name => "The variable " ++ quotedName name ++ " does not fit where it stands"
  | invalidDefault name => "The variable " ++ quotedName name ++ " cannot have this default"
  | misplacedUpload name => "The variable " ++ quotedName name ++ " holds an upload"
  | variableNotGiven name => "The variable " ++ quotedName name ++ " has no value"
  | nullItem type => "There is no null of the type " ++ quotedName type
  | introspection error => error.message

end Gazette
