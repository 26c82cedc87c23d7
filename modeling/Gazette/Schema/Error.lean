import Gazette.Blog.Store

/-!
# Errors of schemas and fields

The causes that can keep a registry from becoming a schema (`SchemaError`), a value from being
coerced to the type of an argument (`CoercionError`) and a field from being resolved (`FieldError`),
each with its message.  Errors of fields also have a code, which responses report.
-/

namespace Gazette

/-- A name between grave accents. -/
def ticked (name : String) : String := "`" ++ name ++ "`"

/-- The message that a name is not among the values of an enum. -/
def notAMemberMessage (typeName value : String) : String :=
  "Value " ++ ticked value ++ " is not a member of enum " ++ ticked typeName

/-- The message for a value of another type than expected. -/
def mismatchMessage (expected found : String) : String :=
  "Expected a value of type " ++ ticked expected ++ ", found " ++ found

/-- Why a value does not coerce to the type of an argument. -/
inductive CoercionError where
  | invalidEnumValue (typeName value : String)
  | mismatch (expected found : String)
  deriving DecidableEq, Repr

/-- The message of an error of coercion. -/
def CoercionError.message : CoercionError → String
  | invalidEnumValue typeName value => notAMemberMessage typeName value
  | mismatch expected found => mismatchMessage expected found

/-- Why the types of a registry make no schema. -/
inductive SchemaError where
  | duplicateType (name : String)
  | duplicateField (typeName field : String)
  | duplicateArgument (field argument : String)
  | duplicateEnumValue (typeName value : String)
  | unknownType (referencedBy typeName : String)
  | notAnInputType (field argument typeName : String)
  | invalidDefaultValue (field argument : String) (reason : CoercionError)
  | notAnInterface (object interface : String)
  | missingInterfaceField (object interface field : String)
  | interfaceFieldTypeMismatch (object interface field expected found : String)
  | invalidRootType (name : String)
  | notExecutable
  deriving DecidableEq, Repr

namespace SchemaError

/-- The message of an error.  A registry that cannot be executed has no message of its own. -/
def message : SchemaError → String
  | duplicateType name => "Type " ++ ticked name ++ " is registered more than once"
  | duplicateField typeName field =>
    "Field " ++ ticked field ++ " is declared more than once in type " ++ ticked typeName
  | duplicateArgument field argument =>
    "Argument " ++ ticked argument ++ " is declared more than once in field " ++ ticked field
  | duplicateEnumValue typeName value =>
    "Value " ++ ticked value ++ " is declared more than once in enum " ++ ticked typeName
  | unknownType referencedBy typeName =>
    ticked referencedBy ++ " refers to the unknown type " ++ ticked typeName
  | notAnInputType field argument typeName =>
    "Argument " ++ ticked argument ++ " of field " ++ ticked field ++ " has type " ++
      ticked typeName ++ ", which is not an input type"
  | invalidDefaultValue field argument reason =>
    "Default value of argument " ++ ticked argument ++ " of field " ++ ticked field ++
      " is invalid: " ++ reason.message
  | notAnInterface object interface =>
    "Type " ++ ticked object ++ " implements " ++ ticked interface ++
      ", which is not an interface"
  | missingInterfaceField object interface field =>
    "Type " ++ ticked object ++ " implements " ++ ticked interface ++ " but has no field " ++
      ticked field
  | interfaceFieldTypeMismatch object interface field expected found =>
    "Field " ++ ticked (object ++ "." ++ field) ++ " has type " ++ ticked found ++
      " but interface " ++ ticked interface ++ " declares " ++ ticked expected
  | invalidRootType name => "Root type " ++ ticked name ++ " is not a registered object type"
  | notExecutable => ""

end SchemaError

/-- Why a field could not be resolved. -/
inductive FieldError where
  | missingArgument (field argument : String)
  | invalidEnumValue (typeName value : String)
  | invalidArgument (field argument expected found : String)
  | unknownArgument (field argument : String)
  | resolutionError (interface : String)
  | unknownField (typeName field : String)
  | missingAttribute (typeName field : String)
  | typeMismatch (expected found : String)
  | nullValue (typeName : String)
  | store (error : StoreError)
  deriving DecidableEq, Repr

namespace FieldError

/-- The message of an error of a field. -/
def message : FieldError → String
  | missingArgument field argument =>
    "Field " ++ ticked field ++ " is missing required argument " ++ ticked argument
  | invalidEnumValue typeName value => notAMemberMessage typeName value
  | invalidArgument field argument expected found =>
    "Argument " ++ ticked argument ++ " of field " ++ ticked field ++ " expects type " ++
      ticked expected ++ ", found " ++ found
  | unknownArgument field argument =>
    "Field " ++ ticked field ++ " has no argument " ++ ticked argument
  | resolutionError interface =>
    "Could not resolve the concrete type of a value of interface " ++ ticked interface
  | unknownField typeName field => "Type " ++ ticked typeName ++ " has no field " ++ ticked field
  | missingAttribute typeName field =>
    "Value of type " ++ ticked typeName ++ " has no attribute " ++ ticked field
  | typeMismatch expected found => mismatchMessage expected found
  | nullValue typeName => "Cannot return null for non-null type " ++ ticked typeName
  | store error => error.message

/-- The code of an error of a field. -/
def code : FieldError → String
  | missingArgument .. => "MISSING_ARGUMENT"
  | invalidEnumValue .. => "INVALID_ENUM_VALUE"
  | invalidArgument .. => "INVALID_ARGUMENT"
  | unknownArgument .. => "UNKNOWN_ARGUMENT"
  | resolutionError _ => "RESOLUTION_ERROR"
  | unknownField .. => "UNKNOWN_FIELD"
  | missingAttribute .. => "MISSING_ATTRIBUTE"
  | typeMismatch .. => "TYPE_MISMATCH"
  | nullValue _ => "NULL_VALUE"
  | store error => error.code

end FieldError

end Gazette
