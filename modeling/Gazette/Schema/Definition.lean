import Gazette.Schema.Registry
import Gazette.Text.Block

/-!
# Schema definitions

The text of a registry in the schema definition language (`Registry.definition`): the types in the
order of their registration, without the built-in scalars, and the names of the roots at the end.
-/

namespace Gazette

/-- The indentation of fields. -/
def fieldIndent : String := "  "

/-- The indentation of arguments that have descriptions. -/
def argumentIndent : String := "    "

/-- A text and the end of its line. -/
def line (text : String) : String := text ++ "\n"

/-- A description as a block string above what it describes. -/
def describe (indent : String) : Option String → String
  | some text => String.ofList (Text.Block.chars indent.toList text.toList)
  | none => ""

/-- The definition of an argument, without its description. -/
def ArgumentSpec.definition (spec : ArgumentSpec) : String :=
  spec.name ++ ": " ++ spec.type.text ++
    match spec.default with
    | some value => " = " ++ value.text
    | none => ""

/-- The definitions of arguments between parentheses: on lines of their own if one has a
description, and on one line if not. -/
def argumentDefinitions (specs : List ArgumentSpec) : String :=
  if specs.isEmpty then ""
  else if specs.any fun spec => spec.description.isSome then
    line "(" ++
      String.join (specs.map fun spec =>
        describe argumentIndent spec.description ++ line (argumentIndent ++ spec.definition)) ++
      fieldIndent ++ ")"
  else "(" ++ String.intercalate ", " (specs.map ArgumentSpec.definition) ++ ")"

/-- The definition of a field. -/
def Field.definition {σ ν : Type} (f : Field σ ν) : String :=
  describe fieldIndent f.description ++
    line (fieldIndent ++ f.name ++ argumentDefinitions f.arguments ++ ": " ++ f.type.text)

/-- The definition of a field of an interface. -/
def InterfaceField.definition (f : InterfaceField) : String :=
  describe fieldIndent f.description ++ line (fieldIndent ++ f.name ++ ": " ++ f.type.text)

/-- Lines in braces after a head. -/
def braced (head : String) (body : List String) : String :=
  line (head ++ " \x7b") ++ String.join body ++ line "\x7d"

namespace NamedType

variable {σ ν : Type}

/-- The definition of a type, without its description. -/
def body : NamedType σ ν → String
  | scalar type => line ("scalar " ++ type.name)
  | enum type =>
    braced ("enum " ++ type.name) (type.values.map fun value => line (fieldIndent ++ value))
  | object type =>
    let interfaces := if type.implements.isEmpty then ""
      else " implements " ++ String.intercalate " & " type.implements
    braced ("type " ++ type.name ++ interfaces) (type.fields.map Field.definition)
  | interface type =>
    braced ("interface " ++ type.name) (type.fields.map InterfaceField.definition)

/-- The definition of a type. -/
def definition (type : NamedType σ ν) : String := describe "" type.description ++ type.body

/-- Whether a type is one of the built-in scalars. -/
def isBuiltinScalar : NamedType σ ν → Bool
  | scalar type => Registry.isBuiltin type.name
  | _ => false

end NamedType

namespace Registry

variable {σ ν : Type}

/-- The types of a registry, without the built-in scalars. -/
def declaredTypes (r : Registry σ ν) : List (NamedType σ ν) :=
  r.types.filter fun type => !type.isBuiltinScalar

/-- The definition of the roots. -/
def rootDefinition (r : Registry σ ν) : String :=
  braced "schema" (line ("  query: " ++ r.query) ::
    (r.mutation.map fun name => line ("  mutation: " ++ name)).toList)

/-- The definition of all types and of the roots. -/
def definition (r : Registry σ ν) : String :=
  String.join (r.declaredTypes.map fun type => line type.definition) ++ r.rootDefinition

end Registry

end Gazette
