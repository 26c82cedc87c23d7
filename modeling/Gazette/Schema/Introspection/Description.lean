import Gazette.Schema.BoundArguments

/-!
# Descriptions for introspection

What introspection says about the types that every schema has: the built-in scalars
(`Description.ofBuiltin?`), and the types that describe a schema with their fields and values.
-/

namespace Gazette.Introspection.Description

/-- The description of a built-in scalar; the type of ids has none. -/
def ofBuiltin? (name : String) : Option String :=
  if name = builtin.string then
    some ("The `String` scalar type represents textual data, represented as UTF-8\n" ++
      "character sequences. The String type is most often used by GraphQL to\n" ++
      "represent free-form human-readable text.")
  else if name = builtin.int then
    some "The `Int` scalar type represents non-fractional whole numeric values."
  else if name = builtin.float then
    some ("The `Float` scalar type represents signed double-precision fractional values as " ++
      "specified by [IEEE 754](https:" ++ "//en.wikipedia.org/wiki/IEEE_floating_point).")
  else if name = builtin.boolean then
    some "The `Boolean` scalar type represents `true` or `false`."
  else none

/-! ## Types -/

/-- The description of `__Schema`. -/
def schema : String :=
  "A GraphQL Schema defines the capabilities of a GraphQL server. It exposes\n" ++
    "all available types and directives on the server, as well as the entry\n" ++
    "points for query, mutation, and subscription operations."

/-- The description of `__Type`. -/
def type : String :=
  "The fundamental unit of any GraphQL Schema is the type. There are many kinds\n" ++
    "of types in GraphQL as represented by the `__TypeKind` enum.\n\n" ++
    "Depending on the kind of a type, certain fields describe information about\n" ++
    "that type. Scalar types provide no information beyond a name and\n" ++
    "description, while Enum types provide their values. Object and Interface\n" ++
    "types provide the fields they describe. Abstract types, Union and Interface,\n" ++
    "provide the Object types possible at runtime. List and NonNull types compose\n" ++
    "other types."

/-- The description of `__Field`. -/
def field : String :=
  "Object and Interface types are described by a list of Fields, each of which\n" ++
    "has a name, potentially a list of arguments, and a return type."

/-- The description of `__InputValue`. -/
def inputValue : String :=
  "Arguments provided to Fields or Directives and the input fields of an\n" ++
    "InputObject are represented as Input Values which describe their type and\n" ++
    "optionally a default value."

/-- The description of `__EnumValue`. -/
def enumValue : String :=
  "One possible value for a given Enum. Enum values are unique values, not a\n" ++
    "placeholder for a string or numeric value. However an Enum value is returned\n" ++
    "in a JSON response as a string."

/-- The description of `__Directive`. -/
def directive : String :=
  "A Directive provides a way to describe alternate runtime execution and type\n" ++
    "validation behavior in a GraphQL document.\n\n" ++
    "In some cases, you need to provide options to alter GraphQL's execution\n" ++
    "behavior in ways field arguments will not suffice, such as conditionally\n" ++
    "including or skipping a field. Directives provide this by describing\n" ++
    "additional information to the executor."

/-- The description of `__TypeKind`. -/
def typeKind : String := "An enum describing what kind of type a given `__Type` is."

/-- The description of `__DirectiveLocation`. -/
def directiveLocation : String :=
  "A Directive can be adjacent to many parts of the GraphQL language, a\n" ++
    "__DirectiveLocation describes one such possible adjacencies."

/-! ## The fields of a schema -/

/-- The description of the field `types`. -/
def types : String := "A list of all types supported by this server."

/-- The description of the field `queryType`. -/
def queryType : String := "The type that query operations will be rooted at."

/-- The description of the field `mutationType`. -/
def mutationType : String :=
  "If this server supports mutation, the type that mutation operations will\nbe rooted at."

/-- The description of the field `subscriptionType`. -/
def subscriptionType : String :=
  "If this server support subscription, the type that subscription\noperations will be rooted at."

/-- The description of the field `directives`. -/
def directives : String := "A list of all directives supported by this server."

/-! ## Values -/

/-- The descriptions of the kinds of types. -/
def kinds : Entries String :=
  [("SCALAR", "Indicates this type is a scalar."),
    ("OBJECT",
      "Indicates this type is an object. `fields` and `interfaces` are valid\nfields."),
    ("INTERFACE",
      "Indicates this type is an interface. `fields` and `possibleTypes` are\nvalid fields."),
    ("UNION", "Indicates this type is a union. `possibleTypes` is a valid field."),
    ("ENUM", "Indicates this type is an enum. `enumValues` is a valid field."),
    ("INPUT_OBJECT", "Indicates this type is an input object. `inputFields` is a valid field."),
    ("LIST", "Indicates this type is a list. `ofType` is a valid field."),
    ("NON_NULL", "Indicates this type is a non-null. `ofType` is a valid field.")]

/-- A place of directives with its description. -/
def place (name what : String) : String × String := (name, "Location adjacent to " ++ what ++ ".")

/-- The descriptions of the places where a directive may stand. -/
def places : Entries String :=
  [place "QUERY" "a query operation",
    place "MUTATION" "a mutation operation",
    place "SUBSCRIPTION" "a subscription operation",
    place "FIELD" "a field",
    place "FRAGMENT_DEFINITION" "a fragment definition",
    place "FRAGMENT_SPREAD" "a fragment spread",
    place "INLINE_FRAGMENT" "an inline fragment",
    place "VARIABLE_DEFINITION" "a variable definition",
    place "SCHEMA" "a schema definition",
    place "SCALAR" "a scalar definition",
    place "OBJECT" "an object type definition",
    place "FIELD_DEFINITION" "a field definition",
    place "ARGUMENT_DEFINITION" "an argument definition",
    place "INTERFACE" "an interface definition",
    place "UNION" "a union definition",
    place "ENUM" "an enum definition",
    place "ENUM_VALUE" "an enum value definition",
    place "INPUT_OBJECT" "an input object type definition",
    place "INPUT_FIELD_DEFINITION" "an input object field definition"]

end Gazette.Introspection.Description
