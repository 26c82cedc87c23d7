import Gazette.Schema.Completion
import Gazette.Schema.Introspection.Description
import Gazette.Schema.Outline

/-!
# Introspection

Requests can ask for the schema itself: the query root has the fields `__schema` and `__type`, and
there are types for what these give.  `Registry.withIntrospection` adds them to a registry, whose
values become subjects: values of the registry, or parts of the schema.  Introspection has
descriptions of its own for the built-in scalars.
-/

namespace Gazette

/-- A part of a schema that introspection tells about. -/
inductive Part where
  | schema
  | type (type : TypeRef)
  | field (outline : FieldOutline)
  | input (spec : ArgumentSpec)
  | value (name : String) (description : Option String)
  | directive (name description : String) (condition : ArgumentSpec)

/-- What fields are resolved on when a schema has introspection: a value, or a part of the
schema. -/
inductive Subject (ν : Type) where
  | value (value : ν)
  | part (part : Part)

/-- The name of the type of a part. -/
def Part.typeName : Part → String
  | schema => "__Schema"
  | type _ => "__Type"
  | field _ => "__Field"
  | input _ => "__InputValue"
  | value .. => "__EnumValue"
  | directive .. => "__Directive"

instance {ν : Type} [Node ν] : Node (Subject ν) where
  typeName
    | .value v => Node.typeName v
    | .part p => some p.typeName
  part
    | .value v, name => Node.part v name
    | .part _, _ => none

namespace Introspection

variable {σ ν : Type}

/-! ## Directives -/

/-- The argument that decides whether a directive applies. -/
def condition (description : String) : ArgumentSpec where
  name := "if"
  type := .namedNonNull builtin.boolean
  description := some description

/-- The directives of all schemas. -/
def directives : List Part :=
  [.directive "include"
      "Directs the executor to include this field or fragment only when the `if` argument is true."
      (condition "Included when true."),
    .directive "skip"
      "Directs the executor to skip this field or fragment when the `if` argument is true."
      (condition "Skipped when true.")]

/-- Where directives can be written. -/
def directiveLocations : List String := ["FIELD", "FRAGMENT_SPREAD", "INLINE_FRAGMENT"]

/-! ## Reading parts -/

/-- What introspection knows: the outlines of all types, the roots, and the names of the types that
can be seen. -/
structure Knowledge where
  outlines : List Outline
  query : String
  mutation : Option String
  visible : List String

/-- A text as a result, or null. -/
def optional (s : Option String) : FieldValue (Subject ν) := .leaf (.ofString? s)

/-- A list of parts. -/
def parts (ps : List Part) : FieldValue (Subject ν) := .nodes (ps.map .part)

/-- A list of the types with the given names. -/
def namedTypes (names : List String) : FieldValue (Subject ν) :=
  parts (names.map fun name => .type (.named name))

/-- The names among `names` that can be seen, each once. -/
def Knowledge.seen (k : Knowledge) (names : List String) : List String :=
  (names.filter k.visible.contains).eraseDups

/-- The outline of the type that a reference without wrappers names. -/
def Knowledge.outline? (k : Knowledge) : TypeRef → Option Outline
  | .named name => Outline.find? k.outlines name
  | _ => none

/-- The kind of a type: that of its outermost wrapper, or of the type it names. -/
def Knowledge.kind (k : Knowledge) : TypeRef → TypeKind
  | .nonNull _ => .nonNull
  | .list _ => .list
  | type => (k.outline? type).elim .scalar Outline.kind

/-- A list that a type has only if it is of one of the given kinds. -/
def Knowledge.ofKinds (k : Knowledge) (kinds : List TypeKind) (type : TypeRef)
    (read : Outline → FieldValue (Subject ν)) : FieldValue (Subject ν) :=
  match k.outline? type with
  | some o => if kinds.contains o.kind then read o else .null
  | none => .null

/-- What the field `name` of a part tells. -/
def Knowledge.read (k : Knowledge) (name : String) : Part → FieldValue (Subject ν)
  | .schema =>
    match name with
    | "types" => namedTypes (k.seen ((Outline.sortByName k.outlines).map Outline.name))
    | "queryType" => .node (.part (.type (.named k.query)))
    | "mutationType" => .optionalNode (k.mutation.map fun m => .part (.type (.named m)))
    | "directives" => parts directives
    | _ => .null
  | .type type =>
    match name with
    | "kind" => .leaf (.enum (k.kind type).name)
    | "name" => optional ((k.outline? type).map Outline.name)
    | "description" => optional ((k.outline? type).bind Outline.description)
    | "fields" => k.ofKinds [.object, .interface] type fun o =>
      parts ((o.fields.filter fun f => !Outline.isReserved f.name).map .field)
    | "interfaces" => k.ofKinds [.object] type fun o => namedTypes (k.seen o.implements)
    | "possibleTypes" => k.ofKinds [.interface] type fun o =>
      namedTypes (k.seen ((Outline.implementors k.outlines o.name).map Outline.name))
    | "enumValues" => k.ofKinds [.enum] type fun o =>
      parts (o.values.map fun value => .value value (o.valueDescriptions.lookup value))
    | "ofType" =>
      match type with
      | .nonNull inner | .list inner => .node (.part (.type inner))
      | .named _ => .null
    | _ => .null
  | .field f =>
    match name with
    | "name" => .string f.name
    | "description" => optional f.description
    | "args" => parts (f.arguments.map .input)
    | "type" => .node (.part (.type f.type))
    | "isDeprecated" => .leaf (.boolean false)
    | _ => .null
  | .input spec =>
    match name with
    | "name" => .string spec.name
    | "description" => optional spec.description
    | "type" => .node (.part (.type spec.type))
    | "defaultValue" => optional (spec.default.map Value.text)
    | _ => .null
  | .value value description =>
    match name with
    | "name" => .string value
    | "description" => optional description
    | "isDeprecated" => .leaf (.boolean false)
    | _ => .null
  | .directive title description condition =>
    match name with
    | "name" => .string title
    | "description" => .string description
    | "locations" => .list (directiveLocations.map fun l => .leaf (.enum l))
    | "args" => parts [.input condition]
    | "isRepeatable" => .leaf (.boolean false)
    | _ => .null

/-! ## Types -/

/-- The field `name` of the introspection types, read off the part of the schema it is asked of. -/
def partField (k : Knowledge) (name : String) (type : TypeRef)
    (arguments : List ArgumentSpec := []) (description : Option String := none) :
    Field σ (Subject ν) where
  name := name
  type := type
  description := description
  arguments := arguments
  role := .introspective
  resolver := some fun parent _ s =>
    match parent with
    | .part p => (.ok (k.read name p), s)
    | .value _ => (.ok .null, s)

/-- The argument that asks for deprecated members, too. -/
def includeDeprecated : ArgumentSpec where
  name := "includeDeprecated"
  type := .namedNonNull builtin.boolean
  default := some (.boolean false)

/-- The object and enum types of introspection. -/
def types (k : Knowledge) : List (NamedType σ (Subject ν)) :=
  let string := TypeRef.named builtin.string
  let requiredString := TypeRef.namedNonNull builtin.string
  let requiredBoolean := TypeRef.namedNonNull builtin.boolean
  let type := TypeRef.named "__Type"
  let requiredType := TypeRef.namedNonNull "__Type"
  let inputs := TypeRef.nonNullListNonNull "__InputValue"
  [.object {
      name := "__Schema"
      description := some Description.schema
      fields := [
        partField k "types" (.nonNullListNonNull "__Type") [] Description.types,
        partField k "queryType" requiredType [] Description.queryType,
        partField k "mutationType" type [] Description.mutationType,
        partField k "subscriptionType" type [] Description.subscriptionType,
        partField k "directives" (.nonNullListNonNull "__Directive") []
          Description.directives] },
    .object {
      name := "__Type"
      description := some Description.type
      fields := [
        partField k "kind" (.namedNonNull "__TypeKind"),
        partField k "name" string,
        partField k "description" string,
        partField k "fields" (.nonNullList "__Field") [includeDeprecated],
        partField k "interfaces" (.nonNullList "__Type"),
        partField k "possibleTypes" (.nonNullList "__Type"),
        partField k "enumValues" (.nonNullList "__EnumValue") [includeDeprecated],
        partField k "inputFields" (.nonNullList "__InputValue"),
        partField k "ofType" type,
        partField k "specifiedByURL" string,
        partField k "isOneOf" (.named builtin.boolean)] },
    .object {
      name := "__Field"
      description := some Description.field
      fields := [
        partField k "name" requiredString,
        partField k "description" string,
        partField k "args" inputs,
        partField k "type" requiredType,
        partField k "isDeprecated" requiredBoolean,
        partField k "deprecationReason" string] },
    .object {
      name := "__InputValue"
      description := some Description.inputValue
      fields := [
        partField k "name" requiredString,
        partField k "description" string,
        partField k "type" requiredType,
        partField k "defaultValue" string] },
    .object {
      name := "__EnumValue"
      description := some Description.enumValue
      fields := [
        partField k "name" requiredString,
        partField k "description" string,
        partField k "isDeprecated" requiredBoolean,
        partField k "deprecationReason" string] },
    .object {
      name := "__Directive"
      description := some Description.directive
      fields := [
        partField k "name" requiredString,
        partField k "description" string,
        partField k "locations" (.nonNullListNonNull "__DirectiveLocation"),
        partField k "args" inputs,
        partField k "isRepeatable" requiredBoolean] },
    .enum {
      name := "__TypeKind"
      description := some Description.typeKind
      values := Description.kinds.names
      valueDescriptions := Description.kinds },
    .enum {
      name := "__DirectiveLocation"
      description := some Description.directiveLocation
      values := Description.places.names
      valueDescriptions := Description.places }]

/-- The fields by which introspection is reached from the query root. -/
def rootFields (k : Knowledge) : List (Field σ (Subject ν)) :=
  [{ name := "__schema"
     type := .namedNonNull "__Schema"
     role := .gateway
     resolver := some fun _ _ s => (.ok (.node (.part .schema)), s) },
    { name := "__type"
      type := .named "__Type"
      role := .gateway
      arguments := [{ name := "name", type := .namedNonNull builtin.string }]
      resolver := some fun _ arguments s =>
        (do
          let name ← arguments.string "name"
          return if k.visible.contains name then .node (.part (.type (.named name))) else .null,
          s) }]

end Introspection

namespace Registry

variable {σ ν : Type}

/-- The outline of a type of a registry, where a built-in scalar has the description of
introspection. -/
def describedOutline (type : NamedType σ ν) : Outline :=
  let o := Outline.ofType type
  if isBuiltin o.name then
    { o with description := Introspection.Description.ofBuiltin? o.name }
  else o

/-- What introspection knows of a registry: its own types, and which types can be seen from the
roots. -/
def knowledge (r : Registry σ ν) : Introspection.Knowledge :=
  let own : List (NamedType σ (Subject ν)) := Introspection.types ⟨[], r.query, r.mutation, []⟩
  let outlines := r.types.map describedOutline ++ own.map Outline.ofType
  ⟨outlines, r.query, r.mutation, Outline.visible outlines (r.query :: r.mutation.toList)⟩

/-- A resolver on subjects; one that is not a value counts as `root`. -/
def liftResolver (root : ν) (resolve : Resolver σ ν) : Resolver σ (Subject ν) :=
  fun parent arguments s =>
    let parent := match parent with
      | .value v => v
      | .part _ => root
    let (result, s) := resolve parent arguments s
    (result.map fun v => v.map .value, s)

/-- A field whose resolver works on subjects. -/
def liftField (root : ν) (f : Field σ ν) : Field σ (Subject ν) where
  name := f.name
  type := f.type
  description := f.description
  arguments := f.arguments
  resolver := f.resolver.map (liftResolver root)

/-- A type whose fields are resolved on subjects, with further fields for the object `query`. -/
def liftType (root : ν) (query : String) (further : List (Field σ (Subject ν))) :
    NamedType σ ν → NamedType σ (Subject ν)
  | .scalar type => .scalar type
  | .enum type => .enum type
  | .interface type => .interface type
  | .object type => .object {
      name := type.name
      description := type.description
      implements := type.implements
      fields := type.fields.map (liftField root) ++ if type.name = query then further else [] }

/-- The registry with the types and the root fields of introspection, for the root value `root`. -/
def withIntrospection (r : Registry σ ν) (root : ν) : Registry σ (Subject ν) :=
  let k := r.knowledge
  ⟨r.types.map (liftType root r.query (Introspection.rootFields k)) ++ Introspection.types k,
    r.query, r.mutation⟩

end Registry

end Gazette
