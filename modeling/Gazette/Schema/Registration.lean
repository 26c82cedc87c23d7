import Gazette.Schema.Binding

/-!
# Registration

A registry is made by registering types one after the other (`Registry.attempt`), which refuses
repeated names, and is then checked as a whole (`Registry.check`): roots are objects, names refer to
registered types, defaults coerce, and objects have the fields of their interfaces.
-/

namespace Gazette.Registry

variable {σ ν : Type}

/-! ## One type -/

/-- The first argument of a field whose name is repeated, as an error of its type. -/
def repeatedArgument? (typeName : String) (f : Field σ ν) : Option SchemaError :=
  (Entries.firstRepeated (f.arguments.map ArgumentSpec.name)).map
    (.duplicateArgument (typeName ++ "." ++ f.name))

/-- The first name that is repeated among the members of a type: of its values or fields, and then
of the arguments of its fields. -/
def repeatedMember? : NamedType σ ν → Option SchemaError
  | .scalar _ => none
  | .enum type => (Entries.firstRepeated type.values).map (.duplicateEnumValue type.name)
  | .object type =>
    match Entries.firstRepeated (type.fields.map Field.name) with
    | some field => some (.duplicateField type.name field)
    | none => type.fields.findSome? (repeatedArgument? type.name)
  | .interface type =>
    (Entries.firstRepeated (type.fields.map InterfaceField.name)).map (.duplicateField type.name)

/-- What comes of registering a type, and the registry after it.  Fails if the type repeats a name
among its members, and then if its own name is taken. -/
def attempt (r : Registry σ ν) (type : NamedType σ ν) : Except SchemaError Unit × Registry σ ν :=
  match repeatedMember? type with
  | some e => (.error e, r)
  | none =>
    if (r.find? type.name).isSome then (.error (.duplicateType type.name), r)
    else (.ok (), { r with types := r.types ++ [type] })

/-- The registry after a type is registered, to go on from; an error if that fails. -/
def register (r : Registry σ ν) (type : NamedType σ ν) : Except SchemaError (Registry σ ν) :=
  match r.attempt type with
  | (.ok (), r) => .ok r
  | (.error e, _) => .error e

/-- Registers types one after the other, up to the first one that fails. -/
def registerAll (r : Registry σ ν) : List (NamedType σ ν) → Except SchemaError (Registry σ ν)
  | [] => .ok r
  | type :: rest =>
    match r.register type with
    | .ok r => registerAll r rest
    | .error e => .error e

/-! ## The registry as a whole -/

/-- The type that a reference names; an error if there is none. -/
def resolve (r : Registry σ ν) (referencedBy : String) (type : TypeRef) :
    Except SchemaError (NamedType σ ν) :=
  match r.find? type.baseName with
  | some named => .ok named
  | none => .error (.unknownType referencedBy type.baseName)

/-- Checks a declared argument: its type is registered and an input type, and its default
coerces. -/
def checkArgument (r : Registry σ ν) (field : String) (spec : ArgumentSpec) :
    Except SchemaError Unit := do
  let named ← r.resolve (field ++ "(" ++ spec.name ++ ")") spec.type
  if !named.isInput then throw (.notAnInputType field spec.name named.name)
  match spec.default with
  | none => return ()
  | some value =>
    match r.coerce spec.type value with
    | .ok _ => return ()
    | .error e => throw (.invalidDefaultValue field spec.name e)

/-- Checks a field of an object: its type is registered, and its arguments are right. -/
def checkField (r : Registry σ ν) (object : String) (f : Field σ ν) : Except SchemaError Unit := do
  let field := object ++ "." ++ f.name
  let _ ← r.resolve field f.type
  f.arguments.forM (r.checkArgument field)

/-- Checks that an object has the field of an interface, with the same type. -/
def checkInterfaceField (o : ObjectType σ ν) (i : InterfaceType) (f : InterfaceField) :
    Except SchemaError Unit :=
  match o.field? f.name with
  | none => .error (.missingInterfaceField o.name i.name f.name)
  | some own =>
    if own.type = f.type then .ok ()
    else .error (.interfaceFieldTypeMismatch o.name i.name f.name f.type.text own.type.text)

/-- Checks that a name which an object implements is an interface whose fields the object has. -/
def checkImplements (r : Registry σ ν) (o : ObjectType σ ν) (name : String) :
    Except SchemaError Unit :=
  match r.find? name with
  | some (.interface i) => i.fields.forM (checkInterfaceField o i)
  | some _ => .error (.notAnInterface o.name name)
  | none => .error (.unknownType o.name name)

/-- Checks one type: an object's fields and then its interfaces, or an interface's fields. -/
def checkType (r : Registry σ ν) : NamedType σ ν → Except SchemaError Unit
  | .scalar _ | .enum _ => .ok ()
  | .object o => do
    o.fields.forM (r.checkField o.name)
    o.implements.forM (r.checkImplements o)
  | .interface i => i.fields.forM fun f => do
    let _ ← r.resolve (i.name ++ "." ++ f.name) f.type

/-- Checks that the name of a root is that of an object. -/
def checkRoot (r : Registry σ ν) (name : String) : Except SchemaError Unit :=
  if (r.object? name).isSome then .ok () else .error (.invalidRootType name)

/-- Checks the roots, and then every type in the order of registration. -/
def check (r : Registry σ ν) : Except SchemaError Unit := do
  r.checkRoot r.query
  r.mutation.forM r.checkRoot
  r.types.forM r.checkType

end Gazette.Registry
