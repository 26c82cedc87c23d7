import Gazette.Service.Address

/-!
# Options of the service

The service is started with options for its address, for the page of the query editor and for the
records it starts with.  Arguments are read from left to right up to the first that is wrong
(`Options.ofArguments`).  The port can also come from the environment.
-/

namespace Gazette

/-- The options of the service. -/
structure Options where
  host : IpAddress
  port : Nat
  noGraphiql : Bool
  empty : Bool
  deriving DecidableEq, Repr

/-- Why arguments make no options, or what they ask for instead. -/
inductive UsageError where
  /-- A value that the option does not accept. -/
  | valueValidation
  /-- An argument that there is not. -/
  | unknownArgument
  /-- An option without its value. -/
  | invalidValue
  /-- An option that is repeated. -/
  | argumentConflict
  /-- A value for an option that takes none. -/
  | tooManyValues
  | displayHelp
  | displayVersion
  deriving DecidableEq, Repr

namespace Options

/-- The name of the variable of the environment that holds the port. -/
def portVariable : String := "BLOG_SERVICE_PORT"

/-- The host to listen on when none is given. -/
def defaultHost : IpAddress := .v4 [127, 0, 0, 1]

/-- The port to listen on when none is given. -/
def defaultPort : Nat := 8080

/-- Reads a port: decimal digits, perhaps behind a sign, for a number from 0 to 65535. -/
def port? (source : String) : Option Nat := do
  let (negative, cs) := match source.toList with
    | '-' :: rest => (true, rest)
    | '+' :: rest => (false, rest)
    | cs => (false, cs)
  let n ← Number.ofDigits? cs
  if n < 65536 ∧ (negative → n = 0) then return n else none

/-- An option that takes a value. -/
inductive Setting where
  | host | port
  deriving DecidableEq, Repr

/-- The option that takes a value and has the given name. -/
def Setting.ofName? (name : String) : Option Setting :=
  if name = "--host" then some .host
  else if name = "--port" then some .port
  else none

/-- What the arguments read so far have set. -/
structure Draft where
  host : Option IpAddress := none
  port : Option Nat := none
  noGraphiql : Bool := false
  empty : Bool := false

namespace Draft

/-- Sets an option to a value; it must not be set before. -/
def set (d : Draft) (setting : Setting) (source : String) : Except UsageError Draft :=
  match setting with
  | .host =>
    if d.host.isSome then .error .argumentConflict
    else
      match IpAddress.ofText? source with
      | some host => .ok { d with host := some host }
      | none => .error .valueValidation
  | .port =>
    if d.port.isSome then .error .argumentConflict
    else
      match port? source with
      | some port => .ok { d with port := some port }
      | none => .error .valueValidation

/-- Sets the option that is waiting, if there is one; it must have got its value. -/
def settle (d : Draft) : Option (Setting × Option String) → Except UsageError Draft
  | none => .ok d
  | some (setting, some source) => d.set setting source
  | some (_, none) => .error .invalidValue

/-- Sets a flag, which must not be set before. -/
def setFlag (d : Draft) (isSet : Bool) (changed : Draft → Draft) : Except UsageError Draft :=
  if isSet then .error .argumentConflict else .ok (changed d)

end Draft

/-- The name of a long option and the value behind its equals sign, if there is one. -/
def splitOption (argument : String) : String × Option String :=
  let cs := argument.toList
  (String.ofList (cs.takeWhile (· ≠ '=')),
    match cs.dropWhile (· ≠ '=') with
    | _ :: value => some (String.ofList value)
    | [] => none)

/-- An argument of the command line. -/
inductive Argument where
  /-- Two hyphens: no options follow. -/
  | separator
  /-- An option by its long name, with the value behind an equals sign if there is one. -/
  | long (name : String) (value : Option String)
  /-- A hyphen and further characters, of which this is the first. -/
  | short (first : Char)
  | plain (source : String)

/-- What a text of the command line is. -/
def Argument.ofText (source : String) : Argument :=
  match source.toList with
  | ['-', '-'] => .separator
  | '-' :: '-' :: _ =>
    let (name, value) := splitOption source
    .long name value
  | '-' :: c :: _ => .short c
  | _ => .plain source

/-- Reads arguments.  An option whose value is not attached waits for the next argument, and is set
when a further option is recognised or the arguments end; an argument that is not recognised comes
first. -/
def readFrom (d : Draft) (waiting : Option (Setting × Option String)) :
    List String → Except UsageError Draft
  | [] => d.settle waiting
  | argument :: rest =>
    match Argument.ofText argument with
    | .separator => if rest.isEmpty then d.settle waiting else .error .unknownArgument
    | .short c =>
      if c = 'h' then do
        let _ ← d.settle waiting
        throw .displayHelp
      else if c = 'V' then do
        let _ ← d.settle waiting
        throw .displayVersion
      else .error .unknownArgument
    | .plain source =>
      match waiting with
      | some (setting, none) => readFrom d (some (setting, some source)) rest
      | _ => .error .unknownArgument
    | .long name value =>
      match Setting.ofName? name with
      | some setting => do
        let d ← d.settle waiting
        match value with
        | some source => readFrom (← d.set setting source) none rest
        | none => readFrom d (some (setting, none)) rest
      | none =>
        let flag := fun (run : Draft → Except UsageError Draft) =>
          if value.isSome then Except.error .tooManyValues
          else (d.settle waiting).bind run
        match name with
        | "--no-graphiql" => do
          let d ← flag fun d => d.setFlag d.noGraphiql fun d => { d with noGraphiql := true }
          readFrom d none rest
        | "--empty" => do
          let d ← flag fun d => d.setFlag d.empty fun d => { d with empty := true }
          readFrom d none rest
        | "--help" => flag fun _ => .error .displayHelp
        | "--version" => flag fun _ => .error .displayVersion
        | _ => .error .unknownArgument

/-- The options that arguments give, where `environment` is the port from the environment.  That one
is not looked at if the arguments give a port. -/
def ofArguments (arguments : List String) (environment : Option String) :
    Except UsageError Options := do
  let d ← readFrom {} none arguments
  let d ← match d.port, environment with
    | none, some source => d.set .port source
    | _, _ => pure d
  return ⟨d.host.getD defaultHost, d.port.getD defaultPort, d.noGraphiql, d.empty⟩

/-- The address to listen on. -/
def address (o : Options) : String := o.host.textWithPort o.port

end Options

end Gazette
