import Gazette.Blog.Seed
import Gazette.Service.Options
import Gazette.Service.Transcript
import Std.Time.DateTime.Timestamp

/-!
# The service as a program

Reads the options, and then answers the messages on the lines of the input, one line for each.  New
posts are dated by the clock of the system.
-/

namespace Gazette.Main

/-- What the program prints in place of answers. -/
def usageMessage : UsageError → String
  | .valueValidation => "error: an option has a value that it does not accept"
  | .unknownArgument => "error: there is an argument that is not known"
  | .invalidValue => "error: an option has no value"
  | .argumentConflict => "error: an option is repeated"
  | .tooManyValues => "error: an option has a value and takes none"
  | .displayHelp => "Options: --host HOST, --port PORT, --no-graphiql, --empty, --help, --version"
  | .displayVersion => "gazette"

/-- What the clock of the system shows. -/
def systemTime : IO Instant := do
  let now ← Std.Time.Timestamp.now
  let nanos := now.toNanosecondsSinceUnixEpoch.val
  return ⟨nanos.fdiv Instant.nanosPerSecond, (nanos.fmod Instant.nanosPerSecond).toNat⟩

/-- A random number of 128 bits. -/
def randomBits : IO Nat := do
  let bytes ← IO.getRandomBytes 16
  return bytes.toList.foldl (fun n b => 256 * n + b.toNat) 0

/-- The store that a service starts with, empty or with the records of a new blog. -/
def newStore (isEmpty : Bool) : IO Store := do
  let now ← systemTime
  if isEmpty then return .empty now
  return Seed.store (.ofBits (← randomBits) (← randomBits) (← randomBits) (← randomBits)) now

/-- Answers the messages of the input up to its end. -/
partial def serve (page : Bool) (store : Store) (input output : IO.FS.Stream) : IO Unit := do
  let line ← input.getLine
  if line.isEmpty then return
  let (reply, store) := Service.answer page (.ofLine line) (store.setClock (← systemTime))
  output.putStrLn reply.line
  output.flush
  serve page store input output

end Gazette.Main

/-- Runs the service with the options of the command line. -/
def main (arguments : List String) : IO UInt32 := do
  match Gazette.Options.ofArguments arguments (← IO.getEnv Gazette.Options.portVariable) with
  | .error e =>
    IO.eprintln (Gazette.Main.usageMessage e)
    return if e = .displayHelp ∨ e = .displayVersion then 0 else 2
  | .ok options =>
    IO.eprintln ("Blog for " ++ options.address)
    Gazette.Main.serve (!options.noGraphiql) (← Gazette.Main.newStore options.empty)
      (← IO.getStdin) (← IO.getStdout)
    return 0
