import Std.Time.DateTime
import ActionPolicy.CommandLine.Invocation

/-!
# The program

Reads arguments, variables, the file with the rule table and the clock, and prints the report.
-/

namespace ActionPolicy

/-- The variables of the environment that give values of options. -/
def readVariables : IO (List (String × String)) := do
  let names := Invocation.grammar.options.filterMap OptionDecl.envName
  let mut found := []
  for name in names do
    if let some value ← IO.getEnv name then
      found := (name, value) :: found
  return found

/-- Why the system could not read a file. -/
def fileError : IO.Error → FileError
  | .noFileOrDirectory .. => .missing
  | .permissionDenied .. => .denied
  | .inappropriateType _ code _ => if code = 21 then .isDirectory else .notDirectory
  | .invalidArgument .. => .nameTooLong
  | e => .unreadable (toString e)

/-- The file with the rule table, if the settings name one. -/
def readTableFile (arguments : List String) (environment : String → Option String) :
    IO (Except FileError ByteArray) := do
  match Invocation.read arguments environment with
  | .ok invocation =>
    match invocation.settings.tablePath with
    | some path =>
      try
        return .ok (← IO.FS.readBinFile path)
      catch e => return .error (fileError e)
    | none => return .error .missing
  | .error _ => return .error .missing

/-- The reading of the wall clock. The calendar begins long before it and ends long after it. -/
def readClock : IO Instant := do
  let now ← Std.Time.Timestamp.now
  return (Instant.ofNanos? now.toNanosecondsSinceUnixEpoch.val).getD .epoch

end ActionPolicy

open ActionPolicy

/-- Prints the report of the run. -/
def main (arguments : List String) : IO UInt32 := do
  let found ← readVariables
  let environment := fun name => found.lookup name
  let file ← readTableFile arguments environment
  let r := report arguments environment (fun _ => file) (← readClock)
  IO.print r.output
  if let some e := r.error then
    IO.eprintln ("Error: " ++ e)
  return r.exit
