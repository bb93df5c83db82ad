import RoleComposition.CommandLine.Run
import Std.Time.Format

/-!
# The program

Reads the arguments, the environment, the manifest's file and the clock, lets the library decide,
and writes what it concludes.
-/

namespace RoleComposition

/-- What an error of the file system says about a file. -/
def FileFault.ofError : IO.Error → FileFault
  | .noFileOrDirectory .. => .missing
  | .inappropriateType _ _ details =>
    if details == "is a directory" then .directory else .notDirectory
  | .invalidArgument _ 36 _ => .nameTooLong
  | error => .other (toString error)

/-- What a file holds. -/
def readManifestFile (path : String) : IO (Except FileFault String) := do
  match ← (IO.FS.readBinFile path).toBaseIO with
  | .error error => return .error (FileFault.ofError error)
  | .ok bytes =>
    match String.fromUTF8? bytes with
    | some text => return .ok text
    | none => return .error .notText

/-- The variables of the environment that count. -/
def readEnvironment : IO (String → Option String) := do
  let storageCheck ← IO.getEnv Config.storageCheckKey
  let failurePolicy ← IO.getEnv Config.failurePolicyKey
  return fun key =>
    if key = Config.storageCheckKey then storageCheck
    else if key = Config.failurePolicyKey then failurePolicy
    else none

/-- The time of day. -/
def readClock : IO String := do
  let now ← Std.Time.Timestamp.now
  return (Std.Time.DateTime.ofTimestamp now Std.Time.TimeZone.ZoneRules.UTC).toISO8601String

/-- Shows a conclusion and gives its exit code; that of an aborted process is 134. -/
def Conclusion.report (c : Conclusion) (jsonLog : Bool) : IO UInt32 := do
  for entry in c.log do
    IO.eprintln (if jsonLog then entry.toJson.toText else entry.line)
  IO.print c.output
  match c.complaint with
  | some complaint => IO.eprintln complaint
  | none => pure ()
  match c.exit with
  | .code code => return code.toUInt32
  | .aborted => return 134

end RoleComposition

open RoleComposition in
/-- Runs the program. -/
def main (args : List String) : IO UInt32 := do
  match CommandLine.start args (← readEnvironment) with
  | .error conclusion => conclusion.report false
  | .ok (invocation, config) =>
    let file ← readManifestFile invocation.manifest
    (invocation.run config (← readClock) file).report invocation.jsonLog
