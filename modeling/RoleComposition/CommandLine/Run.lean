import RoleComposition.Audit
import RoleComposition.CommandLine.Help
import RoleComposition.Lifecycle
import RoleComposition.Manifest.Format
import RoleComposition.Manifest.FromToml

/-!
# Running a task

`start` takes a command line up to the point where the manifest's file has to be read, and
`Invocation.run` goes on with what the file holds: it reads the manifest, registers its roles with
stand-ins for their bodies, and either composes its types or audits its roles. The conclusion has
everything that the process will show.
-/

namespace RoleComposition

/-- Why a file has no text. -/
inductive FileFault where
  | missing
  | notDirectory
  | directory
  | nameTooLong
  | notText
  | other (message : String)
deriving DecidableEq, Repr

/-- The wording of a file's fault. -/
def FileFault.message : FileFault → String
  | missing => "No such file or directory (os error 2)"
  | notDirectory => "Not a directory (os error 20)"
  | directory => "Is a directory (os error 21)"
  | nameTooLong => "File name too long (os error 36)"
  | notText => "stream did not contain valid UTF-8"
  | other message => message

/-- How the process ends. -/
inductive Exit where
  | code (code : Nat)
  | aborted
deriving DecidableEq, Repr

/-- Everything that a run shows: its output, what it complains about, and the events it logged. -/
structure Conclusion where
  exit : Exit := .code 0
  output : String := ""
  complaint : Option String := none
  log : List LogEntry := []
deriving Repr

/-- What went wrong, and why. -/
structure Failure where
  message : String
  cause : Option String := none
deriving DecidableEq, Repr

namespace Failure

/-- The wording of a failure. A cause stands on lines of its own, each indented. -/
def text (f : Failure) : String :=
  "Error: " ++ f.message ++
    match f.cause with
    | some cause => "\n\nCaused by:\n    " ++ CommandLine.hanging 4 cause
    | none => ""

/-- The end of a run that fails, after some output. -/
def conclude (f : Failure) (log : List LogEntry) (output : String) : Conclusion :=
  { exit := .code 1, output, complaint := some f.text, log }

end Failure

namespace ManifestPath

/-- The name at the end of a path, unless it leads to a directory by its spelling. -/
def fileName (path : String) : Option (List Char) :=
  let parts := (path.splitOn "/").filter fun part => part != "" && part != "."
  (parts.getLast?.filter (· != "..")).map String.toList

/-- What follows the last dot of a name that does not begin with that dot. -/
def extension? (name : List Char) : Option (List Char) :=
  let (tail, rest) := name.reverse.span (· != '.')
  match rest with
  | '.' :: _ :: _ => some tail.reverse
  | _ => none

/-- The path names a TOML file; every other file holds JSON. -/
def isToml (path : String) : Bool :=
  ((fileName path).bind extension?).any fun e => e.map Char.toLower == ['t', 'o', 'm', 'l']

end ManifestPath

namespace EngineM

/-- Uses every declared type for the first time, and logs how many have failed. -/
def checkTypes (policy : FailurePolicy) : EngineM Unit := do
  let fatals ← ensureAll policy
  flushMetrics
  emit (.checkFinished (← get).types.length fatals.length)

end EngineM

namespace Invocation

/-- The settings of the environment, over which the command line prevails. -/
def settings (i : Invocation) (environment : String → Option String) : Except Failure Config :=
  match Config.ofEnvironment environment with
  | .ok config => .ok { config with storageCheck := i.storageCheck.getD config.storageCheck }
  | .error e => .error ⟨"Invalid rolecraft configuration", some e.message⟩

/-- Events below this severity are not logged. -/
def threshold (i : Invocation) : Severity := if i.verbose then .debug else .info

/-- The events that are logged. -/
def visible (i : Invocation) (log : List LogEntry) : List LogEntry :=
  log.filter fun l => i.threshold.rank ≤ l.event.severity.rank

/-- The manifest that a file holds. -/
def readManifest (i : Invocation) (file : Except FileFault String) : Except Failure Manifest :=
  match file with
  | .error fault => .error ⟨"Failed to read manifest " ++ i.manifest, some fault.message⟩
  | .ok text =>
    if ManifestPath.isToml i.manifest then
      match Manifest.ofTomlText? text with
      | some m => .ok m
      | none => .error ⟨"Failed to parse TOML manifest " ++ i.manifest, none⟩
    else
      match Manifest.ofText text with
      | .ok m => .ok m
      | .error _ => .error ⟨"Failed to parse JSON manifest " ++ i.manifest, none⟩

/-- Results in the format that was asked for. -/
def write {α : Type} (i : Invocation) (text : α → String) (json : α → Json) (results : List α) :
    String :=
  match i.format with
  | .text => String.join (results.map text)
  | .json => (Json.array (results.map json)).toPrettyText ++ "\n"

/-- The end of a run with its results, some of which may have failed. -/
def concludeWith (i : Invocation) (log : List LogEntry) (output : String) (failed all : Nat)
    (what : String) : Conclusion :=
  if failed = 0 then { output, log := i.visible log }
  else
    Failure.conclude ⟨toString failed ++ " of " ++ toString all ++ " " ++ what, none⟩
      (i.visible log) output

/-- Audits the roles of a registry. -/
def auditRoles (i : Invocation) (log : List LogEntry) (registry : Registry) : Conclusion :=
  let audits := registry.audit
  i.concludeWith log (i.write RoleAudit.render RoleAudit.toJson audits)
    (audits.countP RoleAudit.isFailed) audits.length "roles failed the audit"

/-- A report as a JSON value; the time of day at which the type settled is the one given. -/
def reportJson (time : String) (r : Report) : Json :=
  r.toJson (if r.settled then .text time else .null)

/-- Composes the types of an engine. A panic cannot come from stand-ins; its code is 101. -/
def composeTypes (i : Invocation) (time : String) (engine : Engine) : Conclusion :=
  match (EngineM.checkTypes engine.config.failurePolicy).run.run engine with
  | (.ok _, e) =>
    let reports := e.types.map TypeEntry.report
    i.concludeWith e.log (i.write Report.render (reportJson time) reports)
      (reports.countP Report.isFailed) reports.length "types failed composition"
  | (.error .abort, e) => { exit := .aborted, log := i.visible e.log }
  | (.error (.panic _), e) => { exit := .code 101, log := i.visible e.log }

/-- Composes the types of a manifest over its registered roles. -/
def check (i : Invocation) (config : Config) (time : String) (m : Manifest)
    (b : RegistryBuilder) : Conclusion :=
  let engine := { Engine.new b.freeze config with log := b.frozenLog }
  match m.declareTypes Catalog.ofStandIns engine with
  | (engine, none) => i.composeTypes time engine
  | (engine, some e) =>
    Failure.conclude ⟨"Failed to declare types", some e.message⟩ (i.visible engine.log) ""

/-- Carries out the task on what the manifest's file holds. -/
def run (i : Invocation) (config : Config) (time : String) (file : Except FileFault String) :
    Conclusion :=
  match i.readManifest file with
  | .error failure => failure.conclude [] ""
  | .ok m =>
    match m.install Catalog.ofStandIns (.ofConfig config) with
    | (b, some e) =>
      Failure.conclude ⟨"Failed to register roles", some e.message⟩ (i.visible b.log) ""
    | (b, none) =>
      match i.task with
      | .check => i.check config time m b
      | .audit => i.auditRoles b.frozenLog b.freeze

end Invocation

namespace CommandLine

/-- Takes a command line and the environment up to the reading of the manifest's file, or to the
end. -/
def start (args : List String) (environment : String → Option String) :
    Except Conclusion (Invocation × Config) :=
  let given := environment Config.storageCheckKey
  match read args given with
  | .error .version => .error { output := versionText }
  | .error (.help about) => .error { output := helpText given about }
  | .error .misuse => .error { exit := .code 2, complaint := some misuseText }
  | .ok i =>
    match i.settings environment with
    | .ok config => .ok (i, config)
    | .error failure => .error (failure.conclude [] "")

end CommandLine

end RoleComposition
