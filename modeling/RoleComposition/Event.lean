import RoleComposition.Error
import RoleComposition.Json

/-!
# Events

What registration, composition and first use report as they go. Each event has a severity and
named fields, and it is logged together with the types whose composition it falls into.
-/

namespace RoleComposition

/-- How much an event matters. -/
inductive Severity where
  | trace
  | debug
  | info
  | warn
  | error
deriving DecidableEq, Repr

namespace Severity

/-- The written name of a severity. -/
def text : Severity → String
  | trace => "TRACE"
  | debug => "DEBUG"
  | info => "INFO"
  | warn => "WARN"
  | error => "ERROR"

/-- Severities from the least to the greatest. -/
def rank : Severity → Nat
  | trace => 0
  | debug => 1
  | info => 2
  | warn => 3
  | error => 4

end Severity

/-- What an engine counts. -/
structure Metrics where
  mergesExecuted : Nat := 0
  compositionsFailed : Nat := 0
  conflictsDetected : Nat := 0
  candidatesVetoed : Nat := 0
deriving DecidableEq, Repr

/-- The counters that report each step. -/
inductive Counter where
  | mergesExecuted
  | compositionsFailed
deriving DecidableEq, Repr

/-- The written name of a counter. -/
def Counter.text : Counter → String
  | mergesExecuted => "merges_executed"
  | compositionsFailed => "compositions_failed"

/-- Something worth reporting. -/
inductive Event where
  | roleRegistered (role : RoleId) (provided required : Nat)
  | registryFrozen (roles : Nat)
  | counted (counter : Counter)
  | compositionStarted (typeName : String) (declaredRoles : Nat)
  | candidateVetoed (typeName : String) (role : RoleId) (signature : Signature)
  | conflictDetected (owner : Owner) (signature : Signature) (roles : List RoleId)
  | compositionFinished (typeName : String) (methods : Nat) (digest : String)
  | compositionFailed (typeName : String) (error : CompositionError)
  | compositionFatal (typeName : String) (error : CompositionError)
  | metricsFlushed (metrics : Metrics)
  | checkFinished (types failed : Nat)
deriving DecidableEq, Repr

namespace Event

/-- How much an event matters. -/
def severity : Event → Severity
  | counted _ => .trace
  | roleRegistered .. | candidateVetoed .. => .debug
  | registryFrozen _ | compositionStarted .. | compositionFinished .. | metricsFlushed _
  | checkFinished .. => .info
  | conflictDetected .. | compositionFailed .. => .warn
  | compositionFatal .. => .error

/-- The fields that begin with the name of an event. -/
def named (name : String) (fields : List (String × Json)) : List (String × Json) :=
  ("event", .text name) :: fields

/-- The fields of an event. -/
def fields : Event → List (String × Json)
  | roleRegistered role provided required => named "registry.registered"
    [("role", .text role.name), ("provided", .ofNat provided), ("required", .ofNat required)]
  | registryFrozen roles => named "registry.frozen" [("roles", .ofNat roles)]
  | counted counter =>
    [("message", .text "counter incremented"), ("metric", .text counter.text)]
  | compositionStarted typeName declaredRoles => named "composition.started"
    [("type_name", .text typeName), ("declared_roles", .ofNat declaredRoles)]
  | candidateVetoed typeName role signature => named "composition.vetoed"
    [("type_name", .text typeName), ("role", .text role.name), ("signature", .text signature.text)]
  | conflictDetected owner signature roles => named "composition.conflict"
    [("owner", .text owner.text), ("signature", .text signature.text),
      ("roles", .text (Text.quotedList (roles.map RoleId.name)))]
  | compositionFinished typeName methods digest => named "composition.finished"
    [("type_name", .text typeName), ("methods", .ofNat methods), ("digest", .text digest)]
  | compositionFailed typeName error => named "composition.failed"
    [("type_name", .text typeName), ("error", .text error.message)]
  | compositionFatal typeName error => named "composition.fatal"
    [("type_name", .text typeName), ("error", .text error.message)]
  | metricsFlushed m =>
    [("metric", .text "flush"), ("merges_executed", .ofNat m.mergesExecuted),
      ("compositions_failed", .ofNat m.compositionsFailed),
      ("conflicts_detected", .ofNat m.conflictsDetected),
      ("candidates_vetoed", .ofNat m.candidatesVetoed)]
  | checkFinished types failed =>
    [("message", .text "Composition check finished"), ("types", .ofNat types),
      ("failed", .ofNat failed)]

end Event

/-- An event with the types in whose composition it happened, the outermost first. -/
structure LogEntry where
  event : Event
  spans : List String := []
deriving DecidableEq, Repr

namespace LogEntry

/-- A log entry as a JSON value, with the innermost type. -/
def toJson (l : LogEntry) : Json :=
  .object [
    ("level", .text l.event.severity.text),
    ("span", .ofOption .text l.spans.getLast?),
    ("fields", .object l.event.fields)]

/-- A log entry as a line of text. -/
def line (l : LogEntry) : String :=
  " ".intercalate (l.event.severity.text :: l.spans.map (fun name => name ++ ":") ++
    l.event.fields.map fun f => f.1 ++ "=" ++ f.2.toText)

end LogEntry

end RoleComposition
