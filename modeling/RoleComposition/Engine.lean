import RoleComposition.Capability
import RoleComposition.Closure

/-!
# The engine and its steps

An engine holds a registry, settings and the declared types, each with the slot of its
composition. Its steps change it, log events, and may halt: a panic unwinds through the steps that
are under way, and an abort ends the process.
-/

namespace RoleComposition

/-- A declared type with the slot of its composition. The slot's outcome is published after the
type is marked as settled. -/
structure TypeEntry where
  definition : AdoptingType
  slot : Slot MethodTable := .vacant
  settled : Bool := false

namespace TypeEntry

/-- The report of a type. -/
def report (t : TypeEntry) : Report :=
  (Report.pending t.definition.name t.definition.declaredRoles t.settled t.slot.state).withOutcome
    t.slot.outcome?

/-- What a hook sees of a type. -/
def observe (t : TypeEntry) : Observation := ⟨t.slot.state, t.slot.outcome?, t.report⟩

end TypeEntry

/-- A question that a hook was asked. -/
structure Question where
  typeName : String
  entry : Level
  role : RoleId
  signature : Signature
deriving DecidableEq, Repr

/-- A registry with types declared over it. -/
structure Engine where
  registry : Registry
  config : Config := {}
  types : List TypeEntry := []
  metrics : Metrics := {}
  log : List LogEntry := []
  spans : List String := []
  questions : List Question := []
  notes : List Note := []

/-- A declared type's place and name. -/
structure Handle where
  index : Nat
  name : String
deriving DecidableEq, Repr

namespace Engine

/-- The engine without types. -/
def new (registry : Registry) (config : Config) : Engine := { registry, config }

/-- The entry of a type. -/
def find? (e : Engine) (name : String) : Option TypeEntry :=
  e.types.find? fun t => t.definition.name == name

/-- The entry of a type, or the error that no such type is declared. -/
def entry (e : Engine) (name : String) : Except CompositionError TypeEntry :=
  match e.find? name with
  | some t => .ok t
  | none => .error (.unknownType name)

/-- Declares a type under a new name. -/
def declare (e : Engine) (t : AdoptingType) : Except CompositionError (Handle × Engine) :=
  if (e.find? t.name).isSome then .error (.duplicateType t.name)
  else .ok (⟨e.types.length, t.name⟩, { e with types := e.types ++ [{ definition := t }] })

/-- The handles of the declared types, in the order of their declaration. -/
def handles (e : Engine) : List Handle :=
  e.types.zipIdx.map fun (t, index) => ⟨index, t.definition.name⟩

/-- The handle of a type. -/
def handle (e : Engine) (name : String) : Except CompositionError Handle :=
  match e.types.findIdx? fun t => t.definition.name == name with
  | some index => .ok ⟨index, name⟩
  | none => .error (.unknownType name)

/-- The handle at a place. -/
def handleAt (e : Engine) (index : Nat) : Option Handle :=
  e.types[index]?.map fun t => ⟨index, t.definition.name⟩

/-- The engine with another entry for a type. -/
def updateEntry (e : Engine) (name : String) (f : TypeEntry → TypeEntry) : Engine :=
  { e with types := e.types.map fun t => if t.definition.name = name then f t else t }

/-- The number of types whose composition has not been started. -/
def vacantTypes (e : Engine) : Nat := e.types.countP fun t => t.slot.isVacant

/-- What a hook sees of a type. -/
def observe (e : Engine) (name : String) : Except CompositionError Observation :=
  (e.entry name).map TypeEntry.observe

/-- Where a type's composition stands. -/
def state (e : Engine) (name : String) : Except CompositionError CompositionState :=
  (e.entry name).map fun t => t.slot.state

/-- The outcome of a type's composition, once there is one. -/
def outcome (e : Engine) (name : String) : Except CompositionError (Option Outcome) :=
  (e.entry name).map fun t => t.slot.outcome?

/-- The methods of a composed type. -/
def effectiveMethods (e : Engine) (name : String) : Except CompositionError (Option MethodTable) :=
  (e.outcome name).map fun outcome => outcome.bind Except.toOption

/-- The report of a type. -/
def report (e : Engine) (name : String) : Except CompositionError Report :=
  (e.entry name).map TypeEntry.report

/-- Calls a method of a type. Up to `depth` calls may stand within each other. -/
def dispatch (e : Engine) (depth : Nat) (name : String) (s : Signature) (receiver : Json)
    (args : List Json) : CallOutcome :=
  match (e.find? name).bind fun t => t.slot.outcome? with
  | none => .failed (.notComposed name)
  | some (.error cause) => .failed (.unusable name cause)
  | some (.ok table) => table.invoke receiver depth s args

end Engine

/-- What ends a run of steps before its time. -/
inductive Halt where
  | panic (payload : Panic)
  | abort
deriving DecidableEq, Repr

/-- A step of an engine. What the step has changed stays changed when it halts. -/
abbrev EngineM := ExceptT Halt (StateM Engine)

namespace EngineM

variable {α : Type}

/-- Runs a step and gives back how it ended, without halting. -/
def attempt (step : EngineM α) : EngineM (Except Halt α) := ExceptT.lift step.run

/-- Ends as a step ended before. -/
def resume (exit : Except Halt α) : EngineM α := ExceptT.mk (pure exit)

/-- Logs an event under the types that are being composed. -/
def emit (event : Event) : EngineM Unit :=
  modify fun e => { e with log := e.log ++ [⟨event, e.spans⟩] }

/-- One more on a counter. -/
def count (counter : Counter) : EngineM Unit := do
  modify fun e =>
    { e with
      metrics :=
        match counter with
        | .mergesExecuted => { e.metrics with mergesExecuted := e.metrics.mergesExecuted + 1 }
        | .compositionsFailed =>
          { e.metrics with compositionsFailed := e.metrics.compositionsFailed + 1 } }
  emit (.counted counter)

/-- So many more candidates were rejected. -/
def addVetoed (n : Nat) : EngineM Unit :=
  modify fun e =>
    { e with metrics := { e.metrics with candidatesVetoed := e.metrics.candidatesVetoed + n } }

/-- So many more signatures were in conflict. -/
def addConflicts (n : Nat) : EngineM Unit :=
  modify fun e =>
    { e with metrics := { e.metrics with conflictsDetected := e.metrics.conflictsDetected + n } }

/-- Logs the counters. -/
def flushMetrics : EngineM Unit := do emit (.metricsFlushed (← get).metrics)

/-- Runs a step as part of a type's composition, which it leaves however it ends. -/
def inSpan (typeName : String) (step : EngineM α) : EngineM α := do
  let outer := (← get).spans
  modify fun e => { e with spans := outer ++ [typeName] }
  let exit ← attempt step
  modify fun e => { e with spans := outer }
  resume exit

/-- Puts another slot in the place of a type's. -/
def setSlot (name : String) (slot : Slot MethodTable) : EngineM Unit :=
  modify fun e => e.updateEntry name fun t => { t with slot }

/-- Marks a type as settled. -/
def markSettled (name : String) : EngineM Unit :=
  modify fun e => e.updateEntry name fun t => { t with settled := true }

/-- Runs a step of the registry's closures. -/
def onRegistry (step : ClosureM α) : EngineM (Except CompositionError α) :=
  modifyGet fun e =>
    let (result, registry) := step.run.run e.registry
    (result, { e with registry })

end EngineM

end RoleComposition
