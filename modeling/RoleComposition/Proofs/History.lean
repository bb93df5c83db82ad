import RoleComposition.Lifecycle
import RoleComposition.Proofs.Merging

/-!
# Histories

A run of an engine is a sequence of calls. Its history lists, in order, the moments at which the
engine can be looked at: before and after each call, and in between whenever a hook has control.
The trail of a step lists those of its moments at which a hook has control; it follows the step's
definition and goes on from where the step itself has come to.
-/

namespace RoleComposition

/-- A moment of a run: what the engine is then, how many types may be composed within each other
from there, what the hook in control does next if there is one, and whether a hook further out
would catch a panic. -/
structure Moment where
  engine : Engine
  depth : Nat
  hook : Option Consultation := none
  shielded : Bool := false

namespace Moment

/-- A moment between two calls. -/
def between (e : Engine) : Moment := { engine := e, depth := e.vacantTypes }

/-- The same moment, seen from a hook that would catch a panic. -/
def shield (m : Moment) : Moment := { m with shielded := true }

/-- What the hook in control panics with, if it does and no hook further out would catch it. -/
def raised? (m : Moment) : Option Panic :=
  match m.hook with
  | some (.panic payload) => if m.shielded then none else some payload
  | _ => none

/-- Composes a type at a moment, as the caller or the hook in control would. -/
def compose (m : Moment) (name : String) : Except Halt Outcome × Engine :=
  runFrom (EngineM.composeWithin m.depth name) m.engine

end Moment

namespace Trail

/-- The trail of what comes after a step, if anything does. -/
def after {α : Type} (step : EngineM α) (trail : α → Engine → List Moment) (e : Engine) :
    List Moment :=
  match runFrom step e with
  | (.ok a, e') => trail a e'
  | (.error _, _) => []

section Hooks

variable (depth : Nat) (inner : String → Engine → List Moment)

/-- Before each thing that a hook does, and within what it composes. -/
def consult : Consultation → Engine → List Moment
  | .answer keep, e => [{ engine := e, depth, hook := some (.answer keep) }]
  | .panic payload, e => [{ engine := e, depth, hook := some (.panic payload) }]
  | .compose name next, e =>
    { engine := e, depth, hook := some (.compose name next) } :: (inner name e ++
      after (EngineM.composeWithin depth name) (fun outcome => consult (next outcome)) e)
  | .attempt name next, e =>
    { engine := e, depth, hook := some (.attempt name next) } ::
      ((inner name e).map Moment.shield ++
        after (EngineM.attempt (EngineM.composeWithin depth name))
          (fun exit =>
            match exit with
            | .ok outcome => consult (next (.ok outcome))
            | .error (.panic payload) => consult (next (.error payload))
            | .error .abort => fun _ => []) e)
  | .observe name next, e =>
    { engine := e, depth, hook := some (.observe name next) } :: consult (next (e.observe name)) e
  | .note n next, e =>
    { engine := e, depth, hook := some (.note n next) } ::
      consult next { e with notes := e.notes ++ [n] }
  | .recall next, e =>
    { engine := e, depth, hook := some (.recall next) } :: consult (next e.notes) e

/-- While a hook is asked about candidates in turn. -/
def keepCandidates (t : AdoptingType) (hook : Hook) (s : Signature) :
    List Candidate → Engine → List Moment
  | [], _ => []
  | c :: rest, e =>
    consult depth inner (hook.ask s.level c.origin s)
        { e with questions := e.questions ++ [⟨t.name, s.level, c.origin, s⟩] } ++
      after (EngineM.askHook (EngineM.composeWithin depth) t hook s c)
        (fun _ => keepCandidates t hook s rest) e

/-- While the candidates for a signature are resolved. -/
def resolve (t : AdoptingType) (s : Signature) (candidates : List Candidate) (e : Engine) :
    List Moment :=
  match t.veto with
  | none => []
  | some hook => keepCandidates depth inner t hook s candidates e

/-- While offers are settled in turn. -/
def settleOffers (t : AdoptingType) :
    List (Signature × List Candidate) → Tally → Engine → List Moment
  | [], _, _ => []
  | offer :: rest, tally, e =>
    resolve depth inner t offer.1 offer.2 e ++
      after (EngineM.settleSignature (EngineM.composeWithin depth) t tally offer)
        (settleOffers t rest) e

/-- While a type's table is merged. -/
def mergeTable (t : AdoptingType) (e : Engine) : List Moment :=
  after (EngineM.gatherOffers t).run
    (fun result =>
      match result with
      | .ok offers => settleOffers depth inner t offers.toList (Tally.ofOwn t)
      | .error _ => fun _ => []) e

/-- While a type is merged, from its start. -/
def merge (t : AdoptingType) (e : Engine) : List Moment :=
  after
    (do
      EngineM.count .mergesExecuted
      EngineM.emit (.compositionStarted t.name t.declaredRoles.length))
    (fun _ => mergeTable depth inner t) { e with spans := e.spans ++ [t.name] }

end Hooks

/-- While a type is composed. -/
def compose : Nat → String → Engine → List Moment
  | 0, _, _ => []
  | depth + 1, name, e =>
    match e.find? name with
    | none => []
    | some t =>
      match t.slot with
      | .vacant =>
        after (EngineM.setSlot name .running) (fun _ => merge depth (compose depth) t.definition) e
      | _ => []

/-- While types are used in turn, with the moment before each. -/
def firstUses (policy : FailurePolicy) : List String → Engine → List Moment
  | [], _ => []
  | name :: names, e =>
    Moment.between e :: (compose e.vacantTypes name e ++
      after (EngineM.firstUse policy name) (fun _ => firstUses policy names) e)

end Trail

/-- A call from outside. -/
inductive Request where
  | declare (t : AdoptingType)
  | compose (name : String)
  | firstUse (policy : FailurePolicy) (name : String)
  | ensureAll (policy : FailurePolicy)
  | closure (role : RoleId)
  | state (name : String)
  | outcome (name : String)
  | effectiveMethods (name : String)
  | report (name : String)
  | dispatch (depth : Nat) (name : String) (signature : Signature) (receiver : Json)
      (args : List Json)

namespace Request

/-- What a call does to the engine, without its answer. A call that only reads does nothing. -/
def step : Request → EngineM Unit
  | declare t => modify fun e =>
    match e.declare t with
    | .ok (_, e') => e'
    | .error _ => e
  | compose name => discard (EngineM.compose name)
  | firstUse policy name => discard (EngineM.firstUse policy name)
  | ensureAll policy => discard (EngineM.ensureAll policy)
  | closure role => discard (EngineM.onRegistry (Registry.closure role))
  | state _ | outcome _ | effectiveMethods _ | report _ | dispatch .. => pure ()

/-- The moments of a call. -/
def trail : Request → Engine → List Moment
  | compose name, e | firstUse _ name, e => Trail.compose e.vacantTypes name e
  | ensureAll policy, e => Trail.firstUses policy (e.handles.map Handle.name) e
  | _, _ => []

end Request

/-- The moments of a run of calls. A panic ends its call; an abort ends the run. -/
def history (e : Engine) : List Request → List Moment
  | [] => [Moment.between e]
  | r :: rest =>
    Moment.between e :: (r.trail e ++
      match runFrom r.step e with
      | (.error .abort, _) => []
      | (_, e') => history e' rest)

end RoleComposition
