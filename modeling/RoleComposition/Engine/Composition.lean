import RoleComposition.Engine.Resolution

/-!
# Composing a type

A type is composed at most once. The roles it declares are resolved together with all that they
reach; their storage is refused if that was left to now; what they require must be there; their
closures offer methods, of which the type's own methods make some moot; the rest go through the
hook; and what is left, with the type's own methods, is the effective table. The outcome, be it a
table or an error, stays.
-/

namespace RoleComposition

/-- A step of a merge: it may fail with an error, or halt. -/
abbrev MergeM := ExceptT CompositionError EngineM

namespace MergeM

variable {α : Type}

/-- A result as a step. -/
def ofExcept (result : Except CompositionError α) : MergeM α := ExceptT.mk (pure result)

/-- A step of the registry's closures as a step of a merge. -/
def ofClosure (step : ClosureM α) : MergeM α := ExceptT.mk (EngineM.onRegistry step)

end MergeM

/-- What resolving the offers has come to so far. -/
structure Tally where
  entries : SignatureMap MethodEntry
  vetoed : Nat := 0
  conflicts : List SignatureConflict := []

namespace Tally

/-- The type's own methods. -/
def ofOwn (t : AdoptingType) : Tally :=
  { entries := t.ownMethods.map fun _ implementation => ⟨implementation, .own⟩ }

/-- Takes in the decision about a signature with so many offers. -/
def add (tally : Tally) (s : Signature) (offered : Nat) : Decision → Tally
  | .select c =>
    { tally with
      entries := tally.entries.insert s ⟨c.implementation, .role c.origin c.via⟩
      vetoed := tally.vetoed + (offered - 1) }
  | .omit => { tally with vetoed := tally.vetoed + offered }
  | .ambiguous cs =>
    { tally with
      vetoed := tally.vetoed + (offered - cs.length)
      conflicts := tally.conflicts ++ [⟨s, RoleId.sort (cs.map Candidate.origin)⟩] }

end Tally

namespace Engine

/-- The check of storage that was left to composition. -/
def checkStorage (config : Config) (roles : List RoleDefinition) : Except CompositionError Unit :=
  match config.storageCheck with
  | .atRegistration => .ok ()
  | .atComposition => roles.forM RoleDefinition.checkStorage

end Engine

namespace EngineM

/-- Decides about one signature; a conflict is logged. -/
def settleSignature (compose : String → EngineM Outcome) (t : AdoptingType) (tally : Tally)
    (offer : Signature × List Candidate) : EngineM Tally := do
  let decision ← resolve compose t offer.1 offer.2
  match decision with
  | .ambiguous cs =>
    emit (.conflictDetected (.type t.name) offer.1 (RoleId.sort (cs.map Candidate.origin)))
  | _ => pure ()
  return tally.add offer.1 offer.2.length decision

/-- Resolves, checks and gathers what the declared roles offer a type. -/
def gatherOffers (t : AdoptingType) : MergeM Offers := do
  let e ← get
  let order ← MergeM.ofExcept (e.registry.resolutionOrder t.declaredRoles)
  MergeM.ofExcept (Engine.checkStorage e.config order)
  MergeM.ofExcept (t.validate order)
  order.forM fun role => discard <| MergeM.ofClosure (Registry.closureResolved role.id)
  t.declaredRoles.foldlM
    (fun offers via => do
      return Offers.add t offers (← MergeM.ofClosure (Registry.closureResolved via)))
    ∅

/-- The effective table of a type, with a way to compose other types from its hook. -/
def mergeTable (compose : String → EngineM Outcome) (t : AdoptingType) : MergeM MethodTable := do
  let offers ← gatherOffers t
  let tally ← ExceptT.lift (offers.toList.foldlM (settleSignature compose t) (Tally.ofOwn t))
  ExceptT.lift (addVetoed tally.vetoed)
  if !tally.conflicts.isEmpty then
    ExceptT.lift (addConflicts tally.conflicts.length)
    throw (.roleConflict (.type t.name) tally.conflicts)
  return ⟨t.name, tally.entries⟩

/-- A failed composition is counted and logged. -/
def reportFailure (name : String) (error : CompositionError) : EngineM Unit := do
  count .compositionsFailed
  emit (.compositionFailed name error)

/-- Merges a type and logs how it went. -/
def merge (compose : String → EngineM Outcome) (t : AdoptingType) : EngineM Outcome :=
  inSpan t.name do
    count .mergesExecuted
    emit (.compositionStarted t.name t.declaredRoles.length)
    let outcome ← (mergeTable compose t).run
    match outcome with
    | .ok table => emit (.compositionFinished t.name table.entries.size table.digest)
    | .error error => reportFailure t.name error
    markSettled t.name
    return outcome

/-- Fills the slot of a type whose merge has panicked. -/
def settlePanic (name : String) (payload : Panic) : EngineM Unit := do
  let error := CompositionError.compositionPanicked (.type name) payload.message
  reportFailure name error
  markSettled name
  setSlot name (.settled (.error error))

/-- The outcome of a type, composed now if it has not been before. Types that are being composed
are distinct, so `depth` need not exceed the number of types not yet started. -/
def composeWithin : Nat → String → EngineM Outcome
  | depth, name => do
    match (← get).find? name with
    | none => return .error (.unknownType name)
    | some t =>
      match t.slot with
      | .settled outcome => return outcome
      | .running => return .error (.reentrantComposition name)
      | .vacant =>
        match depth with
        | 0 => return .error (.reentrantComposition name)
        | depth + 1 => do
          setSlot name .running
          match ← attempt (merge (composeWithin depth) t.definition) with
          | .ok outcome =>
            setSlot name (.settled outcome)
            return outcome
          | .error (.panic payload) =>
            settlePanic name payload
            throw (.panic payload)
          | .error .abort => throw .abort

/-- The outcome of a type, composed now if it has not been before. -/
def compose (name : String) : EngineM Outcome := do
  composeWithin (← get).vacantTypes name

end EngineM

end RoleComposition
