import RoleComposition.Engine

/-!
# Resolving offers

Every offer for a signature is put to the type's hook once, and what is left decides: one offer is
selected, none leaves the signature out, and more than one is a conflict. The hook sees one offer
at a time.
-/

namespace RoleComposition

/-- A body that a role offers a type: where it comes from and through which declared role. -/
structure Candidate where
  origin : RoleId
  via : RoleId
  implementation : Implementation

/-- What becomes of a signature. -/
inductive Decision where
  | select (candidate : Candidate)
  | omit
  | ambiguous (candidates : List Candidate)

/-- The decision that the offers left after the veto make. -/
def Decision.ofSurvivors : List Candidate → Decision
  | [] => .omit
  | [only] => .select only
  | several => .ambiguous several

/-- The offers to a type, by signature. -/
abbrev Offers := SignatureMap (List Candidate)

namespace Offers

/-- Adds to some candidates those of new origins, reached through `via`. -/
def addCandidates (via : RoleId) (held : List Candidate) (offered : List ClosureEntry) :
    List Candidate :=
  offered.foldl
    (fun held e =>
      if held.any fun c => c.origin == e.origin then held
      else held ++ [⟨e.origin, via, e.implementation⟩])
    held

/-- Adds the offers of a declared role's closure, except for what the type brings itself. -/
def add (t : AdoptingType) (offers : Offers) (closure : RoleClosure) : Offers :=
  closure.methods.toList.foldl
    (fun offers e =>
      if t.owns e.1 then offers
      else offers.insert e.1 (addCandidates closure.role ((offers.find? e.1).getD []) e.2))
    offers

end Offers

namespace EngineM

/-- Runs a consultation to its answer, with a way to compose types. -/
def consult (compose : String → EngineM Outcome) : Consultation → EngineM Bool
  | .answer keep => pure keep
  | .panic payload => throw (.panic payload)
  | .compose name next => do
    let outcome ← compose name
    consult compose (next outcome)
  | .attempt name next => do
    match ← attempt (compose name) with
    | .ok outcome => consult compose (next (.ok outcome))
    | .error (.panic payload) => consult compose (next (.error payload))
    | .error .abort => throw .abort
  | .observe name next => do
    let seen := (← get).observe name
    consult compose (next seen)
  | .note n next => do
    modify fun e => { e with notes := e.notes ++ [n] }
    consult compose next
  | .recall next => do
    let notes := (← get).notes
    consult compose (next notes)

/-- Puts one candidate to a hook. -/
def askHook (compose : String → EngineM Outcome) (t : AdoptingType) (hook : Hook) (s : Signature)
    (c : Candidate) : EngineM Bool := do
  modify fun e => { e with questions := e.questions ++ [⟨t.name, s.level, c.origin, s⟩] }
  let keep ← consult compose (hook.ask s.level c.origin s)
  if !keep then emit (.candidateVetoed t.name c.origin s)
  return keep

/-- The candidates that a hook keeps, each asked about in turn. -/
def keepCandidates (compose : String → EngineM Outcome) (t : AdoptingType) (hook : Hook)
    (s : Signature) : List Candidate → EngineM (List Candidate)
  | [] => return []
  | c :: rest => do
    let keep ← askHook compose t hook s c
    let kept ← keepCandidates compose t hook s rest
    return if keep then c :: kept else kept

/-- What becomes of the candidates for a signature. -/
def resolve (compose : String → EngineM Outcome) (t : AdoptingType) (s : Signature)
    (candidates : List Candidate) : EngineM Decision :=
  match t.veto with
  | none => return .ofSurvivors candidates
  | some hook => do return .ofSurvivors (← keepCandidates compose t hook s candidates)

end EngineM

end RoleComposition
