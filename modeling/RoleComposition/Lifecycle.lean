import RoleComposition.Engine.Composition

/-!
# First use

A host calls in when a type is about to be used for the first time. A type that fails then is
fatal: it is logged, and under the policy `abort` it ends the process.
-/

namespace RoleComposition

/-- A type that cannot be used, and why. -/
structure FatalError where
  typeName : String
  cause : CompositionError
deriving DecidableEq, Repr

/-- The wording of a fatal error. -/
def FatalError.message (f : FatalError) : String :=
  "fatal: type " ++ f.typeName ++ " cannot be used with role-provided behavior: " ++ f.cause.message

namespace EngineM

/-- Logs a fatal error, and ends the process if that is the policy. -/
def escalate (policy : FailurePolicy) (fatal : FatalError) : EngineM Unit := do
  emit (.compositionFatal fatal.typeName fatal.cause)
  if policy = .abort then throw .abort

/-- The methods of a type that is about to be used. -/
def firstUse (policy : FailurePolicy) (name : String) :
    EngineM (Except FatalError MethodTable) := do
  match ← compose name with
  | .ok table => return .ok table
  | .error cause =>
    let fatal := ⟨name, cause⟩
    escalate policy fatal
    return .error fatal

/-- Uses the types in turn; the errors come in the same order. -/
def firstUses (policy : FailurePolicy) : List String → EngineM (List FatalError)
  | [] => return []
  | name :: names => do
    let used ← firstUse policy name
    let fatals ← firstUses policy names
    return match used with
      | .ok _ => fatals
      | .error fatal => fatal :: fatals

/-- Uses every declared type, in the order of declaration. -/
def ensureAll (policy : FailurePolicy) : EngineM (List FatalError) := do
  firstUses policy ((← get).handles.map Handle.name)

end EngineM

end RoleComposition
