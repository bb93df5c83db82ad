import RoleComposition.Error

/-!
# Settings

When a role's storage is refused, and what a failed type means for the process. Both settings can
come from the environment, where blanks around a value and the case of its letters do not count.
-/

namespace RoleComposition

/-- When a role that declares storage is refused. -/
inductive StorageCheck where
  | atRegistration
  | atComposition
deriving DecidableEq, Repr

/-- What happens when a type that is about to be used has failed. -/
inductive FailurePolicy where
  | report
  | abort
deriving DecidableEq, Repr

/-- The settings of an engine. -/
structure Config where
  storageCheck : StorageCheck := .atRegistration
  failurePolicy : FailurePolicy := .report
deriving DecidableEq, Repr

namespace Config

/-- The variable that says when storage is refused. -/
def storageCheckKey : String := "ROLECRAFT_STORAGE_CHECK"

/-- The variable that says what a failed type means. -/
def failurePolicyKey : String := "ROLECRAFT_FAILURE_POLICY"

/-- A value without the blanks around it, in lower case. The words that it is compared with have
no letter that a letter beyond ASCII turns into. -/
def normalized (value : String) : String := (Text.trim value).map Char.toLower

/-- One of two words, whatever its case and the blanks around it. -/
def readWord {α : Type} (key : String) (words : List (String × α)) (value : String) :
    Except CompositionError α :=
  match words.find? fun w => w.1 == normalized value with
  | some (_, a) => .ok a
  | none => .error (.invalidSetting key value)

/-- A setting of the environment, or its default. -/
def readSetting {α : Type} (lookup : String → Option String) (key : String)
    (words : List (String × α)) (default : α) : Except CompositionError α :=
  match lookup key with
  | some value => readWord key words value
  | none => .ok default

/-- The settings of an environment. The storage check is read first. -/
def ofEnvironment (lookup : String → Option String) : Except CompositionError Config := do
  let storageCheck ← readSetting lookup storageCheckKey
    [("registration", .atRegistration), ("composition", .atComposition)] .atRegistration
  let failurePolicy ← readSetting lookup failurePolicyKey
    [("report", .report), ("abort", .abort)] .report
  return { storageCheck, failurePolicy }

end Config

end RoleComposition
