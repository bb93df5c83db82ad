import RoleComposition.Report

/-!
# Veto hooks

A type may have a hook that is asked about every method that a role offers it: once for each
method and origin, at one of two entry points. A hook is a program. Before it answers it may
compose any type of the same engine, with or without catching the panic of that composition, look
at one, keep a note of the consultation, read the notes that were kept so far, or panic.
-/

namespace RoleComposition

/-- The outcome of a composition. -/
abbrev Outcome := Except CompositionError MethodTable

/-- What a hook sees when it looks at a type. -/
structure Observation where
  state : CompositionState
  outcome : Option Outcome
  report : Report

/-- A consultation that a hook took note of: the entry point, what it was asked about, and what
came of composing and looking at types meanwhile. -/
structure Note where
  entry : Level
  role : RoleId
  signature : Signature
  composed : Option Outcome := none
  observed : Option Observation := none

/-- What a hook does next when it is asked. -/
inductive Consultation where
  | answer (keep : Bool)
  | panic (payload : Panic)
  | compose (typeName : String) (next : Outcome → Consultation)
  | attempt (typeName : String) (next : Except Panic Outcome → Consultation)
  | observe (typeName : String) (next : Except CompositionError Observation → Consultation)
  | note (note : Note) (next : Consultation)
  | recall (next : List Note → Consultation)

/-- A hook: what it does at its two entry points. -/
structure Hook where
  includeInstanceMethod : RoleId → Signature → Consultation
  includeTypeMethod : RoleId → Signature → Consultation

namespace Hook

/-- The entry point for a level. -/
def ask (h : Hook) : Level → RoleId → Signature → Consultation
  | .onInstance => h.includeInstanceMethod
  | .onType => h.includeTypeMethod

/-- The hook that answers by a fixed rule. -/
def ofRule (keep : RoleId → Signature → Bool) : Hook :=
  ⟨fun role s => .answer (keep role s), fun role s => .answer (keep role s)⟩

/-- The hook that excludes every method of instances. -/
def noInstanceMethods : Hook := ⟨fun _ _ => .answer false, fun _ _ => .answer true⟩

/-- The hook that excludes every method of types. -/
def noTypeMethods : Hook := ⟨fun _ _ => .answer true, fun _ _ => .answer false⟩

end Hook

/-- Methods of roles that are excluded, each pair of role and signature once. -/
structure Exclusions where
  pairs : List (RoleId × Signature) := []
deriving DecidableEq, Repr

namespace Exclusions

/-- Excludes one more method. -/
def exclude (e : Exclusions) (role : RoleId) (s : Signature) : Exclusions :=
  if e.pairs.contains (role, s) then e else ⟨e.pairs ++ [(role, s)]⟩

/-- The exclusions of a list. -/
def ofList (pairs : List (RoleId × Signature)) : Exclusions :=
  pairs.foldl (fun e p => e.exclude p.1 p.2) {}

/-- The number of excluded methods. -/
def size (e : Exclusions) : Nat := e.pairs.length

/-- The method is not excluded. -/
def keeps (e : Exclusions) (role : RoleId) (s : Signature) : Bool := !e.pairs.contains (role, s)

/-- The hook that excludes these methods, at both entry points alike. -/
def hook (e : Exclusions) : Hook := Hook.ofRule e.keeps

end Exclusions

/-- A type that adopts roles. A role may be declared more than once. -/
structure AdoptingType where
  name : String
  declaredRoles : List RoleId := []
  ownMethods : SignatureMap Implementation := ∅
  veto : Option Hook := none

namespace AdoptingType

/-- The type that has nothing but a name. -/
def named (name : String) : AdoptingType := { name }

/-- Declares a role. -/
def adopts (t : AdoptingType) (id : RoleId) : AdoptingType :=
  { t with declaredRoles := t.declaredRoles ++ [id] }

/-- Brings a method of its own. -/
def implements (t : AdoptingType) (s : Signature) (i : Implementation) : AdoptingType :=
  { t with ownMethods := t.ownMethods.insert s i }

/-- Sets the hook. -/
def withVeto (t : AdoptingType) (h : Hook) : AdoptingType := { t with veto := some h }

/-- The type brings the method itself. -/
def owns (t : AdoptingType) (s : Signature) : Bool := t.ownMethods.contains s

end AdoptingType

end RoleComposition
