import RoleComposition.Body
import RoleComposition.SignatureMap

/-!
# Roles

A role is a named set of methods with what it asks of the types that adopt it. It provides bodies,
of which it names some as public, requires signatures of its adopters, and may compose other
roles. It must not bring storage.
-/

namespace RoleComposition

/-- The definition of a role. The roles it composes are listed once each. -/
structure RoleDefinition where
  id : RoleId
  required : SignatureSet := ∅
  provided : SignatureMap Implementation := ∅
  publics : SignatureSet := ∅
  composed : List RoleId := []
  storage : List String := []

namespace RoleDefinition

/-- The role that has nothing but a name. -/
def named (id : RoleId) : RoleDefinition := { id }

/-- Asks for a signature. -/
def requires (r : RoleDefinition) (s : Signature) : RoleDefinition :=
  { r with required := r.required.add s }

/-- Provides a body that the role keeps to itself and its adopters. -/
def providesPrivate (r : RoleDefinition) (s : Signature) (i : Implementation) : RoleDefinition :=
  { r with provided := r.provided.insert s i }

/-- Names a signature as public. -/
def declaresPublic (r : RoleDefinition) (s : Signature) : RoleDefinition :=
  { r with publics := r.publics.add s }

/-- Provides a body and names its signature as public. -/
def provides (r : RoleDefinition) (s : Signature) (i : Implementation) : RoleDefinition :=
  (r.declaresPublic s).providesPrivate s i

/-- Composes another role, unless it is composed already. -/
def composes (r : RoleDefinition) (id : RoleId) : RoleDefinition :=
  if r.composed.contains id then r else { r with composed := r.composed ++ [id] }

/-- Declares a field of storage. -/
def withStorage (r : RoleDefinition) (field : String) : RoleDefinition :=
  { r with storage := r.storage ++ [field] }

/-- The public signatures that have no body. -/
def unbacked (r : RoleDefinition) : List Signature :=
  r.publics.signatures.filter fun s => !r.provided.contains s

/-- Every public signature has a body, and the role does not compose itself. -/
def validate (r : RoleDefinition) : Except CompositionError Unit :=
  if !r.unbacked.isEmpty then .error (.unbackedPublics r.id r.unbacked)
  else if r.composed.contains r.id then .error (.roleCycle [r.id, r.id])
  else .ok ()

/-- The role declares no storage. -/
def checkStorage (r : RoleDefinition) : Except CompositionError Unit :=
  if r.storage.isEmpty then .ok () else .error (.storageExtension r.id r.storage)

end RoleDefinition

end RoleComposition
