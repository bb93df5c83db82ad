import RoleComposition.Config
import RoleComposition.Event
import RoleComposition.Role
import RoleComposition.Slot

/-!
# The registry of roles

Roles are registered one by one with a builder, which refuses a definition that breaks a rule and
stays as it was. Freezing the builder gives the registry, whose definitions do not change any
more; beside each definition it has a slot for the role's closure.
-/

namespace RoleComposition

/-- Roles in the order of their registration, with the events that registering them caused. -/
structure RegistryBuilder where
  storageCheck : StorageCheck := .atRegistration
  roles : List RoleDefinition := []
  log : List LogEntry := []

namespace RegistryBuilder

/-- The builder that follows a configuration. -/
def ofConfig (config : Config) : RegistryBuilder := { storageCheck := config.storageCheck }

/-- A role of that name is registered. -/
def contains (b : RegistryBuilder) (id : RoleId) : Bool := b.roles.any fun r => r.id == id

/-- The number of registered roles. -/
def size (b : RegistryBuilder) : Nat := b.roles.length

/-- The check of a definition's storage that falls to registration. -/
def checkStorage (b : RegistryBuilder) (r : RoleDefinition) : Except CompositionError Unit :=
  match b.storageCheck with
  | .atRegistration => r.checkStorage
  | .atComposition => .ok ()

/-- Registers a role of a new name that is valid. -/
def register (b : RegistryBuilder) (r : RoleDefinition) :
    Except CompositionError RegistryBuilder := do
  if b.contains r.id then throw (.duplicateRole r.id)
  r.validate
  b.checkStorage r
  return { b with
    roles := b.roles ++ [r]
    log := b.log ++ [⟨.roleRegistered r.id r.provided.size r.required.size, []⟩] }

end RegistryBuilder

/-- A body that a role's closure offers for a signature, with the role it comes from. -/
structure ClosureEntry where
  origin : RoleId
  implementation : Implementation

/-- Everything that a role brings to a type: its own methods and those of the roles it composes.
A signature keeps every offer, one from each origin. -/
structure RoleClosure where
  role : RoleId
  methods : SignatureMap (List ClosureEntry)

namespace RoleClosure

/-- The offers for a signature. -/
def candidates (c : RoleClosure) (s : Signature) : List ClosureEntry := (c.methods.find? s).getD []

/-- Both are the closure that one registry holds for a role, of which it gathers at most one. -/
def sameClosure (a b : RoleClosure) : Bool := a.role == b.role

/-- The signatures with more than one offer. -/
def contested (c : RoleClosure) : List (Signature × List ClosureEntry) :=
  c.methods.toList.filter fun e => 1 < e.2.length

end RoleClosure

/-- A definition with the slot of its closure. -/
structure RegisteredRole where
  definition : RoleDefinition
  closure : Slot RoleClosure := .vacant

/-- The registered roles in the order of their registration. -/
structure Registry where
  entries : List RegisteredRole

namespace RegistryBuilder

/-- Ends registration. -/
def freeze (b : RegistryBuilder) : Registry := ⟨b.roles.map fun r => { definition := r }⟩

/-- The events up to and including the end of registration. -/
def frozenLog (b : RegistryBuilder) : List LogEntry := b.log ++ [⟨.registryFrozen b.size, []⟩]

end RegistryBuilder

namespace Registry

/-- The entry of a role. -/
def find? (reg : Registry) (id : RoleId) : Option RegisteredRole :=
  reg.entries.find? fun e => e.definition.id == id

/-- The definition of a role. -/
def lookup (reg : Registry) (id : RoleId) : Except CompositionError RoleDefinition :=
  match reg.find? id with
  | some e => .ok e.definition
  | none => .error (.unknownRole id)

/-- A role of that name is registered. -/
def contains (reg : Registry) (id : RoleId) : Bool := (reg.find? id).isSome

/-- The number of registered roles. -/
def size (reg : Registry) : Nat := reg.entries.length

/-- The names of the roles in the order of their registration. -/
def ids (reg : Registry) : List RoleId := reg.entries.map fun e => e.definition.id

/-- The registry with another slot for a role's closure. -/
def setClosure (reg : Registry) (id : RoleId) (slot : Slot RoleClosure) : Registry :=
  ⟨reg.entries.map fun e => if e.definition.id = id then { e with closure := slot } else e⟩

end Registry

end RoleComposition
