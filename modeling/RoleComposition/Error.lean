import RoleComposition.Signature
import RoleComposition.Text.Quoted

/-!
# Why a composition fails

Roles and types are named here, together with the ways in which registering, declaring and
composing them can fail. `CompositionError.message` is the wording of each.
-/

namespace RoleComposition

/-- The name of a role. -/
structure RoleId where
  name : String
deriving DecidableEq, Repr

namespace RoleId

/-- Names in increasing order. -/
def precedes (a b : RoleId) : Bool := a.name ≤ b.name

/-- Roles in increasing order. -/
def sort (ids : List RoleId) : List RoleId := ids.mergeSort precedes

/-- Names with commas between them. -/
def listText (ids : List RoleId) : String := ", ".intercalate (ids.map RoleId.name)

end RoleId

/-- Who holds a method body: a role or a type. -/
inductive Owner where
  | role (id : RoleId)
  | type (name : String)
deriving DecidableEq, Repr

namespace Owner

/-- The bare name. -/
def name : Owner → String
  | role id => id.name
  | type name => name

/-- The name with what it names. -/
def text : Owner → String
  | role id => "role " ++ id.name
  | type name => "type " ++ name

end Owner

/-- A required signature that nobody provides, with the roles that require it. -/
structure MissingCapability where
  signature : Signature
  requiredBy : List RoleId
deriving DecidableEq, Repr

/-- The wording of a missing capability. -/
def MissingCapability.text (m : MissingCapability) : String :=
  m.signature.text ++ " (required by " ++ RoleId.listText m.requiredBy ++ ")"

/-- A signature for which several roles still offer a body. -/
structure SignatureConflict where
  signature : Signature
  roles : List RoleId
deriving DecidableEq, Repr

/-- The wording of a conflict. -/
def SignatureConflict.text (c : SignatureConflict) : String :=
  c.signature.text ++ " provided by " ++ RoleId.listText c.roles

/-- The ways in which roles and types can fail to fit together. -/
inductive CompositionError where
  | unknownRole (role : RoleId)
  | duplicateRole (role : RoleId)
  | roleCycle (cycle : List RoleId)
  | missingCapability (typeName : String) (missing : List MissingCapability)
  | roleConflict (owner : Owner) (conflicts : List SignatureConflict)
  | storageExtension (role : RoleId) (fields : List String)
  | unbackedPublics (role : RoleId) (signatures : List Signature)
  | invalidSignature (input : String) (fault : Signature.Fault)
  | duplicateType (typeName : String)
  | unknownType (typeName : String)
  | reentrantComposition (typeName : String)
  | compositionPanicked (owner : Owner) (message : String)
  | unboundImplementation (owner : String) (signature : Signature)
  | invalidSetting (key value : String)
deriving DecidableEq, Repr

namespace CompositionError

/-- Why a role's definition is refused. -/
def unbackedReason (signatures : List Signature) : String :=
  "public signatures without a provided body: " ++ ", ".intercalate (signatures.map Signature.text)

/-- The wording of an error. -/
def message : CompositionError → String
  | unknownRole role => "unknown role: " ++ role.name
  | duplicateRole role => "role already registered: " ++ role.name
  | roleCycle cycle => "role composition cycle: " ++ " -> ".intercalate (cycle.map RoleId.name)
  | missingCapability typeName missing =>
    "type " ++ typeName ++ " is missing required capabilities: " ++
      ", ".intercalate (missing.map MissingCapability.text)
  | roleConflict owner conflicts =>
    "unresolved role conflicts in " ++ owner.text ++ ": " ++
      ", ".intercalate (conflicts.map SignatureConflict.text)
  | storageExtension role fields =>
    "role " ++ role.name ++ " declares storage " ++ Text.quotedList fields ++
      "; roles cannot extend storage"
  | unbackedPublics role signatures =>
    "invalid role definition " ++ role.name ++ ": " ++ unbackedReason signatures
  | invalidSignature input fault =>
    "invalid method signature " ++ Text.quoted input ++ ": " ++ fault.reason
  | duplicateType typeName => "type already declared: " ++ typeName
  | unknownType typeName => "unknown type: " ++ typeName
  | reentrantComposition typeName => "type " ++ typeName ++ " re-entered its own composition"
  | compositionPanicked owner message =>
    "composition of " ++ owner.text ++ " panicked: " ++ message
  | unboundImplementation owner signature =>
    "no implementation bound for " ++ signature.text ++ " on " ++ owner
  | invalidSetting key value =>
    "invalid configuration value " ++ Text.quoted value ++ " for " ++ key

end CompositionError

/-- The signature that a text stands for, or the error that names the text. -/
def Signature.read (input : String) : Except CompositionError Signature :=
  match Signature.parse input with
  | .ok s => .ok s
  | .error fault => .error (.invalidSignature input fault)

end RoleComposition
