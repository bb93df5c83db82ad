import RoleComposition.Veto

/-!
# Capabilities

A type has to offer what the roles in its adoption set require. A required signature is satisfied
when the type brings it or any role of the set provides it, publicly or not. Who wins a conflict
and what a hook excludes plays no part here.
-/

namespace RoleComposition

namespace RoleId

/-- Each role once, in increasing order. -/
def sortedSet (ids : List RoleId) : List RoleId := sort ids.eraseDups

end RoleId

/-- The signatures that some roles require, with the roles that require them. -/
def requirers (roles : List RoleDefinition) : SignatureMap (List RoleId) :=
  roles.foldl
    (fun held r => r.required.signatures.foldl
      (fun held s => held.insert s ((held.find? s).getD [] ++ [r.id])) held)
    ∅

namespace AdoptingType

/-- The type brings the method or one of the roles provides it. -/
def satisfies (t : AdoptingType) (roles : List RoleDefinition) (s : Signature) : Bool :=
  t.owns s || roles.any fun r => r.provided.contains s

/-- What the roles require and nobody offers. -/
def missingCapabilities (t : AdoptingType) (roles : List RoleDefinition) :
    List MissingCapability :=
  ((requirers roles).filter fun s _ => !t.satisfies roles s).toList.map fun e =>
    ⟨e.1, RoleId.sortedSet e.2⟩

/-- Every required signature is offered. -/
def validate (t : AdoptingType) (roles : List RoleDefinition) : Except CompositionError Unit :=
  let missing := t.missingCapabilities roles
  if missing.isEmpty then .ok () else .error (.missingCapability t.name missing)

end AdoptingType

end RoleComposition
