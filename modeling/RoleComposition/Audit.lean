import RoleComposition.Closure
import RoleComposition.Json

/-!
# Auditing roles

An audit looks at each role of a registry by itself: the roles it composes, how many methods its
closure has, and which signatures an adopter will have to own or to veto because several roles
offer them. A role whose closure cannot be gathered is listed with its error.
-/

namespace RoleComposition

/-- What an audit has to say about a role. -/
structure RoleAudit where
  role : RoleId
  composes : List RoleId
  methods : Nat := 0
  contested : List Signature := []
  error : Option CompositionError := none
deriving DecidableEq, Repr

namespace RoleAudit

/-- Adds what the closure of the role has to say. -/
def withClosure (a : RoleAudit) : Except CompositionError RoleClosure → RoleAudit
  | .ok closure =>
    { a with methods := closure.methods.size, contested := closure.contested.map Prod.fst }
  | .error error => { a with error := some error }

/-- The role has no closure. -/
def isFailed (a : RoleAudit) : Bool := a.error.isSome

/-- The audit of a role as text. -/
def render (a : RoleAudit) : String :=
  a.role.name ++ " (" ++ toString a.methods ++ " methods)" ++
    (if a.composes.isEmpty then "" else " composes " ++ RoleId.listText a.composes) ++
    (if a.contested.isEmpty then ""
      else "\n  contested: " ++ ", ".intercalate (a.contested.map Signature.text)) ++
    (match a.error with
      | some error => "\n  error: " ++ error.message
      | none => "") ++
    "\n"

/-- The audit of a role as a JSON value. -/
def toJson (a : RoleAudit) : Json :=
  .object [
    ("role", .text a.role.name),
    ("composes", .ofTexts (a.composes.map RoleId.name)),
    ("methods", .ofNat a.methods),
    ("contested", .ofTexts (a.contested.map Signature.text)),
    ("error", .ofOption (fun error => .text error.message) a.error)]

end RoleAudit

namespace Registry

/-- Audits one role, whose closure is kept. -/
def auditRole (r : RoleDefinition) : StateM Registry RoleAudit := do
  return RoleAudit.withClosure { role := r.id, composes := r.composed } (← (closure r.id).run)

/-- Audits every role, in the order of registration. -/
def audit (reg : Registry) : List RoleAudit :=
  ((reg.entries.mapM fun e => auditRole e.definition).run reg).1

end Registry

end RoleComposition
