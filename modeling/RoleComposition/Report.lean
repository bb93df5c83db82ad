import RoleComposition.MethodTable
import RoleComposition.Slot

/-!
# Reports

What there is to say about a type at a moment: where its composition stands, the roles it declares,
and its methods or its error. A report is written as text, a line for each method, or as JSON.
-/

namespace RoleComposition

/-- A method as a report names it. -/
structure ReportEntry where
  signature : Signature
  provider : Provider
  implementation : String
deriving DecidableEq, Repr

/-- What there is to say about a type. -/
structure Report where
  typeName : String
  state : CompositionState
  declaredRoles : List RoleId
  settled : Bool
  methods : List ReportEntry := []
  digest : Option String := none
  error : Option String := none
deriving DecidableEq, Repr

/-- A provider as a JSON value. -/
def Provider.toJson : Provider → Json
  | own => .object [("kind", .text "own")]
  | role origin via =>
    .object [("kind", .text "role"), ("origin", .text origin.name), ("via", .text via.name)]

namespace Report

/-- The report of a type whose outcome is not known yet, or not to be had. -/
def pending (typeName : String) (declaredRoles : List RoleId) (settled : Bool)
    (state : CompositionState) : Report :=
  { typeName, state, declaredRoles, settled }

/-- Adds what an outcome has to say. -/
def withOutcome (r : Report) : Option (Except CompositionError MethodTable) → Report
  | some (.ok table) =>
    { r with
      methods := table.entries.toList.map fun e =>
        ⟨e.1, e.2.provider, e.2.implementation.label⟩
      digest := some table.digest }
  | some (.error error) => { r with error := some error.message }
  | none => r

/-- The type has failed. -/
def isFailed (r : Report) : Bool := r.state == .failed

/-- A line of text. -/
def line (text : String) : String := text ++ "\n"

/-- The line of a method: its signature and its provider. -/
def methodLine (e : ReportEntry) : String :=
  line ("  " ++ e.signature.text ++ " " ++ e.provider.text)

/-- The report as text. The digest is cut to its first 16 digits. -/
def render (r : Report) : String :=
  line (r.typeName ++ " [" ++ r.state.text ++ "]") ++
    (if r.declaredRoles.isEmpty then "" else line ("  roles: " ++ RoleId.listText r.declaredRoles)) ++
    String.join (r.methods.map methodLine) ++
    (match r.digest with
      | some digest => line ("  digest: " ++ (digest.take 16).toString)
      | none => "") ++
    (match r.error with
      | some error => line ("  error: " ++ error)
      | none => "")

/-- The report as a JSON value, with a text in the place of the time at which the type settled. -/
def toJson (r : Report) (time : Json) : Json :=
  .object [
    ("type_name", .text r.typeName),
    ("state", .text r.state.text),
    ("declared_roles", .ofTexts (r.declaredRoles.map RoleId.name)),
    ("settled_at", time),
    ("methods", .array (r.methods.map fun e => .object [
      ("signature", .text e.signature.text),
      ("provider", e.provider.toJson),
      ("implementation", .text e.implementation)])),
    ("digest", .ofOption .text r.digest),
    ("error", .ofOption .text r.error)]

end Report

end RoleComposition
