import RoleComposition.Manifest
import RoleComposition.Toml.Reader

/-!
# Manifests in TOML

How a manifest is read from TOML. Lists of roles and types are arrays of tables; a record may also
be written as the array of its fields in order. Fields that a record does not have are passed
over.
-/

namespace RoleComposition

namespace Toml

/-- The text that is wanted here. -/
def asText? : Toml → Option String
  | text s => some s
  | _ => none

/-- The list that is wanted here. -/
def asList? {α : Type} (item : Toml → Option α) : Toml → Option (List α)
  | array items => items.mapM item
  | _ => none

/-- The members of a table that go by one of some names. -/
def membersNamed (names : List String) (members : List (String × Toml)) : List (String × Toml) :=
  members.filter fun m => names.contains m.1

/-- The values of a record's fields, each of which goes by one of its names. A table has them by
name, none twice, and an array by order. -/
def fields? (names : List (List String)) : Toml → Option (List (Option Toml))
  | table members =>
    names.mapM fun names =>
      match membersNamed names members with
      | [] => some none
      | [member] => some (some member.2)
      | _ => none
  | array items => some ((List.range names.length).map fun place => items[place]?)
  | _ => none

/-- The value of a field that has to be there. -/
def required {α : Type} (read : Toml → Option α) : Option Toml → Option α
  | some value => read value
  | none => none

/-- The values of a field that may be left out. -/
def listed {α : Type} (read : Toml → Option α) : Option Toml → Option (List α)
  | some value => asList? read value
  | none => some []

end Toml

/-- Reads a signature from its text. -/
def Signature.ofToml? (t : Toml) : Option Signature := do
  (Signature.parse (← t.asText?)).toOption

/-- Reads the name of a role. -/
def RoleId.ofToml? (t : Toml) : Option RoleId := t.asText?.map RoleId.mk

/-- Reads an excluded method. -/
def VetoDecl.ofToml? (t : Toml) : Option VetoDecl := do
  match ← t.fields? [["role"], ["method"]] with
  | [role, method] =>
    return {
      role := ← Toml.required RoleId.ofToml? role
      method := ← Toml.required Signature.ofToml? method }
  | _ => none

/-- Reads a listed role. -/
def RoleDecl.ofToml? (t : Toml) : Option RoleDecl := do
  match ← t.fields? [["name"], ["requires"], ["provides"], ["private"], ["composes"],
    ["storage"]] with
  | [name, requires, provides, privates, composes, storage] =>
    return {
      name := ← Toml.required RoleId.ofToml? name
      requires := ← Toml.listed Signature.ofToml? requires
      provides := ← Toml.listed Signature.ofToml? provides
      privates := ← Toml.listed Signature.ofToml? privates
      composes := ← Toml.listed RoleId.ofToml? composes
      storage := ← Toml.listed Toml.asText? storage }
  | _ => none

/-- Reads a listed type. -/
def TypeDecl.ofToml? (t : Toml) : Option TypeDecl := do
  match ← t.fields? [["name"], ["adopts"], ["implements"], ["veto"]] with
  | [name, adopts, implements, veto] =>
    return {
      name := ← Toml.required Toml.asText? name
      adopts := ← Toml.listed RoleId.ofToml? adopts
      implements := ← Toml.listed Signature.ofToml? implements
      veto := ← Toml.listed VetoDecl.ofToml? veto }
  | _ => none

namespace Manifest

/-- Reads a manifest. Both lists may go by their plural. -/
def ofToml? (t : Toml) : Option Manifest := do
  match ← t.fields? [["role", "roles"], ["type", "types"]] with
  | [roles, types] =>
    return {
      roles := ← Toml.listed RoleDecl.ofToml? roles
      types := ← Toml.listed TypeDecl.ofToml? types }
  | _ => none

/-- The manifest that a TOML text stands for. -/
def ofTomlText? (s : String) : Option Manifest := (Toml.ofText? s).bind ofToml?

end Manifest

end RoleComposition
