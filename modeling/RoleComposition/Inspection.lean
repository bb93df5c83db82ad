import RoleComposition.Engine

/-!
# Inspection

How roles, types, tables and engines look to someone who inspects a running program: as values
built from words, quoted texts, records, lists and tables, all on one line.
-/

namespace RoleComposition

/-- A value as it is shown for inspection. -/
inductive Shown where
  | word (name : String)
  | quoted (text : String)
  | wrapped (name : String) (value : Shown)
  | record (name : String) (fields : List (String × Shown))
  | list (items : List Shown)
  | set (items : List Shown)
  | table (entries : List (Shown × Shown))

namespace Shown

/-- Opens a brace. -/
def openBrace : String := "\x7b"

/-- Closes a brace. -/
def closeBrace : String := "\x7d"

mutual

/-- The text of a shown value. A record has at least one field. -/
def render : Shown → String
  | word name => name
  | quoted text => Text.quoted text
  | wrapped name value => name ++ "(" ++ render value ++ ")"
  | record name fields =>
    name ++ " " ++ openBrace ++ " " ++ ", ".intercalate (renderFields fields) ++ " " ++ closeBrace
  | list items => "[" ++ ", ".intercalate (renderItems items) ++ "]"
  | set items => openBrace ++ ", ".intercalate (renderItems items) ++ closeBrace
  | table entries => openBrace ++ ", ".intercalate (renderEntries entries) ++ closeBrace

/-- The texts of items. -/
def renderItems : List Shown → List String
  | [] => []
  | item :: items => render item :: renderItems items

/-- The texts of fields. -/
def renderFields : List (String × Shown) → List String
  | [] => []
  | (name, value) :: fields => (name ++ ": " ++ render value) :: renderFields fields

/-- The texts of entries. -/
def renderEntries : List (Shown × Shown) → List String
  | [] => []
  | (key, value) :: entries => (render key ++ ": " ++ render value) :: renderEntries entries

end

/-- A number. -/
def number (n : Nat) : Shown := word (toString n)

/-- A truth value. -/
def truth (b : Bool) : Shown := word (if b then "true" else "false")

/-- A value that may be missing. -/
def optional : Option Shown → Shown
  | some value => wrapped "Some" value
  | none => word "None"

end Shown

/-- A role's name for inspection. -/
def RoleId.shown (id : RoleId) : Shown := .wrapped "RoleId" (.quoted id.name)

/-- A level for inspection. -/
def Level.shown : Level → Shown
  | onInstance => .word "Instance"
  | onType => .word "Type"

/-- A signature for inspection. -/
def Signature.shown (s : Signature) : Shown :=
  .record "MethodSignature" [("level", s.level.shown), ("name", .quoted s.name)]

/-- An implementation for inspection: only its label shows. -/
def Implementation.shown (i : Implementation) : Shown :=
  .wrapped "Implementation" (.quoted i.label)

/-- A role's definition for inspection. -/
def RoleDefinition.shown (r : RoleDefinition) : Shown :=
  .record "RoleDefinition" [
    ("id", r.id.shown),
    ("required", .set (r.required.signatures.map Signature.shown)),
    ("provided", .table (r.provided.toList.map fun e => (e.1.shown, e.2.shown))),
    ("public", .set (r.publics.signatures.map Signature.shown)),
    ("composed", .list (r.composed.map RoleId.shown)),
    ("storage", .list (r.storage.map .quoted))]

/-- A type's definition for inspection: of its methods only the signatures show. -/
def AdoptingType.shown (t : AdoptingType) : Shown :=
  .record "AdoptingType" [
    ("name", .quoted t.name),
    ("declared_roles", .list (t.declaredRoles.map RoleId.shown)),
    ("own_methods", .list (t.ownMethods.signatures.map Signature.shown)),
    ("has_veto", .truth t.veto.isSome)]

/-- A provider for inspection. -/
def Provider.shown : Provider → Shown
  | own => .word "Own"
  | role origin via => .record "Role" [("origin", origin.shown), ("via", via.shown)]

/-- A method for inspection. -/
def MethodEntry.shown (e : MethodEntry) : Shown :=
  .record "MethodEntry"
    [("implementation", e.implementation.shown), ("provider", e.provider.shown)]

/-- A table for inspection. -/
def MethodTable.shown (t : MethodTable) : Shown :=
  .record "MethodTable" [
    ("type_name", .quoted t.typeName),
    ("entries", .table (t.entries.toList.map fun e => (e.1.shown, e.2.shown)))]

/-- A handle for inspection. -/
def Handle.shown (h : Handle) : Shown :=
  .record "TypeHandle"
    [("index", .wrapped "TypeIndex" (.number h.index)), ("name", .quoted h.name)]

/-- A storage check for inspection. -/
def StorageCheck.shown : StorageCheck → Shown
  | atRegistration => .word "AtRegistration"
  | atComposition => .word "AtComposition"

/-- A failure policy for inspection. -/
def FailurePolicy.shown : FailurePolicy → Shown
  | report => .word "Report"
  | abort => .word "Abort"

/-- An engine for inspection: its roles by name, its settings, and how many types it has. -/
def Engine.shown (e : Engine) : Shown :=
  .record "CompositionEngine" [
    ("registry", .record "RoleRegistry" [("roles", .list (e.registry.ids.map RoleId.shown))]),
    ("config", .record "ComposerConfig"
      [("storage_check", e.config.storageCheck.shown),
        ("failure_policy", e.config.failurePolicy.shown)]),
    ("types", .number e.types.length)]

end RoleComposition
