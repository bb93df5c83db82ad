import RoleComposition.Json.Reader
import RoleComposition.Manifest

/-!
# Records as JSON

How manifests, the records of errors and the settings are written as JSON and read back. Writing
names every field; reading lets the optional ones be left out.
-/

namespace RoleComposition

open Json (Read Draft misfit)

/-- Reads a signature from its text. -/
def Signature.ofDraft (d : Draft) : Read Signature := do
  match Signature.read (← d.readString "a string") with
  | .ok s => .ok s
  | .error e => misfit (.custom e.message)

/-- A signature as its text. -/
def Signature.toJson (s : Signature) : Json := .text s.text

/-- Reads the name of a role. -/
def RoleId.ofDraft (d : Draft) : Read RoleId := do return ⟨← d.readString "a string"⟩

/-- A role as its name. -/
def RoleId.toJson (id : RoleId) : Json := .text id.name

/-- Reads a text. -/
def textOfDraft (d : Draft) : Read String := d.readString "a string"

/-- A list of values. -/
def listToJson {α : Type} (f : α → Json) (l : List α) : Json := .array (l.map f)

/-- A field that has to be there. -/
def field {α : Type} (name : String) (f : Draft → Read α) : Draft.Field :=
  { name, check := fun d => discard (f d) }

/-- A field that may be left out. -/
def optionalField {α : Type} (name : String) (f : Draft → Read α) : Draft.Field :=
  { field name f with optional := true }

/-- A field that may be left out and may go by another name. -/
def aliasedField {α : Type} (name other : String) (f : Draft → Read α) : Draft.Field :=
  { optionalField name f with aliases := [other] }

/-- Reads a list of signatures. -/
def signaturesOfDraft : Draft → Read (List Signature) := Draft.readList Signature.ofDraft

/-- Reads a list of role names. -/
def rolesOfDraft : Draft → Read (List RoleId) := Draft.readList RoleId.ofDraft

namespace VetoDecl

/-- An excluded method as a JSON value. -/
def toJson (v : VetoDecl) : Json :=
  .object [("role", v.role.toJson), ("method", v.method.toJson)]

/-- Reads an excluded method. -/
def ofDraft (d : Draft) : Read VetoDecl := do
  let found ← Draft.readFields "struct VetoDecl"
    [field "role" RoleId.ofDraft, field "method" Signature.ofDraft] d
  return {
    role := ← found.read 0 ⟨""⟩ RoleId.ofDraft
    method := ← found.read 1 ⟨.onInstance, ""⟩ Signature.ofDraft }

end VetoDecl

namespace RoleDecl

/-- A listed role as a JSON value. -/
def toJson (r : RoleDecl) : Json :=
  .object [
    ("name", r.name.toJson),
    ("requires", listToJson Signature.toJson r.requires),
    ("provides", listToJson Signature.toJson r.provides),
    ("private", listToJson Signature.toJson r.privates),
    ("composes", listToJson RoleId.toJson r.composes),
    ("storage", .ofTexts r.storage)]

/-- Reads a listed role. -/
def ofDraft (d : Draft) : Read RoleDecl := do
  let found ← Draft.readFields "struct RoleDecl"
    [field "name" RoleId.ofDraft, optionalField "requires" signaturesOfDraft,
      optionalField "provides" signaturesOfDraft, optionalField "private" signaturesOfDraft,
      optionalField "composes" rolesOfDraft,
      optionalField "storage" (Draft.readList textOfDraft)] d
  return {
    name := ← found.read 0 ⟨""⟩ RoleId.ofDraft
    requires := ← found.read 1 [] signaturesOfDraft
    provides := ← found.read 2 [] signaturesOfDraft
    privates := ← found.read 3 [] signaturesOfDraft
    composes := ← found.read 4 [] rolesOfDraft
    storage := ← found.read 5 [] (Draft.readList textOfDraft) }

end RoleDecl

namespace TypeDecl

/-- A listed type as a JSON value. -/
def toJson (t : TypeDecl) : Json :=
  .object [
    ("name", .text t.name),
    ("adopts", listToJson RoleId.toJson t.adopts),
    ("implements", listToJson Signature.toJson t.implements),
    ("veto", listToJson VetoDecl.toJson t.veto)]

/-- Reads a listed type. -/
def ofDraft (d : Draft) : Read TypeDecl := do
  let found ← Draft.readFields "struct TypeDecl"
    [field "name" textOfDraft, optionalField "adopts" rolesOfDraft,
      optionalField "implements" signaturesOfDraft,
      optionalField "veto" (Draft.readList VetoDecl.ofDraft)] d
  return {
    name := ← found.read 0 "" textOfDraft
    adopts := ← found.read 1 [] rolesOfDraft
    implements := ← found.read 2 [] signaturesOfDraft
    veto := ← found.read 3 [] (Draft.readList VetoDecl.ofDraft) }

end TypeDecl

namespace Manifest

/-- A manifest as a JSON value. -/
def toJson (m : Manifest) : Json :=
  .object [
    ("role", listToJson RoleDecl.toJson m.roles),
    ("type", listToJson TypeDecl.toJson m.types)]

/-- Reads a manifest. Both lists may go by their plural. -/
def ofDraft (d : Draft) : Read Manifest := do
  let found ← Draft.readFields "struct Manifest"
    [aliasedField "role" "roles" (Draft.readList RoleDecl.ofDraft),
      aliasedField "type" "types" (Draft.readList TypeDecl.ofDraft)] d
  return {
    roles := ← found.read 0 [] (Draft.readList RoleDecl.ofDraft)
    types := ← found.read 1 [] (Draft.readList TypeDecl.ofDraft) }

/-- The manifest that a JSON text stands for. -/
def ofText (s : String) : Read Manifest := Json.readText ofDraft s

/-- The text of a manifest, on several lines. -/
def toPrettyText (m : Manifest) : String := m.toJson.toPrettyText

end Manifest

namespace MissingCapability

/-- A missing capability as a JSON value. -/
def toJson (m : MissingCapability) : Json :=
  .object [
    ("signature", m.signature.toJson),
    ("required_by", listToJson RoleId.toJson m.requiredBy)]

/-- Reads a missing capability. -/
def ofDraft (d : Draft) : Read MissingCapability := do
  let found ← Draft.readFields "struct MissingCapability"
    [field "signature" Signature.ofDraft, field "required_by" rolesOfDraft] d
  return {
    signature := ← found.read 0 ⟨.onInstance, ""⟩ Signature.ofDraft
    requiredBy := ← found.read 1 [] rolesOfDraft }

end MissingCapability

namespace SignatureConflict

/-- A conflict as a JSON value. -/
def toJson (c : SignatureConflict) : Json :=
  .object [
    ("signature", c.signature.toJson),
    ("roles", listToJson RoleId.toJson c.roles)]

/-- Reads a conflict. -/
def ofDraft (d : Draft) : Read SignatureConflict := do
  let found ← Draft.readFields "struct SignatureConflict"
    [field "signature" Signature.ofDraft, field "roles" rolesOfDraft] d
  return {
    signature := ← found.read 0 ⟨.onInstance, ""⟩ Signature.ofDraft
    roles := ← found.read 1 [] rolesOfDraft }

end SignatureConflict

namespace Level

/-- The levels by their names. -/
def choices : List (String × Level) := [(onInstance.text, onInstance), (onType.text, onType)]

/-- Reads a level. -/
def ofDraft : Draft → Read Level := Draft.readChoice choices

end Level

namespace CompositionState

/-- The states by their names. -/
def choices : List (String × CompositionState) :=
  [uncomposed, composing, composed, failed].map fun s => (s.text, s)

/-- Reads a state. -/
def ofDraft : Draft → Read CompositionState := Draft.readChoice choices

end CompositionState

namespace StorageCheck

/-- The written name of a check. -/
def text : StorageCheck → String
  | atRegistration => "at_registration"
  | atComposition => "at_composition"

/-- The checks by their names. -/
def choices : List (String × StorageCheck) :=
  [atRegistration, atComposition].map fun c => (c.text, c)

/-- Reads a check. -/
def ofDraft : Draft → Read StorageCheck := Draft.readChoice choices

end StorageCheck

namespace FailurePolicy

/-- The written name of a policy. -/
def text : FailurePolicy → String
  | report => "report"
  | abort => "abort"

/-- The policies by their names. -/
def choices : List (String × FailurePolicy) := [report, abort].map fun p => (p.text, p)

/-- Reads a policy. -/
def ofDraft : Draft → Read FailurePolicy := Draft.readChoice choices

end FailurePolicy

namespace Config

/-- Settings as a JSON value. -/
def toJson (c : Config) : Json :=
  .object [
    ("storage_check", .text c.storageCheck.text),
    ("failure_policy", .text c.failurePolicy.text)]

/-- Reads settings. -/
def ofDraft (d : Draft) : Read Config := do
  let found ← Draft.readFields "struct ComposerConfig"
    [optionalField "storage_check" StorageCheck.ofDraft,
      optionalField "failure_policy" FailurePolicy.ofDraft] d
  return {
    storageCheck := ← found.read 0 .atRegistration StorageCheck.ofDraft
    failurePolicy := ← found.read 1 .report FailurePolicy.ofDraft }

end Config

namespace Provider

/-- The name of the field that tells the kinds of provider apart. -/
def tag : String := "kind"

/-- Reads which kind of provider is meant. -/
def isRoleOfDraft (d : Draft) : Read Bool := do
  Draft.choose [("own", false), ("role", true)] (← d.readString "variant identifier")

/-- The depth that is left for the parts of a provider. -/
def partDepth : Nat := Draft.maxDepth - 1

/-- The members of a provider but for its kind, which has to come once. All of them are read. -/
def takeMembers : List (Option String × Draft) → Option Bool → List (String × Json) →
    Read (Option Bool × List (String × Json))
  | [], kind, members => .ok (kind, members.reverse)
  | (none, _) :: _, _, _ => .error .malformed
  | (some key, d) :: rest, kind, members =>
    if key == tag then
      if kind.isSome then misfit (.repeatedField tag)
      else do takeMembers rest (some (← isRoleOfDraft d)) members
    else
      match d.toJson? partDepth with
      | some value => takeMembers rest kind ((key, value) :: members)
      | none => .error .malformed

/-- A text that is wanted in a value. -/
def stringOfJson : Json → Read String
  | .text s => .ok s
  | j => misfit (.wrongKind (Json.kind j) "a string")

/-- The role behind a provider, from members of which each counts once. -/
def roleOfMembers : List (String × Json) → Option String → Option String → Read Provider
  | [], some origin, some via => .ok (.role ⟨origin⟩ ⟨via⟩)
  | [], none, _ => misfit (.missingField "origin")
  | [], some _, none => misfit (.missingField "via")
  | (key, value) :: rest, origin, via =>
    if key == "origin" then
      if origin.isSome then misfit (.repeatedField "origin")
      else do roleOfMembers rest (some (← stringOfJson value)) via
    else if key == "via" then
      if via.isSome then misfit (.repeatedField "via")
      else do roleOfMembers rest origin (some (← stringOfJson value))
    else roleOfMembers rest origin via

/-- The values that have to be in a list. -/
def countText (n : Nat) : String :=
  if n = 1 then "1 element in sequence" else toString n ++ " elements in sequence"

/-- A provider from the values after its kind. -/
def ofItems (isRole : Bool) (items : List Json) : Read Provider :=
  if isRole then
    match items with
    | [origin, via] => do return .role ⟨← stringOfJson origin⟩ ⟨← stringOfJson via⟩
    | origin :: via :: _ => do
      discard (stringOfJson origin)
      discard (stringOfJson via)
      misfit (.wrongLength items.length (countText 2))
    | short => do
      short.forM fun item => discard (stringOfJson item)
      misfit (.wrongLength short.length "struct variant Provider::Role with 2 elements")
  else if items.isEmpty then .ok .own
  else misfit (.wrongLength items.length (countText 0))

/-- Reads a provider: an object with its kind, or a list that begins with its kind. -/
def ofDraft : Draft → Read Provider
  | .object members closed => do
    let (kind, members) ← takeMembers members none []
    if closed then
      match kind with
      | none => misfit (.missingField tag)
      | some false => .ok .own
      | some true => roleOfMembers members none none
    else .error .malformed
  | .array [] closed => if closed then misfit (.missingField tag) else .error .malformed
  | .array (kind :: items) closed => do
    let isRole ← isRoleOfDraft kind
    match items.mapM (Draft.toJson? partDepth) with
    | some values => if closed then ofItems isRole values else .error .malformed
    | none => .error .malformed
  | d => d.reject "internally tagged enum Provider"

end Provider

end RoleComposition
