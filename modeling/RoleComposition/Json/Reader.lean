import RoleComposition.Json.Draft
import RoleComposition.Text.Quoted

/-!
# Reading shapes out of drafts

Readers for the shapes that the records of this library are made of: texts, lists, words of a
fixed choice, and records. A record is written as an object or as the list of its fields. A reader
stops at the first thing that does not fit. Fields that a record does not have are passed over.
-/

namespace RoleComposition.Json

/-- A value that is not of the shape wanted. -/
inductive Misfit where
  | missingField (name : String)
  | repeatedField (name : String)
  | wrongKind (found expected : String)
  | wrongLength (found : Nat) (expected : String)
  | unknownChoice (found : String) (choices : List String)
  | custom (message : String)
deriving DecidableEq, Repr

/-- Why a text could not be read: its grammar is at fault, or a value does not fit. -/
inductive ReadError where
  | malformed
  | misfit (cause : Misfit)
deriving DecidableEq, Repr

/-- A name between grave accents. -/
def ticked (name : String) : String := "`" ++ name ++ "`"

/-- The choices that were open. -/
def choicesText : List String → String
  | [] => "there are no variants"
  | [only] => "expected " ++ ticked only
  | [first, second] => "expected " ++ ticked first ++ " or " ++ ticked second
  | many => "expected one of " ++ ", ".intercalate (many.map ticked)

/-- The wording of a misfit. -/
def Misfit.message : Misfit → String
  | missingField name => "missing field " ++ ticked name
  | repeatedField name => "duplicate field " ++ ticked name
  | wrongKind found expected => "invalid type: " ++ found ++ ", expected " ++ expected
  | wrongLength found expected =>
    "invalid length " ++ toString found ++ ", expected " ++ expected
  | unknownChoice found choices => "unknown variant " ++ ticked found ++ ", " ++ choicesText choices
  | custom message => message

/-- What a number is called in a misfit. -/
def numberKind : Number → String
  | .integer i => "integer " ++ ticked (String.ofList (numberText (.integer i)))
  | .decimal d => "floating point " ++ ticked (String.ofList d.text)

/-- What a truth value is called in a misfit. -/
def boolKind (b : Bool) : String := "boolean " ++ ticked (if b then "true" else "false")

/-- What a value is called in a misfit. -/
def kind : Json → String
  | null => "null"
  | bool b => boolKind b
  | number n => numberKind n
  | text s => "string " ++ Text.quoted s
  | array _ => "sequence"
  | object _ => "map"

/-- The result of reading. -/
abbrev Read (α : Type) := Except ReadError α

/-- Stops at a value that does not fit. -/
def misfit {α : Type} (cause : Misfit) : Read α := .error (.misfit cause)

namespace Draft

/-- What a draft is called in a misfit; one that cannot be told is a fault of grammar. -/
def kind : Draft → Read String
  | null => .ok "null"
  | bool b => .ok (boolKind b)
  | number (some n) => .ok (numberKind n)
  | text (some s) => .ok ("string " ++ Text.quoted s)
  | array _ _ => .ok "sequence"
  | object _ _ => .ok "map"
  | _ => .error .malformed

/-- Stops at a value of the wrong kind. -/
def reject {α : Type} (d : Draft) (expected : String) : Read α := do
  misfit (.wrongKind (← d.kind) expected)

/-- The text that is wanted here. -/
def readString (expected : String) : Draft → Read String
  | text (some s) => .ok s
  | d => d.reject expected

/-- The list that is wanted here. -/
def readList {α : Type} (item : Draft → Read α) : Draft → Read (List α)
  | array items closed => do
    let values ← items.mapM item
    if closed then .ok values else .error .malformed
  | d => d.reject "a sequence"

/-- One of the choices, by its name. -/
def choose {α : Type} (choices : List (String × α)) (name : String) : Read α :=
  match choices.find? fun c => c.1 == name with
  | some (_, a) => .ok a
  | none => misfit (.unknownChoice name (choices.map Prod.fst))

/-- Passes over a value. -/
def skip (d : Draft) : Read Unit := if d.isWhole then .ok () else .error .malformed

/-- The choice that is wanted here: a word, or an object whose only key is the word, with `null`
as its value. -/
def readChoice {α : Type} (choices : List (String × α)) : Draft → Read α
  | text (some name) => choose choices name
  | object ((key, value) :: members) closed => do
    let a ← match key with
      | some name => choose choices name
      | none => .error .malformed
    match value with
    | null => if members.isEmpty ∧ closed then .ok a else .error .malformed
    | value => value.reject "unit"
  | _ => .error .malformed

/-- A field of a record: its name, its other names, whether it may be left out, and the check of
its value. -/
structure Field where
  name : String
  aliases : List String := []
  optional : Bool := false
  check : Draft → Read Unit

/-- The place of the field that a key stands for. -/
def Field.indexOf? (fields : List Field) (key : String) : Option Nat :=
  fields.findIdx? fun f => f.name == key || f.aliases.contains key

/-- The fields of a record by their places, as far as they were found. -/
abbrev Found := List (Nat × Draft)

/-- The value found for a field. -/
def Found.get? (found : Found) (index : Nat) : Option Draft :=
  (found.find? fun entry => entry.1 == index).map Prod.snd

/-- Takes the members of an object in turn: a field may come once, and its value is checked when
it comes. -/
def takeMembers (fields : List Field) :
    List (Option String × Draft) → Found → Read Found
  | [], found => .ok found
  | (none, _) :: _, _ => .error .malformed
  | (some key, value) :: members, found =>
    match Field.indexOf? fields key with
    | none => do
      value.skip
      takeMembers fields members found
    | some index =>
      match fields[index]? with
      | none => .error .malformed
      | some field =>
        if (found.get? index).isSome then misfit (.repeatedField field.name)
        else do
          field.check value
          takeMembers fields members ((index, value) :: found)

/-- Fields that are wanted and were not found are misfits. -/
def checkPresent (fields : List Field) (found : Found) : Read Unit :=
  fields.zipIdx.forM fun (field, index) =>
    if field.optional || (found.get? index).isSome then .ok ()
    else misfit (.missingField field.name)

/-- Takes the items of a list as the values of the fields in turn. -/
def takeItems (title : String) (count : Nat) (closed : Bool) :
    List (Field × Nat) → List Draft → Found → Read Found
  | [], [], found => if closed then .ok found else .error .malformed
  | [], _ :: _, _ => .error .malformed
  | (field, index) :: fields, [], found =>
    if !closed then .error .malformed
    else if field.optional then takeItems title count closed fields [] found
    else misfit (.wrongLength index
      (title ++ " with " ++ toString count ++ " elements"))
  | (field, index) :: fields, item :: items, found => do
    field.check item
    takeItems title count closed fields items ((index, item) :: found)

/-- The values of a record's fields, each of which fits. -/
def readFields (title : String) (fields : List Field) : Draft → Read Found
  | object members closed => do
    let found ← takeMembers fields members []
    if closed then do
      checkPresent fields found
      return found
    else .error .malformed
  | array items closed => takeItems title fields.length closed fields.zipIdx items []
  | d => d.reject title

/-- The value of a field that was found, or else its default. -/
def Found.read {α : Type} (found : Found) (index : Nat) (default : α) (f : Draft → Read α) :
    Read α :=
  match found.get? index with
  | some d => f d
  | none => .ok default

end Draft

/-- Reads a whole text with a reader for drafts. -/
def readText {α : Type} (f : Draft → Read α) (s : String) : Read α := do
  let (draft, ended) := Draft.ofText s
  let a ← f draft
  if ended then .ok a else .error .malformed

end RoleComposition.Json
