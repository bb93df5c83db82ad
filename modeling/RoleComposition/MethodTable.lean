import RoleComposition.Role
import RoleComposition.Sha256

/-!
# Method tables

The effective methods of a composed type: each with its body and with who provides it. A call looks
its signature up in the table, and so does every call that a body sends on the way, with the same
receiver. The digest of a table stands for its signatures and their providers.
-/

namespace RoleComposition

/-- Who provides a method: the type itself, or a role, reached through one of the roles that the
type declares. -/
inductive Provider where
  | own
  | role (origin via : RoleId)
deriving DecidableEq, Repr

namespace Provider

/-- The role a method comes from. -/
def origin? : Provider → Option RoleId
  | own => none
  | role origin _ => some origin

/-- The written form of a provider. -/
def text : Provider → String
  | own => "own"
  | role origin via =>
    if origin = via then "role " ++ origin.name
    else "role " ++ origin.name ++ " (via " ++ via.name ++ ")"

end Provider

/-- A method of a table. -/
structure MethodEntry where
  implementation : Implementation
  provider : Provider

/-- The methods of a type. -/
structure MethodTable where
  typeName : String
  entries : SignatureMap MethodEntry

/-- How a call ends. A call `tooDeep` has sent more calls within calls than it may. -/
inductive CallOutcome where
  | returned (value : Json)
  | failed (error : CallError)
  | panicked (payload : Panic)
  | tooDeep

/-- Runs a body whose calls are answered by a function. -/
def Act.run (answer : Signature → List Json → CallOutcome) : Act → CallOutcome
  | .done value => .returned value
  | .fail error => .failed error
  | .panic payload => .panicked payload
  | .send signature args next =>
    match answer signature args with
    | .returned value => (next (.ok value)).run answer
    | .failed error => (next (.error error)).run answer
    | .panicked payload => .panicked payload
    | .tooDeep => .tooDeep

namespace MethodTable

/-- The method of a signature. -/
def get? (t : MethodTable) (s : Signature) : Option MethodEntry := t.entries.find? s

/-- Both are the table that one engine holds for a type, of which it makes at most one. -/
def sameTable (a b : MethodTable) : Bool := a.typeName == b.typeName

/-- The signatures of the methods that the type brings itself. -/
def ownSignatures (t : MethodTable) : List Signature :=
  (t.entries.filter fun _ e => e.provider == .own).signatures

/-- The signatures of the methods that come from roles. -/
def roleSignatures (t : MethodTable) : List Signature :=
  (t.entries.filter fun _ e => e.provider != .own).signatures

/-- What the digest takes in: each signature, a NUL, its provider, a line break. -/
def provenance (t : MethodTable) : List Char :=
  t.entries.toList.flatMap fun e =>
    e.1.text.toList ++ '\x00' :: e.2.provider.text.toList ++ ['\n']

/-- The bytes that the digest takes in. -/
def provenanceBytes (t : MethodTable) : List UInt8 := (String.ofList t.provenance).toUTF8.toList

/-- The content address of a table's signatures and providers. -/
def digest (t : MethodTable) : String := Sha256.hexDigest t.provenanceBytes

/-- Calls a method of the table. Up to `depth` calls may stand within each other. -/
def invoke (t : MethodTable) (receiver : Json) : Nat → Signature → List Json → CallOutcome
  | 0, _, _ => .tooDeep
  | depth + 1, s, args =>
    match t.get? s with
    | none => .failed (.methodNotFound t.typeName s)
    | some e =>
      match (e.implementation.body ⟨t.typeName, s, receiver⟩ args).run
          (t.invoke receiver depth) with
      | .failed error => .failed (.methodFailed t.typeName s error)
      | outcome => outcome

end MethodTable

end RoleComposition
