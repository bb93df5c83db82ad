import RoleComposition.Error
import RoleComposition.Json

/-!
# Method bodies

A body is a program over JSON values. It answers a call, fails, or panics, and on the way it may
send further calls to the same receiver and go on with their answers. An implementation is a body
with a label for people and a mark by which two uses of one body are recognised.
-/

namespace RoleComposition

/-- What a panic carries: a text, or something that is none. -/
inductive Panic where
  | text (message : String)
  | other
deriving DecidableEq, Repr

/-- The text of a panic. -/
def Panic.message : Panic → String
  | text message => message
  | other => "non-string panic payload"

/-- Why a call gave no value. -/
inductive CallError where
  | notComposed (typeName : String)
  | unusable (typeName : String) (cause : CompositionError)
  | methodNotFound (typeName : String) (signature : Signature)
  | methodFailed (typeName : String) (signature : Signature) (cause : CallError)
  | raised (message : String)
  | context (message : String) (cause : CallError)
deriving DecidableEq, Repr

namespace CallError

/-- The wording of a failed call. -/
def message : CallError → String
  | notComposed typeName =>
    "type " ++ typeName ++ " has not been composed; the lifecycle trigger must run first"
  | unusable typeName cause =>
    "type " ++ typeName ++ " failed composition and is unusable: " ++ cause.message
  | methodNotFound typeName signature => "type " ++ typeName ++ " has no method " ++ signature.text
  | methodFailed typeName signature cause =>
    "method " ++ signature.text ++ " on " ++ typeName ++ " failed: " ++ cause.message
  | raised message => message
  | context message _ => message

/-- The wordings of the causes, the outermost first. -/
def causes : CallError → List String
  | unusable _ cause => [cause.message]
  | methodFailed _ _ cause => cause.message :: cause.causes
  | context _ cause => cause.message :: cause.causes
  | _ => []

end CallError

/-- What a body is called with besides the arguments. -/
structure Call where
  typeName : String
  signature : Signature
  receiver : Json

/-- What a running body does next. A call that it sends comes back with a value or an error. -/
inductive Act where
  | done (value : Json)
  | fail (error : CallError)
  | panic (payload : Panic)
  | send (signature : Signature) (args : List Json) (next : Except CallError Json → Act)

namespace Act

/-- Goes on with the value of a run. -/
def andThen : Act → (Json → Act) → Act
  | done value, f => f value
  | fail error, _ => fail error
  | panic payload, _ => panic payload
  | send signature args next, f => send signature args fun reply => (next reply).andThen f

/-- Puts another error in place of the one that a run ends with. -/
def mapError (f : CallError → CallError) : Act → Act
  | done value => done value
  | fail error => fail (f error)
  | panic payload => panic payload
  | send signature args next => send signature args fun reply => (next reply).mapError f

/-- Ends with the answer to a call. -/
def ofReply : Except CallError Json → Act
  | .ok value => done value
  | .error error => fail error

end Act

/-- A body: what it does for a call and its arguments. -/
abbrev Body := Call → List Json → Act

namespace Body

/-- Answers with a fixed value. -/
def constant (value : Json) : Body := fun _ _ => .done value

/-- Answers with nothing. -/
def placeholder : Body := constant .null

/-- Answers with a field of the receiver, or nothing. -/
def receiverField (name : String) : Body := fun call _ =>
  .done ((call.receiver.field? name).getD .null)

/-- Answers with an argument, or nothing. -/
def argument (index : Nat) : Body := fun _ args => .done (args[index]?.getD .null)

/-- Fails with a message. -/
def failing (message : String) : Body := fun _ _ => .fail (.raised message)

/-- Panics with a text. -/
def panicking (message : String) : Body := fun _ _ => .panic (.text message)

/-- A signature as a record of its parts and its text. -/
def signatureRecord (s : Signature) : Json :=
  .object [("level", .text s.level.text), ("name", .text s.name), ("text", .text s.text)]

/-- Answers with what the body is called with. -/
def describing : Body := fun call args =>
  .done (.object [
    ("type", .text call.typeName),
    ("signature", signatureRecord call.signature),
    ("receiver", call.receiver),
    ("args", .array args)])

/-- Runs bodies in turn and goes on with their values. -/
def inTurn : List Body → (List Json → Act) → Call → List Json → Act
  | [], f, _, _ => f []
  | body :: rest, f, call, args =>
    (body call args).andThen fun value =>
      inTurn rest (fun values => f (value :: values)) call args

/-- Answers with the values of several bodies. -/
def listing (bodies : List Body) : Body := fun call args =>
  inTurn bodies (fun values => .done (.array values)) call args

/-- Sends a call with the values of some bodies as its arguments, and passes on the answer. -/
def sending (target : Except CompositionError Signature) (args : List Body) : Body :=
  fun call given =>
    inTurn args
      (fun values =>
        match target with
        | .ok signature => .send signature values Act.ofReply
        | .error error => .fail (.raised error.message))
      call given

/-- Gives the failure of a body a message of its own. -/
def inContext (message : String) (body : Body) : Body := fun call args =>
  (body call args).mapError (.context message)

end Body

/-- By what a body is recognised: its number among the bodies that were given, or the place for
which it stands in. -/
inductive Mark where
  | given (number : Nat)
  | standIn (owner : Owner) (signature : Signature)
deriving DecidableEq, Repr

/-- A body with its label. -/
structure Implementation where
  label : String
  mark : Mark
  body : Body

namespace Implementation

/-- Both are uses of one body. -/
def sameBody (a b : Implementation) : Bool := a.mark == b.mark

/-- The body that stands in for one that is not there. -/
def standIn (owner : Owner) (signature : Signature) : Implementation :=
  ⟨owner.name ++ "." ++ signature.text, .standIn owner signature, Body.placeholder⟩

end Implementation

end RoleComposition
