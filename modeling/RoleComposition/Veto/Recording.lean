import RoleComposition.Veto

/-!
# Hooks that keep a record

A recording hook follows written instructions and takes a note of each consultation: what it
composes and looks at first, whether it panics once the note is kept, and which methods it
excludes.
-/

namespace RoleComposition

/-- The instructions of a recording hook. -/
structure Instructions where
  compose : Option String := none
  observe : Option String := none
  panic : Option Panic := none
  dropRoles : List RoleId := []
  dropSignatures : List String := []
  dropEntries : List Level := []

namespace Instructions

/-- The method stays, as far as these instructions go. -/
def keeps (i : Instructions) (entry : Level) (role : RoleId) (s : Signature) : Bool :=
  !(i.dropRoles.contains role || i.dropSignatures.contains s.text || i.dropEntries.contains entry)

/-- Keeps a note and answers, or panics. -/
def finish (i : Instructions) (n : Note) : Consultation :=
  .note n <|
    match i.panic with
    | some payload => .panic payload
    | none => .answer (i.keeps n.entry n.role n.signature)

/-- Looks at a type, if it should and there is one, and goes on. -/
def lookAround (i : Instructions) (n : Note) : Consultation :=
  match i.observe with
  | some name => .observe name fun seen => i.finish { n with observed := seen.toOption }
  | none => i.finish n

/-- A consultation at an entry point. -/
def consult (i : Instructions) (entry : Level) (role : RoleId) (s : Signature) : Consultation :=
  let n : Note := { entry, role, signature := s }
  match i.compose with
  | some name => .compose name fun outcome => i.lookAround { n with composed := some outcome }
  | none => i.lookAround n

/-- The hook that follows these instructions. -/
def hook (i : Instructions) : Hook := ⟨i.consult .onInstance, i.consult .onType⟩

end Instructions

end RoleComposition
