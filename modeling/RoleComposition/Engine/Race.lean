import RoleComposition.Engine.Composition

/-!
# Races for one type

Several callers ask for the outcome of one type at once. One of them fills the slot and the others
wait for it, so the race comes to the same as callers that ask one after another.
-/

namespace RoleComposition

/-- How callers that ask for one type come off. -/
structure Race where
  composed : Nat := 0
  failed : Nat := 0
  panicked : Nat := 0
  outcomes : List Outcome := []

namespace Race

/-- One more caller has come off with an outcome, or with a panic. -/
def add (race : Race) : Option Outcome → Race
  | some outcome =>
    let counted :=
      match outcome with
      | .ok _ => { race with composed := race.composed + 1 }
      | .error _ => { race with failed := race.failed + 1 }
    { counted with outcomes := race.outcomes ++ [outcome] }
  | none => { race with panicked := race.panicked + 1 }

/-- Both outcomes are one: the table of a type, or equal errors. -/
def agree : Outcome → Outcome → Bool
  | .ok a, .ok b => a.sameTable b
  | .error a, .error b => a == b
  | _, _ => false

/-- All callers that came back have the same outcome. -/
def isIdentical (race : Race) : Bool :=
  match race.outcomes with
  | [] => true
  | first :: rest => rest.all (agree first)

end Race

namespace EngineM

/-- One caller of a race: a panic is its own, and an abort is everybody's. -/
def joinRace (name : String) (race : Race) : EngineM Race := do
  match ← attempt (compose name) with
  | .ok outcome => return race.add (some outcome)
  | .error (.panic _) => return race.add none
  | .error .abort => throw .abort

/-- Lets so many callers ask for a type. -/
def race (name : String) (callers : Nat) : EngineM Race :=
  (List.range callers).foldlM (fun race _ => joinRace name race) {}

end EngineM

end RoleComposition
