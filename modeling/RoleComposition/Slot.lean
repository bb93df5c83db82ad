import RoleComposition.Error

/-!
# One-shot slots

A slot is filled once: by the outcome of one run, be it a value or an error. While the run goes on
the slot is taken, and who asks for its outcome from within the run gets none.
-/

namespace RoleComposition

/-- Where a composition stands. -/
inductive CompositionState where
  | uncomposed
  | composing
  | composed
  | failed
deriving DecidableEq, Repr

namespace CompositionState

/-- The written name of a state. -/
def text : CompositionState → String
  | uncomposed => "uncomposed"
  | composing => "composing"
  | composed => "composed"
  | failed => "failed"

/-- The state is never left. -/
def isTerminal : CompositionState → Bool
  | composed | failed => true
  | uncomposed | composing => false

end CompositionState

/-- A slot for one outcome. -/
inductive Slot (α : Type) where
  | vacant
  | running
  | settled (outcome : Except CompositionError α)
deriving Inhabited

namespace Slot

variable {α : Type}

/-- The outcome, once there is one. -/
def outcome? : Slot α → Option (Except CompositionError α)
  | settled outcome => some outcome
  | _ => none

/-- Where the slot's run stands. -/
def state : Slot α → CompositionState
  | vacant => .uncomposed
  | running => .composing
  | settled (.ok _) => .composed
  | settled (.error _) => .failed

/-- No run has been started. -/
def isVacant : Slot α → Bool
  | vacant => true
  | _ => false

end Slot

end RoleComposition
