import RoleComposition.Text.Blank

/-!
# Method signatures

A method is known by its name and by whom it is called on. Two methods of one name on different
levels have nothing to do with each other. A signature is written as its name, with `type::` in
front when it belongs to the type itself, and it is read back from that text.
-/

namespace RoleComposition

/-- Whom a method is called on: a value of the type, or the type itself. -/
inductive Level where
  | onInstance
  | onType
deriving DecidableEq, Repr

namespace Level

/-- The written name of a level. -/
def text : Level → String
  | onInstance => "instance"
  | onType => "type"

end Level

/-- A method's level and name. -/
structure Signature where
  level : Level
  name : String
deriving DecidableEq, Repr

namespace Signature

/-- What stands in front of the name of a method of the type itself. -/
def typeMark : List Char := ['t', 'y', 'p', 'e', ':', ':']

/-- The written form of a signature. -/
def text (s : Signature) : String :=
  match s.level with
  | .onInstance => s.name
  | .onType => String.ofList (typeMark ++ s.name.toList)

/-- Why a text is no signature. -/
inductive Fault where
  | emptyName
  | blankInName
deriving DecidableEq, Repr

/-- The wording of a fault. -/
def Fault.reason : Fault → String
  | emptyName => "method name is empty"
  | blankInName => "method name contains whitespace"

/-- Level and name of a trimmed text: one mark of the type level is taken off. -/
def splitMark (cs : List Char) : Level × List Char :=
  if typeMark.isPrefixOf cs then (.onType, cs.drop typeMark.length) else (.onInstance, cs)

/-- The signature that a text stands for. Blanks around the text do not count; blanks inside the
name, or no name at all, are faults. -/
def parse (input : String) : Except Fault Signature :=
  let (level, name) := splitMark (Text.trimChars input.toList)
  if name.isEmpty then .error .emptyName
  else if name.any Text.isBlank then .error .blankInName
  else .ok ⟨level, String.ofList name⟩

/-- Methods of instances come before methods of the type, and within a level the names decide. -/
def Precedes (a b : Signature) : Prop :=
  a.level = b.level ∧ a.name < b.name ∨ a.level = .onInstance ∧ b.level = .onType

instance : LT Signature := ⟨Precedes⟩

instance (a b : Signature) : Decidable (a < b) :=
  inferInstanceAs (Decidable (_ ∨ _))

theorem lt_irrefl (a : Signature) : ¬ a < a := by
  rintro (⟨-, below⟩ | ⟨left, right⟩)
  · exact String.lt_irrefl a.name below
  · exact absurd (left.symm.trans right) (by decide)

theorem lt_trans {a b c : Signature} (left : a < b) (right : b < c) : a < c := by
  rcases left with ⟨sameLeft, left⟩ | ⟨atInstance, atType⟩
  · rcases right with ⟨sameRight, right⟩ | ⟨atInstance, atType⟩
    · exact .inl ⟨sameLeft.trans sameRight, String.lt_trans left right⟩
    · exact .inr ⟨sameLeft.trans atInstance, atType⟩
  · rcases right with ⟨sameRight, _⟩ | ⟨atInstance', _⟩
    · exact .inr ⟨atInstance, sameRight.symm.trans atType⟩
    · exact absurd (atInstance'.symm.trans atType) (by decide)

theorem lt_or_eq_or_gt (a b : Signature) : a < b ∨ a = b ∨ b < a := by
  obtain ⟨la, na⟩ := a
  obtain ⟨lb, nb⟩ := b
  by_cases levels : la = lb
  · subst levels
    by_cases below : na < nb
    · exact .inl (.inl ⟨rfl, below⟩)
    · by_cases above : nb < na
      · exact .inr (.inr (.inl ⟨rfl, above⟩))
      · exact .inr (.inl
          (by rw [String.le_antisymm (String.not_lt.1 above) (String.not_lt.1 below)]))
  · cases la
    · exact .inl (.inr ⟨rfl, by cases lb <;> simp_all⟩)
    · exact .inr (.inr (.inr ⟨by cases lb <;> simp_all, rfl⟩))

theorem lt_of_ne_of_not_lt {a b : Signature} (differ : a ≠ b) (notBelow : ¬ a < b) : b < a := by
  rcases lt_or_eq_or_gt a b with h | h | h
  · exact absurd h notBelow
  · exact absurd h differ
  · exact h

end Signature

end RoleComposition
