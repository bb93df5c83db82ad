import RoleComposition.Engine.Composition
import RoleComposition.Proofs.Deadlocks
import RoleComposition.Proofs.Failures

/-!
# Types whose hooks compose each other

Threads compose the types of one engine, and so do the hooks that are asked meanwhile. A slot knows
its own thread, so a type that comes back to itself in one thread is refused. Nothing keeps two
threads from waiting for each other: they can come to that exactly if the hooks of two types may
compose each other, directly or through other types.

Main statements: `deadlock_iff`, `deadlocked_of_seekers`.
-/

namespace RoleComposition

open Relation (ReflTransGen TransGen)

namespace Engine

/-- The type is declared. -/
def Declares (e : Engine) (name : String) : Prop := ∃ t, e.find? name = some t

/-- The hook of the one type may compose the other. -/
def HookMayCompose (e : Engine) (a b : String) : Prop :=
  ∃ t hook, e.find? a = some t ∧ t.definition.veto = some hook ∧
    ∃ role s, (hook.opening role s).MayCompose b

/-- While the one type is composed its hook may compose the other. -/
def Composes (e : Engine) (may : String → String → Prop) (a b : String) : Prop :=
  e.Declares b ∧ may a b

/-- What threads do with the types of an engine. A thread composes any of them by itself, and while
it composes one, it composes those that this one's hook may compose. -/
def composers (e : Engine) (may : String → String → Prop) :
    Conduct String MethodTable (Option String) where
  start name := some name
  asks
    | none, b => e.Declares b
    | some a, b => e.Composes may a b
  resume s _ := s
  ends
    | none, _ => False
    | some _, _ => True
  reentry name := .reentrantComposition name
  panicked name message := .compositionPanicked (.type name) message

variable {e : Engine} {may : String → String → Prop}

theorem composes_of_needs {a b : String} (h : (e.composers may).Needs a b) :
    e.Composes may a b := by
  obtain ⟨s, hreaches, hasks⟩ := h
  have hsame : some a = s := hreaches.preserves rfl fun _ _ _ hs _ _ => hs
  subst hsame
  exact hasks

theorem declares_of_transGen {a b : String} (h : TransGen (e.Composes may) a b) :
    e.Declares b := by
  obtain ⟨_, -, hcomposes⟩ := TransGen.tail'_iff.mp h
  exact hcomposes.1

end Engine

open World in
/-- Threads that compose the types of an engine can come to wait for each other exactly if the hooks
of two types may compose each other, be it through other types. -/
theorem deadlock_iff (e : Engine) (may : String → String → Prop) :
    (∃ ms w, Run (e.composers may) (initial fun _ : Nat => none) ms w ∧ w.Deadlocked) ↔
      ∃ a b, a ≠ b ∧ TransGen (e.Composes may) a b ∧ TransGen (e.Composes may) b a := by
  constructor
  · rintro ⟨ms, w, hrun, hdeadlocked⟩
    obtain ⟨-, -, a, b, -, -, hab, hforth, hback⟩ := needs_of_deadlocked hrun hdeadlocked
    exact ⟨a, b, hab, TransGen.mono (fun _ _ => Engine.composes_of_needs) _ _ hforth,
      TransGen.mono (fun _ _ => Engine.composes_of_needs) _ _ hback⟩
  · rintro ⟨a, b, hab, hforth, hback⟩
    have hstand : ∃ ms w, Run (e.composers may) (initial fun _ : Nat => none) ms w ∧
        w.Waits 0 1 ∧ w.Waits 1 0 :=
      deadlock_of_asks Nat.zero_ne_one hab hforth.to_reflTransGen hback.to_reflTransGen
        (Engine.declares_of_transGen hback) (Engine.declares_of_transGen hforth)
    obtain ⟨ms, w, hrun, hwaits, hwaits'⟩ := hstand
    exact ⟨ms, w, hrun, 0, .tail (.single hwaits) hwaits'⟩

namespace Sample

open World

/-- A type whose hook composes another type. -/
def seeking (name other : String) : AdoptingType :=
  let ask : RoleId → Signature → Consultation := fun _ _ => .compose other fun _ => .answer true
  { name, declaredRoles := [greeting.id], veto := some ⟨ask, ask⟩ }

/-- Two types whose hooks compose each other. -/
def seekers : Engine :=
  { Engine.new rivals.freeze {} with
    types := [{ definition := seeking "east" "west" }, { definition := seeking "west" "east" }] }

theorem composes_seekers : seekers.Composes seekers.HookMayCompose "east" "west" ∧
    seekers.Composes seekers.HookMayCompose "west" "east" :=
  ⟨⟨⟨_, rfl⟩, _, _, rfl, rfl, greeting.id, greet, .inl rfl⟩,
    ⟨⟨_, rfl⟩, _, _, rfl, rfl, greeting.id, greet, .inl rfl⟩⟩

/-- Two threads that compose the two types at once. -/
theorem seekers_run : ∃ ms w,
    Run (seekers.composers seekers.HookMayCompose) (initial fun _ : Nat => none) ms w ∧
      w.Waits 0 1 ∧ w.Waits 1 0 := by
  obtain ⟨hwest, heast⟩ := composes_seekers
  have h := Run.nil (c := seekers.composers seekers.HookMayCompose)
    (w := initial fun _ : Nat => none)
  replace h := h.snoc (t := 0) (.asks (k := "east") rfl rfl heast.1)
  replace h := h.snoc (t := 1) (.asks (k := "west") rfl rfl hwest.1)
  replace h := h.snoc (t := 0) (.misses rfl rfl)
  replace h := h.snoc (t := 1) (.misses rfl rfl)
  replace h := h.snoc (t := 0) (.takes rfl rfl rfl)
  replace h := h.snoc (t := 1) (.takes rfl rfl rfl)
  replace h := h.snoc (t := 0) (.asks (k := "west") rfl rfl hwest)
  replace h := h.snoc (t := 1) (.asks (k := "east") rfl rfl heast)
  replace h := h.snoc (t := 0) (.misses rfl rfl)
  replace h := h.snoc (t := 1) (.misses rfl rfl)
  replace h := h.snoc (t := 0) (.sleeps rfl rfl rfl (by decide : 1 ≠ 0))
  replace h := h.snoc (t := 1) (.sleeps rfl rfl rfl (by decide : 0 ≠ 1))
  exact ⟨_, _, h, ⟨"west", ⟨_, rfl⟩, rfl⟩, ⟨"east", ⟨_, rfl⟩, rfl⟩⟩

end Sample

open World Sample in
/-- Two threads compose two types whose hooks compose each other: each thread sleeps on the slot
that the other is filling, and neither goes on. The merge of either type does ask for the other. -/
theorem deadlocked_of_seekers :
    (∃ ms w, Run (seekers.composers seekers.HookMayCompose) (initial fun _ : Nat => none) ms w ∧
      w.Waits 0 1 ∧ w.Waits 1 0 ∧ w.Deadlocked) ∧
    let asked (t : AdoptingType) : Except Halt Unit := (runFrom
      (EngineM.merge (fun other => throw (.panic (.text other))) t) seekers).1.map fun _ => ()
    asked (seeking "east" "west") = .error (.panic (.text "west")) ∧
      asked (seeking "west" "east") = .error (.panic (.text "east")) := by
  obtain ⟨ms, w, hrun, hwaits, hwaits'⟩ := seekers_run
  exact ⟨⟨ms, w, hrun, hwaits, hwaits', 0, .tail (.single hwaits) hwaits'⟩, by decide +kernel,
    by decide +kernel⟩

end RoleComposition
