import Mathlib.Data.List.Forall2
import RoleComposition.Proofs.History

/-!
# Sound engines

`Sound` is the invariant that holds of an engine whenever it can be looked at, between two calls
and while a hook has control. `Leads` says what a completed composition does to the other types:
nothing, unless it has composed them from vacant to settled. `Progress` orders any two moments of a
run: slots only move forward.
-/

namespace RoleComposition

/-- A slot moves from vacant over running to settled, and a settled one never moves. -/
inductive Slot.Leads {α : Type} : Slot α → Slot α → Prop
  | same (slot : Slot α) : Leads slot slot
  | start : Leads .vacant .running
  | fill (outcome : Except CompositionError α) : Leads .vacant (.settled outcome)
  | finish (outcome : Except CompositionError α) : Leads .running (.settled outcome)

theorem Slot.Leads.trans {α : Type} {a b c : Slot α} (h : a.Leads b) (h' : b.Leads c) :
    a.Leads c := by
  cases h with
  | same => exact h'
  | start =>
    cases h' with
    | same => exact .start
    | finish outcome => exact .fill outcome
  | fill outcome =>
    cases h' with
    | same => exact .fill outcome
  | finish outcome =>
    cases h' with
    | same => exact .finish outcome

/-- A settled slot stays as it is. -/
theorem Slot.Leads.eq_of_settled {α : Type} {outcome : Except CompositionError α} {slot : Slot α}
    (h : (Slot.settled outcome).Leads slot) : slot = .settled outcome := by
  cases h
  rfl

theorem Slot.outcome?_eq_some {α : Type} {slot : Slot α} {outcome : Except CompositionError α} :
    slot.outcome? = some outcome ↔ slot = .settled outcome := by
  cases slot <;> simp [Slot.outcome?]

/-- What the outcome of a settled type can be: its merge has panicked, or it has come to an end,
with an error that it has found or a table; under a rule it is what the definitions decide. -/
def Registry.Settles (reg : Registry) (config : Config) (t : AdoptingType) (outcome : Outcome) :
    Prop :=
  (∃ payload : Panic, outcome = .error (.compositionPanicked (.type t.name) payload.message)) ∨
    (∀ error, outcome = .error error → error.IsFound) ∧
      ∀ keep, t.AnswersBy keep → outcome = reg.outcomeOf config t keep

namespace Engine

/-- The slot of a type; a type that is not declared is vacant. -/
def slotOf (e : Engine) (name : String) : Slot MethodTable :=
  ((e.find? name).map TypeEntry.slot).getD .vacant

/-- How often the log says that the merge of a type has started. -/
def starts (e : Engine) (name : String) : Nat :=
  e.log.countP fun l =>
    match l.event with
    | .compositionStarted typeName _ => typeName == name
    | _ => false

/-- The invariant of an engine that can be looked at. -/
structure Sound (e : Engine) : Prop where
  registry : e.registry.Sound
  distinct : (e.types.map fun t => t.definition.name).Nodup
  marked : ∀ t ∈ e.types, t.settled = t.slot.state.isTerminal
  settles : ∀ t ∈ e.types, ∀ outcome, t.slot = .settled outcome →
    e.registry.Settles e.config t.definition outcome
  nested : e.spans.Nodup
  running : ∀ name, name ∈ e.spans ↔ e.slotOf name = .running
  started : ∀ name, e.starts name = if (e.slotOf name).isVacant then 0 else 1

/-- Slots, configuration and definitions as they are, or further. -/
structure Progress (e e' : Engine) : Prop where
  definitions : e'.registry.definitions = e.registry.definitions
  config : e'.config = e.config
  types : ∀ name t, e.find? name = some t →
    ∃ t', e'.find? name = some t' ∧ t'.definition = t.definition ∧ t.slot.Leads t'.slot

end Engine

/-- A completed composition leaves a type as it is, or has composed it. -/
def TypeEntry.Leads (t t' : TypeEntry) : Prop :=
  t' = t ∨ t.slot = .vacant ∧ t'.definition = t.definition ∧ ∃ outcome, t'.slot = .settled outcome

namespace TypeEntry.Leads

variable {t t' t'' : TypeEntry}

theorem trans (h : t.Leads t') (h' : t'.Leads t'') : t.Leads t'' := by
  rcases h with rfl | ⟨hvacant, hdef, outcome, hslot⟩
  · exact h'
  · rcases h' with rfl | ⟨hvacant', -⟩
    · exact .inr ⟨hvacant, hdef, outcome, hslot⟩
    · rw [hslot] at hvacant'
      cases hvacant'

theorem definition (h : t.Leads t') : t'.definition = t.definition := by
  rcases h with rfl | ⟨-, hdef, -⟩
  · rfl
  · exact hdef

theorem slot (h : t.Leads t') : t.slot.Leads t'.slot := by
  rcases h with rfl | ⟨hvacant, -, outcome, hslot⟩
  · exact .same _
  · rw [hvacant, hslot]
    exact .fill outcome

theorem running (h : t.Leads t') : t'.slot = .running ↔ t.slot = .running := by
  rcases h with rfl | ⟨hvacant, -, outcome, hslot⟩
  · exact Iff.rfl
  · rw [hvacant, hslot]
    simp

/-- A type that has been started is left as it is. -/
theorem eq_of_not_vacant (h : t.Leads t') (ht : t.slot ≠ .vacant) : t' = t :=
  h.resolve_right fun h' => ht h'.1

end TypeEntry.Leads

namespace Engine

/-- What a completed composition, or a part of one, does to an engine: types that are running or
settled stay as they are. -/
structure Leads (e e' : Engine) : Prop where
  definitions : e'.registry.definitions = e.registry.definitions
  config : e'.config = e.config
  spans : e'.spans = e.spans
  types : List.Forall₂ TypeEntry.Leads e.types e'.types

/-- A step that changes nothing but counters, notes and the log, and starts no merge. -/
structure Quiet (e e' : Engine) : Prop where
  registry : e'.registry = e.registry
  config : e'.config = e.config
  types : e'.types = e.types
  spans : e'.spans = e.spans
  starts : ∀ name, e'.starts name = e.starts name

/-! ## Entries by name -/

theorem name_of_find? {e : Engine} {name : String} {t : TypeEntry} (h : e.find? name = some t) :
    t.definition.name = name := by
  simpa using List.find?_some h

theorem mem_of_find? {e : Engine} {name : String} {t : TypeEntry} (h : e.find? name = some t) :
    t ∈ e.types :=
  List.mem_of_find?_eq_some h

theorem find?_of_mem {e : Engine} (hd : (e.types.map fun t => t.definition.name).Nodup)
    {t : TypeEntry} (ht : t ∈ e.types) : e.find? t.definition.name = some t := by
  cases hf : e.find? t.definition.name with
  | none =>
    have := List.find?_eq_none.1 hf t ht
    simp at this
  | some t' =>
    rw [List.inj_on_of_nodup_map hd (mem_of_find? hf) ht (name_of_find? hf)]

theorem slotOf_of_find? {e : Engine} {name : String} {t : TypeEntry}
    (h : e.find? name = some t) : e.slotOf name = t.slot := by
  rw [slotOf, h]
  rfl

theorem exists_find?_of_slotOf {e : Engine} {name : String} (h : e.slotOf name ≠ .vacant) :
    ∃ t, e.find? name = some t ∧ t.slot = e.slotOf name := by
  cases hf : e.find? name with
  | none => exact absurd (by rw [slotOf, hf]; rfl) h
  | some t => exact ⟨t, rfl, (slotOf_of_find? hf).symm⟩

/-- The entries after one of them has been changed under its name. -/
theorem find?_updateEntry {e : Engine} {name : String} {f : TypeEntry → TypeEntry}
    (hf : ∀ t, (f t).definition = t.definition) (b : String) :
    (e.updateEntry name f).find? b =
      (e.find? b).map fun t => if b = name then f t else t := by
  unfold find? updateEntry
  rw [List.find?_map]
  have hp : ((fun t : TypeEntry => t.definition.name == b) ∘ fun t : TypeEntry =>
      if t.definition.name = name then f t else t) = fun t => t.definition.name == b := by
    funext t
    simp only [Function.comp]
    split_ifs <;> simp [hf]
  rw [hp]
  cases hfind : e.types.find? (fun t => t.definition.name == b) with
  | none => rfl
  | some t =>
    have hb : t.definition.name = b := by simpa using List.find?_some hfind
    simp [hb]

theorem names_updateEntry {e : Engine} {name : String} {f : TypeEntry → TypeEntry}
    (hf : ∀ t, (f t).definition = t.definition) :
    ((e.updateEntry name f).types.map fun t => t.definition.name) =
      e.types.map fun t => t.definition.name := by
  unfold updateEntry
  rw [List.map_map]
  refine List.map_congr_left fun t _ => ?_
  simp only [Function.comp]
  split_ifs <;> simp [hf]

theorem mem_updateEntry {e : Engine} {name : String} {f : TypeEntry → TypeEntry} {t' : TypeEntry}
    (h : t' ∈ (e.updateEntry name f).types) :
    ∃ t ∈ e.types, (t.definition.name = name ∧ t' = f t) ∨ (t.definition.name ≠ name ∧ t' = t) := by
  obtain ⟨t, ht, rfl⟩ := List.mem_map.1 h
  refine ⟨t, ht, ?_⟩
  split_ifs with hname
  · exact .inl ⟨hname, rfl⟩
  · exact .inr ⟨hname, rfl⟩

/-! ## Steps that lead on -/

variable {e e₁ e₂ : Engine}

namespace Leads

theorem refl (e : Engine) : e.Leads e :=
  ⟨rfl, rfl, rfl, List.forall₂_same.2 fun _ _ => .inl rfl⟩

theorem trans_types {l l₁ l₂ : List TypeEntry} (h : List.Forall₂ TypeEntry.Leads l l₁)
    (h' : List.Forall₂ TypeEntry.Leads l₁ l₂) : List.Forall₂ TypeEntry.Leads l l₂ := by
  induction h generalizing l₂ with
  | nil => exact h'
  | cons ht _ ih =>
    cases h' with
    | cons ht' h' => exact .cons (ht.trans ht') (ih h')

theorem trans (h : e.Leads e₁) (h' : e₁.Leads e₂) : e.Leads e₂ :=
  ⟨h'.definitions.trans h.definitions, h'.config.trans h.config, h'.spans.trans h.spans,
    trans_types h.types h'.types⟩

/-- An entry leads to the entry of the same name. -/
theorem find? (h : e.Leads e₁) (name : String) :
    Option.Rel TypeEntry.Leads (e.find? name) (e₁.find? name) := by
  have hfind {l l₁ : List TypeEntry} (hl : List.Forall₂ TypeEntry.Leads l l₁) :
      Option.Rel TypeEntry.Leads (l.find? fun t => t.definition.name == name)
        (l₁.find? fun t => t.definition.name == name) := by
    induction hl with
    | nil => exact .none
    | cons ht _ ih =>
      rw [List.find?_cons, List.find?_cons, ht.definition]
      split
      · exact .some ht
      · exact ih
  exact hfind h.types

theorem exists_find? (h : e.Leads e₁) {name : String} {t : TypeEntry}
    (ht : e.find? name = some t) : ∃ t₁, e₁.find? name = some t₁ ∧ t.Leads t₁ := by
  have hrel := h.find? name
  rw [ht] at hrel
  cases hf : e₁.find? name with
  | none =>
    rw [hf] at hrel
    cases hrel
  | some t₁ =>
    rw [hf] at hrel
    cases hrel with
    | some hlead => exact ⟨t₁, rfl, hlead⟩

theorem vacantTypes_le (h : e.Leads e₁) : e₁.vacantTypes ≤ e.vacantTypes := by
  have hcount {l l₁ : List TypeEntry} (hl : List.Forall₂ TypeEntry.Leads l l₁) :
      l₁.countP (fun t => t.slot.isVacant) ≤ l.countP fun t => t.slot.isVacant := by
    induction hl with
    | nil => exact Nat.le_refl _
    | cons ht _ ih =>
      rw [List.countP_cons, List.countP_cons]
      rcases ht with rfl | ⟨hvacant, -, outcome, hslot⟩
      · omega
      · rw [hvacant, hslot]
        exact Nat.le_succ_of_le ih
  exact hcount h.types

end Leads

namespace Progress

theorem refl (e : Engine) : e.Progress e := ⟨rfl, rfl, fun _ t ht => ⟨t, ht, rfl, .same _⟩⟩

theorem trans (h : e.Progress e₁) (h' : e₁.Progress e₂) : e.Progress e₂ := by
  refine ⟨h'.definitions.trans h.definitions, h'.config.trans h.config, fun name t ht => ?_⟩
  obtain ⟨t₁, ht₁, hdef, hslot⟩ := h.types name t ht
  obtain ⟨t₂, ht₂, hdef', hslot'⟩ := h'.types name t₁ ht₁
  exact ⟨t₂, ht₂, hdef'.trans hdef, hslot.trans hslot'⟩

end Progress

theorem Leads.progress (h : e.Leads e₁) : e.Progress e₁ := by
  refine ⟨h.definitions, h.config, fun name t ht => ?_⟩
  obtain ⟨t₁, ht₁, hlead⟩ := h.exists_find? ht
  exact ⟨t₁, ht₁, hlead.definition, hlead.slot⟩

/-! ## Steps that keep an engine sound -/

namespace Quiet

theorem find? (h : e.Quiet e₁) (name : String) : e₁.find? name = e.find? name := by
  unfold Engine.find?
  rw [h.types]

theorem slotOf (h : e.Quiet e₁) (name : String) : e₁.slotOf name = e.slotOf name := by
  unfold Engine.slotOf
  rw [h.find?]

theorem leads (h : e.Quiet e₁) : e.Leads e₁ := by
  refine ⟨by rw [h.registry], h.config, h.spans, ?_⟩
  rw [h.types]
  exact (Leads.refl e).types

theorem sound (h : e.Quiet e₁) (hs : e.Sound) : e₁.Sound where
  registry := h.registry ▸ hs.registry
  distinct := h.types ▸ hs.distinct
  marked := h.types ▸ hs.marked
  settles := by
    rw [h.types, h.registry, h.config]
    exact hs.settles
  nested := h.spans ▸ hs.nested
  running := fun name => by
    rw [h.spans, h.slotOf]
    exact hs.running name
  started := fun name => by
    rw [h.starts, h.slotOf]
    exact hs.started name

end Quiet

end Engine

section Definitions

variable {reg reg' : Registry} (h : reg'.definitions = reg.definitions)

include h

theorem Registry.check_congr (config : Config) (t : AdoptingType) :
    reg'.check config t = reg.check config t := by
  unfold check
  rw [resolutionOrder_congr h]

theorem Registry.offersTo_congr (t : AdoptingType) : reg'.offersTo t = reg.offersTo t := by
  unfold offersTo
  simp only [closureOf_congr h]

theorem Registry.outcomeOf_congr (config : Config) (t : AdoptingType)
    (keep : RoleId → Signature → Bool) :
    reg'.outcomeOf config t keep = reg.outcomeOf config t keep := by
  unfold outcomeOf
  rw [check_congr h, offersTo_congr h]

theorem Registry.settles_congr {config : Config} {t : AdoptingType} {outcome : Outcome} :
    reg'.Settles config t outcome ↔ reg.Settles config t outcome := by
  unfold Settles
  simp only [outcomeOf_congr h]

end Definitions

/-- Right after registration, the closures of all roles are yet to be gathered. -/
theorem Registry.sound_freeze (b : RegistryBuilder) : b.freeze.Sound := by
  have hslot (id : RoleId) : b.freeze.slotOf id = .vacant := by
    unfold slotOf
    cases hf : b.freeze.find? id with
    | none => rfl
    | some e =>
      obtain ⟨r, -, rfl⟩ := List.mem_map.1 (List.mem_of_find?_eq_some hf)
      rfl
  refine ⟨fun id outcome h => ?_, fun id h => ?_⟩
  · rw [hslot] at h
    cases h
  · rw [hslot] at h
    cases h

namespace Engine

variable {e : Engine}

/-- Filling slots of closures does not show in the types. -/
theorem leads_of_fills {reg : Registry} (h : e.registry.Fills reg) :
    e.Leads { e with registry := reg } :=
  ⟨h.definitions, rfl, rfl, (Leads.refl e).types⟩

theorem Sound.of_fills {reg : Registry} (hs : e.Sound) (h : e.registry.Fills reg) :
    { e with registry := reg : Engine }.Sound where
  registry := h.sound hs.registry
  distinct := hs.distinct
  marked := hs.marked
  settles := fun t ht outcome ho =>
    (Registry.settles_congr h.definitions).2 (hs.settles t ht outcome ho)
  nested := hs.nested
  running := hs.running
  started := hs.started

/-- An engine without types. -/
theorem sound_new_of_sound {reg : Registry} (hs : reg.Sound) (config : Config) :
    (Engine.new reg config).Sound where
  registry := hs
  distinct := List.nodup_nil
  marked := fun t ht => absurd ht List.not_mem_nil
  settles := fun t ht => absurd ht List.not_mem_nil
  nested := List.nodup_nil
  running := fun name => ⟨fun h => absurd h List.not_mem_nil, fun h => by cases h⟩
  started := fun name => rfl

theorem sound_new (b : RegistryBuilder) (config : Config) : (Engine.new b.freeze config).Sound :=
  sound_new_of_sound (Registry.sound_freeze b) config

end Engine

end RoleComposition
