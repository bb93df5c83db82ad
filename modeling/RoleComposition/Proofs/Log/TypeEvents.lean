import RoleComposition.Proofs.Log.MergeSteps

/-!
# The events of one type in the log

The events of a type form a block: its start, the minutes of its merge, and its end, which says the
same as the outcome that is stored. A merge that is under way, or that has panicked, leaves a block
whose minutes stop at a cut. Main statement: `telling_blocks` (the block of each type goes with its
slot, step by step).
-/

namespace RoleComposition

/-! ## Types elsewhere -/

/-- A step in the name of one type leaves the other types as they are. -/
structure Elsewhere (name : String) (past : List Question) (e : Engine) (past' : List Question)
    (e' : Engine) : Prop where
  find? : ∀ b, b ≠ name → e'.find? b = e.find? b
  entries : ∀ b, b ≠ name → e'.entriesOf b = e.entriesOf b
  questions : ∀ b, b ≠ name → e'.questionsOf b = e.questionsOf b
  rejected : ∀ b, b ≠ name → about b past' = about b past

namespace Engine

/-- The event that a composition ends with. -/
def endOf (name : String) : Outcome → Event
  | .ok table => .compositionFinished name table.entries.size table.digest
  | .error error => .compositionFailed name error

theorem entriesOf_leave (e : Engine) (name : String) (outcome : Outcome) (b : String) :
    (e.leave name outcome).entriesOf b =
      e.entriesOf b ++ if name = b then [⟨endOf name outcome, e.spans⟩] else [] := by
  cases outcome with
  | ok table =>
    show (e.logged (endOf name (.ok table))).entriesOf b = _
    rw [entriesOf_logged]
    simp [endOf, Event.subject?]
  | error error =>
    show ((_ : Engine).logged (endOf name (.error error))).entriesOf b = _
    rw [entriesOf_logged, entriesOf_logged_of_ne (by simp [Event.subject?])]
    simp only [endOf, Event.subject?, Option.some.injEq]
    rfl

theorem entriesOf_unwind (e : Engine) (payload : Panic) (name b : String) :
    (e.unwind payload name).entriesOf b = e.entriesOf b ++
      if name = b then [⟨.compositionFailed name (panicError payload name), e.spans.dropLast⟩]
      else [] := by
  show ((_ : Engine).logged (.compositionFailed name (panicError payload name))).entriesOf b = _
  rw [entriesOf_logged, entriesOf_logged_of_ne (by simp [Event.subject?])]
  simp only [Event.subject?, Option.some.injEq]
  rfl

end Engine

namespace Elsewhere

variable {e : Engine} {past : List Question} {name : String}

theorem slotOf {past' : List Question} {e' : Engine} (h : Elsewhere name past e past' e')
    {b : String} (hb : b ≠ name) : e'.slotOf b = e.slotOf b := by
  unfold Engine.slotOf
  rw [h.find? b hb]

theorem enter (e : Engine) (t : AdoptingType) (past : List Question) :
    Elsewhere t.name past e past (e.enter t) where
  find? := fun b hb => by
    rw [Engine.find?_enter]
    simp [hb]
  entries := fun b hb => by rw [Engine.entriesOf_enter, if_neg hb.symm, List.append_nil]
  questions := fun _ _ => rfl
  rejected := fun _ _ => rfl

theorem ask (e : Engine) (past : List Question) (q : Question) :
    Elsewhere q.typeName past e past { e with questions := e.questions ++ [q] } where
  find? := fun _ _ => rfl
  entries := fun _ _ => rfl
  questions := fun b hb => by rw [Engine.questionsOf_ask, if_neg hb.symm, List.append_nil]
  rejected := fun _ _ => rfl

theorem logged {event : Event} {qs : List Question} (hsubject : event.subject? = some name)
    (hqs : ∀ q ∈ qs, q.typeName = name) : Elsewhere name past e (past ++ qs) (e.logged event) where
  find? := fun _ _ => rfl
  entries := fun b hb => Engine.entriesOf_logged_of_ne (by simp [hsubject, hb.symm])
  questions := fun _ _ => rfl
  rejected := fun b hb => by
    have hnil : about b qs = [] := by
      refine List.filter_eq_nil_iff.2 fun q hq => ?_
      rw [hqs q hq]
      simpa using hb.symm
    rw [about_append, hnil, List.append_nil]

theorem conflict (name : String) (s : Signature) (roles : List RoleId) (past : List Question)
    (e : Engine) :
    Elsewhere name past e past (e.logged (.conflictDetected (.type name) s roles)) := by
  have h : Elsewhere name past e (past ++ [])
      (e.logged (.conflictDetected (.type name) s roles)) := .logged rfl (by simp)
  rwa [List.append_nil] at h

theorem leave (e : Engine) (name : String) (outcome : Outcome) (past : List Question) :
    Elsewhere name past e past (e.leave name outcome) where
  find? := fun b hb => by
    rw [Engine.find?_leave]
    simp [hb]
  entries := fun b hb => by rw [Engine.entriesOf_leave, if_neg hb.symm, List.append_nil]
  questions := fun _ _ => by cases outcome <;> rfl
  rejected := fun _ _ => rfl

theorem unwind (e : Engine) (payload : Panic) (name : String) (past : List Question) :
    Elsewhere name past e past (e.unwind payload name) where
  find? := fun b hb => by
    rw [Engine.find?_unwind]
    simp [hb]
  entries := fun b hb => by rw [Engine.entriesOf_unwind, if_neg hb.symm, List.append_nil]
  questions := fun _ _ => rfl
  rejected := fun _ _ => rfl

end Elsewhere

/-! ## Blocks -/

/-- The entries of a type, by its slot. -/
inductive Block (reg : Registry) (config : Config) (t : AdoptingType) (past : List Question) :
    Slot MethodTable → List LogEntry → Prop
  | silent : about t.name past = [] → Block reg config t past .vacant []
  | underway {outer : List String} {events : List Event} :
      reg.Cut config t (ruleOf past t.name) events →
      Block reg config t past .running (begun t outer events)
  | decided {outer : List String} {outcome : Outcome} :
      outcome = reg.outcomeOf config t (ruleOf past t.name) →
      Block reg config t past (.settled outcome)
        (begun t outer (reg.minutes config t (ruleOf past t.name)) ++
          [⟨Engine.endOf t.name outcome, outer ++ [t.name]⟩])
  | panicked {outer : List String} {events : List Event} {payload : Panic} :
      reg.Cut config t (ruleOf past t.name) events →
      Block reg config t past (.settled (.error (Engine.panicError payload t.name)))
        (begun t outer events ++
          [⟨.compositionFailed t.name (Engine.panicError payload t.name), outer⟩])

/-- The entries of a name are the block of its type; of a name without a type there are none. -/
def BlockOf (reg : Registry) (config : Config) (past : List Question) (e : Engine) (b : String) :
    Prop :=
  match e.find? b with
  | none => e.entriesOf b = [] ∧ about b past = []
  | some t => Block reg config t.definition past t.slot (e.entriesOf b)

/-- The entries of each name are the block of its type. -/
def Blocks (reg : Registry) (config : Config) (past : List Question) (e : Engine) : Prop :=
  ∀ b, BlockOf reg config past e b

/-- The entries of each other name are the block of its type. -/
def BlocksBeside (reg : Registry) (config : Config) (t : AdoptingType) (past : List Question)
    (e : Engine) : Prop :=
  ∀ b, b ≠ t.name → BlockOf reg config past e b

variable {reg : Registry} {config : Config} {past past' : List Question} {e e' : Engine}

theorem ruleOf_congr {name : String} (h : about name past' = about name past) :
    ruleOf past' name = ruleOf past name := by
  have hmem (o : RoleId) (s : Signature) : (⟨name, s.level, o, s⟩ : Question) ∈ past' ↔
      (⟨name, s.level, o, s⟩ : Question) ∈ past := by
    have hiff : (⟨name, s.level, o, s⟩ : Question) ∈ about name past' ↔
        (⟨name, s.level, o, s⟩ : Question) ∈ about name past := by rw [h]
    simpa [about] using hiff
  funext o s
  unfold ruleOf
  rw [Bool.eq_iff_iff]
  simp [hmem]

theorem Block.congr {t : AdoptingType} {slot : Slot MethodTable} {entries : List LogEntry}
    (h : Block reg config t past slot entries) (hpast : about t.name past' = about t.name past) :
    Block reg config t past' slot entries := by
  have hrule := ruleOf_congr hpast
  cases h with
  | silent hnone => exact .silent (hpast.trans hnone)
  | underway hcut => exact .underway (hrule ▸ hcut)
  | decided houtcome =>
    rw [← hrule] at houtcome ⊢
    exact .decided houtcome
  | panicked hcut => exact .panicked (hrule ▸ hcut)

namespace BlockOf

theorem iff_of_find? {b : String} {t : TypeEntry} (ht : e.find? b = some t) :
    BlockOf reg config past e b ↔ Block reg config t.definition past t.slot (e.entriesOf b) := by
  unfold BlockOf
  rw [ht]

theorem elsewhere {name b : String} (h : BlockOf reg config past e b)
    (helse : Elsewhere name past e past' e') (hb : b ≠ name) :
    BlockOf reg config past' e' b := by
  unfold BlockOf at h ⊢
  rw [helse.find? b hb, helse.entries b hb, helse.rejected b hb]
  cases ht : e.find? b with
  | none =>
    rw [ht] at h
    exact h
  | some t =>
    rw [ht] at h
    refine Block.congr h ?_
    rw [Engine.name_of_find? ht]
    exact helse.rejected b hb

end BlockOf

/-- What is vacant has an empty block. -/
theorem Blocks.fresh (h : Blocks reg config past e) : Fresh past e := by
  intro name hv
  have hblock := h name
  cases ht : e.find? name with
  | none =>
    unfold BlockOf at hblock
    rw [ht] at hblock
    exact hblock
  | some t =>
    rw [BlockOf.iff_of_find? ht, ← Engine.slotOf_of_find? ht, hv] at hblock
    generalize e.entriesOf name = entries at hblock ⊢
    cases hblock with
    | silent hnone => exact ⟨rfl, Engine.name_of_find? ht ▸ hnone⟩

namespace BlocksBeside

variable {t : AdoptingType}

theorem elsewhere (h : BlocksBeside reg config t past e)
    (helse : Elsewhere t.name past e past' e') : BlocksBeside reg config t past' e' :=
  fun b hb => (h b hb).elsewhere helse hb

/-- With the block of the type itself there are all of them. -/
theorem blocks (h : BlocksBeside reg config t past e) {entry : TypeEntry}
    (ht : e.find? t.name = some entry)
    (hblock : Block reg config entry.definition past entry.slot (e.entriesOf t.name)) :
    Blocks reg config past e := by
  intro b
  by_cases hb : b = t.name
  · rw [hb, BlockOf.iff_of_find? ht]
    exact hblock
  · exact h b hb

end BlocksBeside

theorem telling_blocks (reg : Registry) (config : Config) :
    Telling reg config (Blocks reg config) (BlocksBeside reg config) where
  enters := fun hM _ ht _ b hb => (hM b).elsewhere (.enter _ _ _) hb
  fills := fun hN _ => hN
  asks := fun hN _ => hN.elsewhere (.ask _ _ ⟨_, _, _, _⟩)
  notes := fun hN => hN
  pauses := fun {t outer events past e} hN hwithin hcut => by
    obtain ⟨entry, hentry, hdef⟩ := hwithin.entry
    refine hN.blocks hentry ?_
    rw [hdef, hwithin.told, ← Engine.slotOf_of_find? hentry, hwithin.running]
    exact .underway hcut
  resumes := fun _ hM _ b _ => hM b
  rejects := fun hN _ => hN.elsewhere (.logged rfl (by simp))
  conflicts := fun hN _ => hN.elsewhere (.conflict _ _ _ _ _)
  concludes := fun {t outer past e} hN hwithin hcheck => by
    obtain ⟨entry, hentry, hdef⟩ := hwithin.entry
    have hfind := Engine.find?_leave
      (e.countTally (t.tally (ruleOf past t.name) (reg.offersTo t))) t.name
      (reg.outcomeOf config t (ruleOf past t.name)) t.name
    rw [show (e.countTally _).find? t.name = some entry from hentry, Option.map_some, if_pos rfl]
      at hfind
    refine BlocksBeside.blocks (fun b hb => ?_) hfind ?_
    · exact (show BlockOf reg config past (e.countTally _) b from hN b hb).elsewhere
        (.leave _ _ _ _) hb
    · rw [Engine.entriesOf_leave, if_pos rfl,
        show (e.countTally _).entriesOf t.name = _ from hwithin.told,
        show (e.countTally _).spans = _ from hwithin.spans]
      show Block reg config entry.definition past (.settled _) _
      rw [hdef]
      exact .decided rfl
  refuses := fun {t outer past e error} hN hwithin hcheck => by
    obtain ⟨entry, hentry, hdef⟩ := hwithin.entry
    have hfind := Engine.find?_leave e t.name (.error error) t.name
    rw [hentry, Option.map_some, if_pos rfl] at hfind
    refine BlocksBeside.blocks (hN.elsewhere (.leave _ _ _ _)) hfind ?_
    have hminutes : reg.minutes config t (ruleOf past t.name) = [] := by
      unfold Registry.minutes
      rw [hcheck]
    rw [Engine.entriesOf_leave, if_pos rfl, hwithin.told, hwithin.spans, ← hminutes]
    show Block reg config entry.definition past (.settled _) _
    rw [hdef]
    exact .decided (Registry.outcomeOf_of_check_eq_error hcheck _).symm
  unwinds := fun {t outer events past e payload} hN hwithin hcut => by
    obtain ⟨entry, hentry, hdef⟩ := hwithin.entry
    have hfind := Engine.find?_unwind e payload t.name t.name
    rw [hentry, Option.map_some, if_pos rfl] at hfind
    refine BlocksBeside.blocks (hN.elsewhere (.unwind _ _ _ _)) hfind ?_
    rw [Engine.entriesOf_unwind, if_pos rfl, hwithin.told, hwithin.spans, List.dropLast_concat]
    show Block reg config entry.definition past (.settled _) _
    rw [hdef]
    exact .panicked hcut
  declares := fun {past e t} hM hnew b => by
    have hblock := hM b
    have hsame : (e.adding t).entriesOf b = e.entriesOf b := rfl
    unfold BlockOf at hblock ⊢
    rw [Engine.find?_adding, hsame]
    cases ht : e.find? b with
    | some t' =>
      rw [ht] at hblock
      exact hblock
    | none =>
      rw [ht] at hblock
      obtain ⟨hentries, hrejected⟩ := hblock
      rw [Option.none_or, hentries]
      split_ifs with hname
      · exact .silent (hname ▸ hrejected)
      · exact ⟨rfl, hrejected⟩
  gathers := fun hM _ => hM
  remarks := fun {past e event} hM hnone b => by
    have hblock := hM b
    unfold BlockOf at hblock ⊢
    rw [Engine.entriesOf_logged_of_ne (by simp [hnone])]
    exact hblock

end RoleComposition
