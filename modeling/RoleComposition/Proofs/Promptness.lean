import RoleComposition.Proofs.Hearings

/-!
# Hooks that answer at once

A hook that answers by a rule and does nothing else cannot panic, and neither can it be disturbed by
the panic of another hook. A type with such a hook comes to what the definitions decide, at every
moment of every run at which it is not being composed. Main statements: `Poised.of_prompt` and
`compose_of_prompt`.
-/

namespace RoleComposition

/-- The type has no hook, or one that answers by a rule and does nothing else. -/
def AdoptingType.Prompt (t : AdoptingType) (keep : RoleId → Signature → Bool) : Prop :=
  match t.veto with
  | none => ∀ role s, keep role s = true
  | some hook => ∀ role s, hook.opening role s = .answer (keep role s)

/-- The step comes to a result, from wherever it is taken. -/
def Ends {α : Type} (step : EngineM α) : Prop := ∀ e, ∃ a e', runFrom step e = (.ok a, e')

/-- No panic has ended the composition of a type with a hook that answers at once. -/
structure Engine.Unharmed (b : RegistryBuilder) (config : Config) (own : String) (e : Engine) :
    Prop where
  serves : Registry.Serves b e.registry
  config_eq : e.config = config
  unharmed : ∀ t keep, e.find? own = some t → t.definition.Prompt keep →
    ∀ owner message, t.slot ≠ .settled (.error (.compositionPanicked owner message))

namespace AdoptingType.Prompt

variable {t : AdoptingType} {keep : RoleId → Signature → Bool}

theorem of_rule (h : t.veto = some (.ofRule keep)) : t.Prompt keep := by
  unfold Prompt
  rw [h]
  rintro role ⟨_ | _, _⟩
  · rfl
  · rfl

theorem answersBy (h : t.Prompt keep) : t.AnswersBy keep := by
  unfold Prompt at h
  unfold AnswersBy
  cases hveto : t.veto with
  | none =>
    rw [hveto] at h
    exact h
  | some hook =>
    rw [hveto] at h
    intro role s
    show (hook.opening role s).AnswersBy _
    rw [h role s]
    exact rfl

theorem calm (h : t.Prompt keep) (calm : String → Prop) : t.Calm calm := by
  intro hook hhook role s
  unfold Prompt at h
  rw [hhook] at h
  rw [h role s]
  trivial

end AdoptingType.Prompt

/-! ## Steps that come to a result -/

section Steps

variable {α β : Type}

theorem ends_pure (a : α) : Ends (pure a : EngineM α) := fun e => ⟨a, e, rfl⟩

theorem Ends.bind {step : EngineM α} {next : α → EngineM β} (h : Ends step)
    (h' : ∀ a, Ends (next a)) : Ends (step >>= next) := by
  intro e
  obtain ⟨a, e₁, hstep⟩ := h e
  rw [runFrom_bind_ok hstep]
  exact h' a e₁

theorem ends_foldlM {step : β → α → EngineM β} (h : ∀ b a, Ends (step b a)) (l : List α) (b : β) :
    Ends (l.foldlM step b) := by
  induction l generalizing b with
  | nil => exact ends_pure b
  | cons a l ih =>
    rw [List.foldlM_cons]
    exact (h b a).bind fun b' => ih b'

variable (compose : String → EngineM Outcome) {t : AdoptingType}
  {keep : RoleId → Signature → Bool}

theorem ends_askHook {hook : Hook} {s : Signature} (c : Candidate) {answer : Bool}
    (h : hook.opening c.origin s = .answer answer) :
    Ends (EngineM.askHook compose t hook s c) := by
  refine Ends.bind (fun e => ⟨_, _, rfl⟩) fun _ => ?_
  rw [Hook.ask_level, h]
  cases answer with
  | false => exact fun e => ⟨false, _, rfl⟩
  | true => exact fun e => ⟨true, _, rfl⟩

theorem ends_keepCandidates {hook : Hook} {s : Signature}
    (h : ∀ role, hook.opening role s = .answer (keep role s)) (cs : List Candidate) :
    Ends (EngineM.keepCandidates compose t hook s cs) := by
  induction cs with
  | nil => exact ends_pure _
  | cons c cs ih =>
    have hask := ends_askHook (t := t) compose c (h c.origin)
    exact hask.bind fun _ => ih.bind fun _ => ends_pure _

theorem ends_settleSignature (ht : t.Prompt keep) (tally : Tally)
    (offer : Signature × List Candidate) :
    Ends (EngineM.settleSignature compose t tally offer) := by
  have hresolve : Ends (EngineM.resolve compose t offer.1 offer.2) := by
    unfold AdoptingType.Prompt at ht
    unfold EngineM.resolve
    cases hveto : t.veto with
    | none => exact ends_pure _
    | some hook =>
      rw [hveto] at ht
      have hkeep := ends_keepCandidates (t := t) compose (fun role => ht role offer.1) offer.2
      exact hkeep.bind fun _ => ends_pure _
  refine hresolve.bind fun decision => ?_
  cases decision with
  | select c => exact ends_pure _
  | «omit» => exact ends_pure _
  | ambiguous cs => exact fun e => ⟨_, _, rfl⟩

/-- The merge of a type with a hook that answers at once comes to an outcome. -/
theorem exists_outcome_of_mergeTable {e : Engine} (hs : e.registry.Sound) (ht : t.Prompt keep) :
    ∃ outcome e', runFrom (EngineM.mergeTable compose t).run e = (.ok outcome, e') := by
  obtain ⟨reg', -, -, hrun⟩ := runFrom_mergeTable compose t hs
  rw [hrun]
  cases e.registry.check e.config t with
  | error error => exact ⟨_, _, rfl⟩
  | ok _ =>
    have hsettle : Ends (EngineM.settleAll compose t (e.registry.offersTo t)) :=
      ends_foldlM (ends_settleSignature compose ht) _ _
    exact hsettle.bind (fun tally e => ⟨_, _, rfl⟩) _

end Steps

/-! ## Runs -/

namespace Engine

variable {b : RegistryBuilder} {config : Config} {own : String} {e : Engine}

/-- It depends on the entry of the type. -/
theorem Unharmed.congr {e' : Engine} (h : Unharmed b config own e)
    (hserves : Registry.Serves b e'.registry) (hconfig : e'.config = config)
    (hfind : e'.find? own = e.find? own) : Unharmed b config own e' :=
  ⟨hserves, hconfig, fun t keep ht => h.unharmed t keep (hfind ▸ ht)⟩

theorem steady_unharmed (b : RegistryBuilder) (config : Config) (own : String) :
    Steady (Unharmed b config own) where
  sound := fun _ h => h.serves.sound
  fills := fun _ _ h hfill => h.congr (h.serves.of_fills hfill) h.config_eq rfl
  records := fun e e' h hreg hconfig htypes _ => by
    refine h.congr (hreg ▸ h.serves) (hconfig.trans h.config_eq) ?_
    unfold find?
    rw [htypes]

/-- A type whose slot holds no panic is unharmed. -/
theorem Fixed.unharmed {t : AdoptingType} (h : Fixed b config t e)
    (hslot : ∀ keep, t.Prompt keep → ∀ owner message,
      e.slotOf t.name ≠ .settled (.error (.compositionPanicked owner message))) :
    Unharmed b config t.name e := by
  obtain ⟨entry, hentry, rfl⟩ := h.declared
  refine ⟨h.serves, h.config_eq, fun t' keep ht' hkeep owner message => ?_⟩
  rw [hentry] at ht'
  cases ht'
  rw [← slotOf_of_find? hentry]
  exact hslot keep hkeep owner message

theorem Fixed.unharmed_of_settle {t : AdoptingType} (h : Fixed b config t e) {outcome : Outcome}
    (houtcome : ∀ keep, t.Prompt keep → ∀ owner message,
      outcome ≠ .error (.compositionPanicked owner message)) :
    Unharmed b config t.name (e.settle t.name outcome) := by
  have hadvances := TypeEntry.Advances.settle outcome
  obtain ⟨entry, hentry, -⟩ := h.declared
  refine ((lasting_fixed b config t).advances e t _ h trivial hadvances).unharmed
    fun keep hkeep owner message => ?_
  rw [slotOf_updateEntry_self hadvances.definition hentry]
  exact fun hsettled => houtcome keep hkeep owner message (Slot.settled.inj hsettled)

/-- The own composition of a type with a hook that answers at once ends without a panic. -/
theorem kept_unharmed (depth : Nat) {t : TypeEntry} (he : Unharmed b config own e)
    (ht : e.find? own = some t) (hv : t.slot = .vacant) :
    Kept (Unharmed b config own) (Trail.compose (depth + 1) own e)
      (runFrom (EngineM.composeWithin (depth + 1) own) e) := by
  have hname := name_of_find? ht
  subst hname
  have hsteady := steady_unharmed b config t.definition.name
  have hfixed := kept_fixed depth he.serves he.config_eq ht
  have hasks := asks_mergeTable depth (underway_enter he.serves.sound ht)
  refine kept_of_afterMerge hsteady ht hv (fun m hm => ?_) ?_
  · refine (hfixed.moments m hm).unharmed fun _ _ _ _ => ?_
    rw [(hasks.moments m hm).1.running]
    simp
  · refine hsteady.afterMerge (fun payload hrun => ?_) (fun _ => ?_) fun outcome hrun => ?_
    · refine hfixed.last.unharmed_of_settle fun keep hkeep _ _ => ?_
      obtain ⟨outcome, e₁, hends⟩ := exists_outcome_of_mergeTable (EngineM.composeWithin depth)
        (e := e.enter t.definition) he.serves.sound hkeep
      rw [hends] at hrun
      cases hrun
    · refine hfixed.last.unharmed fun _ _ _ _ => ?_
      rw [hasks.underway.running]
      simp
    · refine hfixed.last.unharmed_of_settle fun _ _ owner message hpanic => ?_
      rw [hpanic] at hrun
      exact isFound_of_mergeTable (e := e.enter t.definition) he.serves.sound
        (Prod.ext hrun rfl)

/-- Whether a panic has ended the composition of a type concerns that type only. -/
theorem concerns_unharmed (b : RegistryBuilder) (config : Config) (own : String) :
    Concerns (Unharmed b config own) own where
  toSteady := steady_unharmed b config own
  advances := fun e name f h hne hf => by
    refine h.congr h.serves h.config_eq ?_
    rw [find?_updateEntry hf.definition]
    simp [hne.symm]
  asks := fun e t role s h hne => h.congr h.serves h.config_eq rfl
  composes := fun depth e t h ht hv => kept_unharmed depth h ht hv
  declares := fun e t h hnew => by
    refine ⟨h.serves, h.config_eq, fun t' keep ht' hkeep owner message hslot => ?_⟩
    rw [find?_adding] at ht'
    cases hfind : e.find? own with
    | some t₀ =>
      rw [hfind] at ht'
      cases ht'
      exact h.unharmed t' keep hfind hkeep owner message hslot
    | none =>
      rw [hfind, Option.none_or] at ht'
      split_ifs at ht'
      cases ht'
      cases hslot

end Engine

/-- A type with a hook that answers at once can be composed undisturbed whenever it is not being
composed, whatever else the run does. -/
theorem Poised.of_prompt {b : RegistryBuilder} {config : Config} {rs : List Request} {m : Moment}
    {t : TypeEntry} {keep : RoleId → Signature → Bool}
    (hm : m ∈ history (Engine.new b.freeze config) rs)
    (ht : m.engine.find? t.definition.name = some t) (hkeep : t.definition.Prompt keep)
    (hidle : t.slot ≠ .running) : Poised b config m t keep := by
  obtain ⟨hsound, hroom⟩ := (sound_of_mem_history hm).1
  have hnew : Engine.Unharmed b config t.definition.name (Engine.new b.freeze config) :=
    ⟨⟨(Engine.sound_new b config).registry, rfl⟩, rfl, fun t _ ht => by cases ht⟩
  have hunharmed := holds_of_mem_history
    (Engine.concerns_unharmed b config t.definition.name).upheld rs hnew m hm
  have hcalm : m.engine.Calm m.depth fun other => other = t.definition.name := by
    refine ⟨hsound, hroom, fun other t' ht' hother => ?_⟩
    rw [hother, ht] at ht'
    cases ht'
    exact hkeep.calm _
  exact ⟨⟨rs, hm⟩, ht, ⟨hidle, hunharmed.unharmed t keep ht hkeep⟩, hkeep.answersBy,
    raised?_of_calm m.depth t.definition.name m.engine hcalm rfl⟩

/-- Such a type comes to what the definitions decide. -/
theorem compose_of_prompt {b : RegistryBuilder} {config : Config} {rs : List Request} {m : Moment}
    {name : String} {t : TypeEntry} {keep : RoleId → Signature → Bool}
    (hm : m ∈ history (Engine.new b.freeze config) rs) (ht : m.engine.find? name = some t)
    (hkeep : t.definition.Prompt keep) (hidle : t.slot ≠ .running) :
    ∃ e, m.compose name = (.ok (b.freeze.outcomeOf config t.definition keep), e) := by
  have hname := Engine.name_of_find? ht
  subst hname
  exact (Poised.of_prompt hm ht hkeep hidle).compose

end RoleComposition
