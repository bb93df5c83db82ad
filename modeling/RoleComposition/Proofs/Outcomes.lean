import RoleComposition.Proofs.Calm
import RoleComposition.Proofs.Composability
import RoleComposition.Proofs.OneShot

/-!
# Outcomes

What a type comes to is decided by the definitions of the roles alone. Whatever else has been
declared, composed or asked for before, a merge that runs to its end comes to the same outcome; and
that outcome is a table exactly if the type is composable. Main statements:
`outcome_eq_of_histories` and `compose_isOk_iff_composable`.
-/

namespace RoleComposition

/-- The merge of a type has run to its end, and has come to an outcome. -/
def Engine.Decided (e : Engine) (t : AdoptingType) (outcome : Outcome) : Prop :=
  ∃ entry, e.find? t.name = some entry ∧ entry.definition = t ∧ entry.slot = .settled outcome ∧
    ∀ owner message, outcome ≠ .error (.compositionPanicked owner message)

/-- The composition is not under way, and has not been ended by a panic. -/
def Slot.Undisturbed (slot : Slot MethodTable) : Prop :=
  slot ≠ .running ∧ ∀ owner message, slot ≠ .settled (.error (.compositionPanicked owner message))

theorem Slot.undisturbed_vacant : (Slot.vacant : Slot MethodTable).Undisturbed :=
  ⟨by simp, by simp⟩

section Histories

variable {b : RegistryBuilder} {config : Config} {rs rs' : List Request} {m m' : Moment}
  {t : AdoptingType} {keep : RoleId → Signature → Bool} {outcome outcome' : Outcome}

/-- An outcome that is not a panic is the one that the definitions decide. -/
theorem outcome_of_decided (hm : m ∈ history (Engine.new b.freeze config) rs)
    (ht : t.AnswersBy keep) (h : m.engine.Decided t outcome) :
    outcome = b.freeze.outcomeOf config t keep := by
  obtain ⟨entry, hentry, rfl, hslot, hpanic⟩ := h
  obtain ⟨hs, hdef, hconfig⟩ := sound_of_mem_history hm
  rcases hs.engine.settles entry (Engine.mem_of_find? hentry) outcome hslot with
    ⟨payload, rfl⟩ | ⟨-, hkeep⟩
  · exact absurd rfl (hpanic _ _)
  · rw [hkeep keep ht, hconfig, Registry.outcomeOf_congr hdef]

end Histories

section Composing

variable {m : Moment} {name : String} {t : TypeEntry} {keep : RoleId → Signature → Bool}

/-- Unless a hook panics, the composition of a vacant type comes to what the definitions decide. -/
theorem compose_of_calm (hm : m.Sound) (ht : m.engine.find? name = some t) (hv : t.slot = .vacant)
    (hkeep : t.definition.AnswersBy keep)
    (hcalm : ∀ m' ∈ Trail.compose m.depth name m.engine, m'.raised? = none) :
    ∃ e, m.compose name =
        (.ok (m.engine.registry.outcomeOf m.engine.config t.definition keep), e) ∧
      e.Decided t.definition
        (m.engine.registry.outcomeOf m.engine.config t.definition keep) := by
  obtain ⟨depth, -, h, hrun⟩ := compose_vacant hm ht hv
  rw [hrun]
  rcases hmerge : runFrom (EngineM.mergeTable (EngineM.composeWithin depth) t.definition).run
    (m.engine.enter t.definition) with ⟨(payload | _) | outcome, e₁⟩
  · obtain ⟨m', hm', hp⟩ := h.raised payload (by rw [hmerge])
    rw [hcalm m' hm'] at hp
    cases hp
  · exact absurd (by rw [hmerge]) h.goesOn
  · have hs := (hm.engine.enter ht hv).registry
    have hdecided : outcome = m.engine.registry.outcomeOf m.engine.config t.definition keep :=
      outcome_of_mergeTable (e := m.engine.enter t.definition) hs hkeep hmerge
    rw [hmerge] at h
    obtain ⟨t₁, ht₁, hdef, -⟩ := ((Engine.progress_enter ht hv).trans h.progress).types name t ht
    refine ⟨e₁.leave name outcome, by rw [hdecided]; rfl,
      { t₁ with slot := .settled outcome, settled := true }, ?_, hdef, by rw [hdecided], ?_⟩
    · rw [Engine.name_of_find? ht, Engine.find?_leave, show e₁.find? name = some t₁ from ht₁,
        Option.map_some, if_pos rfl]
    · intro owner message hpanic
      rw [hdecided, hpanic] at hmerge
      exact isFound_of_mergeTable hs hmerge

/-- A call that composes a vacant type decides it, unless a hook panics. -/
theorem exists_decided_of_compose {e : Engine} (hs : e.Sound) (ht : e.find? name = some t)
    (hv : t.slot = .vacant) (hkeep : t.definition.AnswersBy keep)
    (hcalm : ∀ m' ∈ Trail.compose e.vacantTypes name e, m'.raised? = none) :
    ∃ m ∈ history e [.compose name], ∃ outcome, m.engine.Decided t.definition outcome := by
  obtain ⟨e₁, hrun, hdecided⟩ :=
    compose_of_calm (m := Moment.between e) (sound_between hs) ht hv hkeep hcalm
  have hstep : runFrom (Request.compose name).step e = (.ok (), e₁) := by
    unfold Request.step
    rw [runFrom_discard, show runFrom (EngineM.compose name) e = _ from hrun]
    rfl
  refine ⟨Moment.between e₁, mem_history_cons ?_ ?_, _, hdecided⟩
  · rw [hstep]
    simp
  · rw [hstep]
    exact List.mem_singleton_self _

/-- Unless a hook panics, composing a type at any moment of a run comes to what the definitions
decide, whether the type has been composed before or not. -/
theorem compose_of_undisturbed {b : RegistryBuilder} {config : Config} {rs : List Request}
    (hm : m ∈ history (Engine.new b.freeze config) rs) (ht : m.engine.find? name = some t)
    (hslot : t.slot.Undisturbed) (hkeep : t.definition.AnswersBy keep)
    (hcalm : ∀ m' ∈ Trail.compose m.depth name m.engine, m'.raised? = none) :
    ∃ e, m.compose name = (.ok (b.freeze.outcomeOf config t.definition keep), e) ∧
      e.Decided t.definition (b.freeze.outcomeOf config t.definition keep) := by
  obtain ⟨hs, hdef, hconfig⟩ := sound_of_mem_history hm
  cases hv : t.slot with
  | vacant =>
    rw [← hconfig, ← Registry.outcomeOf_congr hdef]
    exact compose_of_calm hs ht hv hkeep hcalm
  | running => exact absurd hv hslot.1
  | settled outcome =>
    have hdecided : m.engine.Decided t.definition outcome :=
      ⟨t, by rw [Engine.name_of_find? ht, ht], rfl, hv, fun owner message h =>
        hslot.2 owner message (by rw [hv, h])⟩
    rw [← outcome_of_decided hm hkeep hdecided]
    exact ⟨_, (oneShot_of_sound hs ht).settled outcome hv, hdecided⟩

/-- A type whose hook answers by a rule and does not panic composes exactly if its roles are
composable, and its table holds what they decide. -/
theorem compose_isOk_iff_composable {b : RegistryBuilder} {config : Config} {rs : List Request}
    (hm : m ∈ history (Engine.new b.freeze config) rs) (ht : m.engine.find? name = some t)
    (hslot : t.slot.Undisturbed) (hkeep : t.definition.AnswersBy keep)
    (hcalm : ∀ m' ∈ Trail.compose m.depth name m.engine, m'.raised? = none) :
    ∃ outcome e, m.compose name = (.ok outcome, e) ∧ e.outcome name = .ok (some outcome) ∧
      ((∃ table, outcome = .ok table) ↔ b.freeze.Composable config t.definition keep) ∧
      ∀ table, outcome = .ok table → b.freeze.Fits t.definition keep table := by
  obtain ⟨e, hrun, entry, hentry, -, hsettled, -⟩ :=
    compose_of_undisturbed hm ht hslot hkeep hcalm
  rw [Engine.name_of_find? ht] at hentry
  have hstored := Engine.outcome_of_find? hentry
  rw [hsettled] at hstored
  exact ⟨_, e, hrun, hstored, Registry.outcomeOf_isOk, fun table h =>
    Registry.fits_of_outcomeOf h⟩

end Composing

/-- A type that composes, and the conditions and the table that go with it. -/
theorem compose_isOk_of_adopter :
    let outer := Sample.adopter "outer" (.compose "inner" fun _ => .answer true)
    let inner := Sample.adopter "inner" (.answer false)
    let m := Moment.between (Sample.declared [outer, inner])
    ∃ table e, m.compose "outer" = (.ok (.ok table), e) ∧
      Sample.roles.freeze.Composable {} outer (fun _ _ => true) ∧
      Sample.roles.freeze.Fits outer (fun _ _ => true) table := by
  intro outer inner m
  have hm : m ∈ history (Engine.new Sample.roles.freeze {}) [.declare outer, .declare inner] :=
    List.mem_cons_of_mem _ (List.mem_cons_of_mem _ List.mem_cons_self)
  have hfind : m.engine.find? "outer" = some { definition := outer } := rfl
  have hkeep : outer.AnswersBy fun _ _ => true := fun _ s => by
    rcases s with ⟨_ | _, _⟩
    · exact fun _ => rfl
    · exact fun _ => rfl
  obtain ⟨hsound, hroom⟩ := (sound_of_mem_history hm).1
  have hcalm : m.engine.Calm m.depth fun _ => True := by
    refine ⟨hsound, hroom, fun name t ht _ hook hhook role s => ?_⟩
    have hmem : t ∈ [{ definition := outer }, { definition := inner }] := Engine.mem_of_find? ht
    rcases s with ⟨_ | _, _⟩
    all_goals rcases List.mem_pair.1 hmem with rfl | rfl
    all_goals cases hhook
    · exact ⟨trivial, fun _ => trivial⟩
    · exact trivial
    · exact ⟨trivial, fun _ => trivial⟩
    · exact trivial
  obtain ⟨outcome, e, hrun, -, hiff, hfits⟩ :=
    compose_isOk_iff_composable hm hfind Slot.undisturbed_vacant hkeep
      (raised?_of_calm m.depth "outer" m.engine hcalm trivial)
  have hok : ((m.compose "outer").1.map Except.isOk).toOption = some true := by decide +kernel
  rw [hrun] at hok
  cases outcome with
  | error error => cases hok
  | ok table => exact ⟨table, e, hrun, hiff.1 ⟨table, rfl⟩, hfits table rfl⟩

/-- Types do not influence each other: in any two runs over the same roles, a merge of the same type
that runs to its end comes to the same outcome. -/
theorem outcome_eq_of_histories {b : RegistryBuilder} {config : Config}
    {rs rs' : List Request} {m m' : Moment} {t : AdoptingType} {keep : RoleId → Signature → Bool}
    {outcome outcome' : Outcome} (hm : m ∈ history (Engine.new b.freeze config) rs)
    (hm' : m' ∈ history (Engine.new b.freeze config) rs') (ht : t.AnswersBy keep)
    (h : m.engine.Decided t outcome) (h' : m'.engine.Decided t outcome') : outcome = outcome' := by
  rw [outcome_of_decided hm ht h, outcome_of_decided hm' ht h']

/-- A type composed alone, and after another type's hook has panicked. -/
theorem outcome_eq_of_adopter :
    let plain := Sample.adopter "plain" (.answer true)
    let noisy := Sample.adopter "noisy" (.panic .other)
    ∃ m ∈ history (Engine.new Sample.roles.freeze {}) [.declare plain, .compose "plain"],
      ∃ m' ∈ history (Engine.new Sample.roles.freeze {})
          [.declare noisy, .declare plain, .compose "noisy", .compose "plain"],
        ∃ outcome outcome', m.engine.Decided plain outcome ∧ m'.engine.Decided plain outcome' ∧
          outcome = outcome' := by
  intro plain noisy
  have hkeep : plain.AnswersBy fun _ _ => true := fun _ s => by
    rcases s with ⟨_ | _, _⟩
    · rfl
    · rfl
  have hs := Engine.sound_new Sample.roles {}
  have hs₁ := (course_step (.declare plain) hs).sound
  have hs₂ := (course_step (.declare plain) (course_step (.declare noisy) hs).sound).sound
  have hpanic := course_step (.compose "noisy") hs₂
  obtain ⟨t, ht, hdef, -⟩ := hpanic.progress.types "plain" { definition := plain } rfl
  replace hdef : t.definition = plain := hdef
  have hv : (((runFrom (Request.compose "noisy").step
      (Sample.declared [noisy, plain])).2).slotOf "plain").isVacant = true := by
    decide +kernel
  have hslot : t.slot = .vacant := by
    rw [show ((runFrom (Request.compose "noisy").step
      (Sample.declared [noisy, plain])).2).slotOf "plain" = t.slot from
        Engine.slotOf_of_find? ht] at hv
    cases hslot : t.slot with
    | vacant => rfl
    | running => rw [hslot] at hv; cases hv
    | settled outcome => rw [hslot] at hv; cases hv
  have hfind : (Sample.declared [plain]).find? "plain" = some { definition := plain } := rfl
  obtain ⟨m, hm, outcome, h⟩ :=
    exists_decided_of_compose hs₁ hfind rfl hkeep (by decide +kernel)
  obtain ⟨m', hm', outcome', h'⟩ := exists_decided_of_compose hpanic.sound ht hslot
    (by rw [hdef]; exact hkeep) (by decide +kernel)
  have hm := mem_history_cons (r := .declare plain) (by decide +kernel) hm
  have hm' := mem_history_cons (r := .declare noisy) (by decide +kernel)
    (mem_history_cons (r := .declare plain) (by decide +kernel)
      (mem_history_cons (r := .compose "noisy") (by decide +kernel) hm'))
  rw [hdef] at h'
  exact ⟨m, hm, m', hm', outcome, outcome', h, h', outcome_eq_of_histories hm hm' hkeep h h'⟩

end RoleComposition
