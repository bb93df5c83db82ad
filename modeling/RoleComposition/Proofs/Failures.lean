import RoleComposition.Proofs.Consultations
import RoleComposition.Proofs.Outcomes

/-!
# Failed compositions

A type that does not compose fails with the error of the first stage that has found something, and
this error lists all that the stage has found. Its hook is asked only after the checks have passed,
and then about every candidate, so that no conflict hides another one. Main statement:
`diagnosis_of_compose`.
-/

namespace RoleComposition

/-- At a moment of a run a type can be composed undisturbed: it is declared, it is not being
composed, its hook answers by a rule, and no panic has ended its composition or will end it. -/
structure Poised (b : RegistryBuilder) (config : Config) (m : Moment) (t : TypeEntry)
    (keep : RoleId → Signature → Bool) : Prop where
  moment : ∃ rs, m ∈ history (Engine.new b.freeze config) rs
  entry : m.engine.find? t.definition.name = some t
  undisturbed : t.slot.Undisturbed
  answers : t.definition.AnswersBy keep
  calm : ∀ m' ∈ Trail.compose m.depth t.definition.name m.engine, m'.raised? = none

namespace Poised

variable {b : RegistryBuilder} {config : Config} {m : Moment} {t : TypeEntry}
  {keep : RoleId → Signature → Bool}

theorem sound (h : Poised b config m t keep) : m.Sound := by
  obtain ⟨rs, hm⟩ := h.moment
  exact (sound_of_mem_history hm).1

/-- Such a type is poised if no declared type has a hook that panics. -/
theorem of_calm {rs : List Request} (hm : m ∈ history (Engine.new b.freeze config) rs)
    (ht : m.engine.find? t.definition.name = some t) (hslot : t.slot.Undisturbed)
    (hkeep : t.definition.AnswersBy keep)
    (hcalm : ∀ t' ∈ m.engine.types, t'.definition.Calm fun _ => True) :
    Poised b config m t keep := by
  obtain ⟨hsound, hroom⟩ := (sound_of_mem_history hm).1
  have hengine : m.engine.Calm m.depth fun _ => True :=
    ⟨hsound, hroom, fun _ t' ht' _ => hcalm t' (Engine.mem_of_find? ht')⟩
  exact ⟨⟨rs, hm⟩, ht, hslot, hkeep, raised?_of_calm m.depth _ m.engine hengine trivial⟩

/-- A type that is the only one declared is poised before it is composed, unless its hook panics. -/
theorem of_alone {t : AdoptingType} (hkeep : t.AnswersBy keep) (hcalm : t.Calm fun _ => True) :
    Poised b config
      (.between { Engine.new b.freeze config with types := [{ definition := t }] })
      { definition := t } keep := by
  have hm : Moment.between { Engine.new b.freeze config with types := [{ definition := t }] } ∈
      history (Engine.new b.freeze config) [.declare t] :=
    List.mem_cons_of_mem _ List.mem_cons_self
  refine .of_calm hm (List.find?_cons_of_pos (beq_self_eq_true t.name)) Slot.undisturbed_vacant
    hkeep fun t' ht' => ?_
  rw [List.mem_singleton.1 ht']
  exact hcalm

/-- A type without a hook is poised there. -/
theorem of_alone_of_veto_eq_none {t : AdoptingType} (h : t.veto = none) :
    Poised b config
      (.between { Engine.new b.freeze config with types := [{ definition := t }] })
      { definition := t } fun _ _ => true := by
  refine of_alone ?_ fun hook hhook => ?_
  · unfold AdoptingType.AnswersBy
    rw [h]
    exact fun _ _ => rfl
  · rw [h] at hhook
    cases hhook

/-- Composing such a type comes to what the definitions decide. -/
theorem compose (h : Poised b config m t keep) :
    ∃ e, m.compose t.definition.name =
      (.ok (b.freeze.outcomeOf config t.definition keep), e) := by
  obtain ⟨rs, hm⟩ := h.moment
  obtain ⟨e, hrun, -⟩ := compose_of_undisturbed hm h.entry h.undisturbed h.answers h.calm
  exact ⟨e, hrun⟩

end Poised

theorem Registry.questionsTo_congr {reg reg' : Registry} (h : reg'.definitions = reg.definitions)
    (config : Config) (t : AdoptingType) :
    reg'.questionsTo config t = reg.questionsTo config t := by
  unfold questionsTo
  rw [check_congr h, offersTo_congr h]

/-- A type that fails does so with the error of the first stage that fails, which is complete. Its
hook is asked about everything there is to ask if the checks before have passed, and about nothing
otherwise; and nothing is asked any more once the type has its outcome. -/
theorem diagnosis_of_compose {b : RegistryBuilder} {config : Config} {m : Moment} {t : TypeEntry}
    {keep : RoleId → Signature → Bool} (h : Poised b config m t keep) :
    ∃ outcome e, m.compose t.definition.name = (.ok outcome, e) ∧
      (∀ error, outcome = .error error → b.freeze.Diagnosis config t.definition keep error) ∧
      (t.slot = .vacant →
        b.freeze.Consults config t.definition (e.questionsOf t.definition.name)) ∧
      (t.slot ≠ .vacant → e = m.engine) := by
  obtain ⟨e, hrun⟩ := h.compose
  refine ⟨_, e, hrun, fun error => Registry.diagnosis_of_outcomeOf, fun hv => ?_, fun hv => ?_⟩
  · obtain ⟨rs, hm⟩ := h.moment
    obtain ⟨-, hdef, hconfig⟩ := sound_of_mem_history hm
    obtain ⟨asked, heq, -, hok⟩ := asks_compose h.sound h.entry hv
    have hnone : m.engine.questionsOf t.definition.name = [] :=
      questionsOf_of_vacant hm (by rw [Engine.slotOf_of_find? h.entry, hv])
    rw [hrun] at heq hok
    rw [heq, hnone, List.nil_append, hok _ rfl, hconfig, Registry.questionsTo_congr hdef]
    exact Registry.consults_questionsTo b.freeze config t.definition
  · cases hslot : t.slot with
    | vacant => exact absurd hslot hv
    | running => exact absurd hslot h.undisturbed.1
    | settled outcome =>
      have hstored := (oneShot_of_sound h.sound h.entry).settled outcome hslot
      rw [hrun] at hstored
      exact congrArg Prod.snd hstored

namespace Sample

def part : Signature := ⟨.onType, "part"⟩

/-- A role that rivals the greeting, and composes it. -/
def parting : RoleDefinition :=
  (((RoleDefinition.named ⟨"parting"⟩).composes greeting.id).providesPrivate greet
    (.standIn (.role ⟨"parting"⟩) greet)).providesPrivate part
      (.standIn (.role ⟨"parting"⟩) part)

def staying : RoleDefinition :=
  (RoleDefinition.named ⟨"staying"⟩).providesPrivate part (.standIn (.role ⟨"staying"⟩) part)

/-- A registry of roles that rival each other. -/
def rivals : RegistryBuilder := { roles := [greeting, parting, staying] }

/-- A type that adopts roles of which several provide the same. -/
def torn (declaredRoles : List RoleId) (keep : RoleId → Signature → Bool) : AdoptingType :=
  { name := "torn", declaredRoles, veto := some (.ofRule keep) }

/-- Such types, at a moment before any is composed. -/
def before (types : List AdoptingType) : Moment :=
  .between { Engine.new rivals.freeze {} with types := types.map fun t => { definition := t } }

theorem calm_torn (declaredRoles : List RoleId) (keep : RoleId → Signature → Bool)
    (calm : String → Prop) : (torn declaredRoles keep).Calm calm := by
  rintro hook hhook role s
  cases hhook
  rcases s with ⟨_ | _, _⟩
  · exact trivial
  · exact trivial

theorem answersBy_torn (declaredRoles : List RoleId) (keep : RoleId → Signature → Bool) :
    (torn declaredRoles keep).AnswersBy keep := by
  rintro role ⟨_ | _, _⟩
  · exact rfl
  · exact rfl

/-- A type over rival roles can be composed. -/
theorem poised_torn (declaredRoles : List RoleId) (keep : RoleId → Signature → Bool) :
    Poised rivals {} (before [torn declaredRoles keep]) { definition := torn declaredRoles keep }
      keep :=
  .of_alone (answersBy_torn declaredRoles keep) (calm_torn declaredRoles keep _)

end Sample

/-- A type with two contested signatures, the hook of which is asked about all four candidates. -/
theorem diagnosis_of_torn :
    let torn := Sample.torn [Sample.parting.id, Sample.staying.id] fun _ _ => true
    Poised Sample.rivals {} (Sample.before [torn]) { definition := torn } (fun _ _ => true) ∧
      ∃ error e, (Sample.before [torn]).compose "torn" = (.ok (.error error), e) ∧
        Sample.rivals.freeze.Diagnosis {} torn (fun _ _ => true) error ∧
        Sample.rivals.freeze.Consults {} torn (e.questionsOf "torn") ∧
        (e.questionsOf "torn").length = 4 := by
  intro torn
  have h := Sample.poised_torn [Sample.parting.id, Sample.staying.id] fun _ _ => true
  obtain ⟨outcome, e, hrun, hdiagnosis, hconsults, -⟩ := diagnosis_of_compose h
  replace hrun : (Sample.before [torn]).compose "torn" = (.ok outcome, e) := hrun
  have hfailed : ((Sample.before [torn]).compose "torn").1.map Except.isOk = .ok false := by
    decide +kernel
  have hasked : (((Sample.before [torn]).compose "torn").2.questionsOf "torn").length = 4 := by
    decide +kernel
  rw [hrun] at hfailed hasked
  cases outcome with
  | ok table => cases hfailed
  | error error => exact ⟨h, error, e, hrun, hdiagnosis error rfl, hconsults rfl, hasked⟩

end RoleComposition
