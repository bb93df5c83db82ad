import RoleComposition.Proofs.Audits
import RoleComposition.Proofs.Resolving

/-!
# What the check for cycles foretells

The check walks down from all registered roles at once, and does not walk twice through what they
share. Roots resolve together exactly if each of them resolves alone, so nothing is hidden by that,
and the check passes exactly if every closure is there. Composing a type resolves the roles that it
declares, and nothing else in a composition fails the way resolving does. Main statements:
`resolutionOrder_isOk_forall`, `canFail_iff` and `checkAcyclic_of_used`.
-/

namespace RoleComposition

/-- The error says that a role is not registered, or lies on a cycle. -/
def CompositionError.IsUnresolved : CompositionError → Prop
  | .unknownRole _ | .roleCycle _ => True
  | _ => False

/-- In some run of an engine over a registry, composing a type comes to an error. -/
def Registry.CanFail (reg : Registry) (t : AdoptingType) (error : CompositionError) : Prop :=
  ∃ config rs m entry e, m ∈ history (Engine.new reg config) rs ∧
    m.engine.find? t.name = some entry ∧ entry.definition = t ∧
    m.compose t.name = (.ok (.error error), e)

variable {reg reg' : Registry} {config : Config} {t : AdoptingType} {error : CompositionError}

/-! ## Resolving several roots -/

namespace Registry

/-- Roots resolve together exactly if each of them resolves alone. -/
theorem resolutionOrder_isOk_forall {roots : List RoleId} :
    (∃ order, reg.resolutionOrder roots = .ok order) ↔
      ∀ a ∈ roots, ∃ order, reg.resolutionOrder [a] = .ok order := by
  simp only [resolutionOrder_isOk, reachedFrom_singleton]
  constructor
  · rintro ⟨hregistered, hacyclic⟩ a ha
    exact ⟨fun b hb => hregistered b ⟨a, ha, hb⟩, fun b hb => hacyclic b ⟨a, ha, hb⟩⟩
  · intro h
    exact ⟨fun b ⟨a, ha, hb⟩ => (h a ha).1 b hb, fun b ⟨a, ha, hb⟩ => (h a ha).2 b hb⟩

theorem checkAcyclic_eq_ok :
    reg.checkAcyclic = .ok () ↔ ∃ order, reg.resolutionOrder reg.ids = .ok order := by
  have hmap : reg.checkAcyclic = (reg.resolutionOrder reg.ids).map fun _ => () := rfl
  rw [hmap]
  cases reg.resolutionOrder reg.ids with
  | ok order => simp [Except.map]
  | error error => simp [Except.map]

theorem closure_isOk (hs : reg.Sound) (id : RoleId) :
    (∃ c, (runFrom (closure id) reg).1 = .ok c) ↔
      ∃ order, reg.resolutionOrder [id] = .ok order := by
  obtain ⟨reg', hrun, -⟩ := runFrom_closure hs id
  rw [hrun]
  cases reg.resolutionOrder [id] with
  | ok order => simp [Except.map]
  | error error => simp [Except.map]

end Registry

/-! ## Errors of the stages -/

theorem Registry.Hinders.isUnresolved {roots : List RoleId} (h : reg.Hinders roots error) :
    error.IsUnresolved := by
  cases h with
  | unknown _ _ => trivial
  | cycle _ _ _ => trivial

/-- Of the checks of a type, only the first fails the way resolving does. -/
theorem Registry.resolutionOrder_of_check (h : reg.check config t = .error error)
    (herror : error.IsUnresolved) : reg.resolutionOrder t.declaredRoles = .error error := by
  rcases check_eq_error h with horder | ⟨order, -, hstorage | ⟨-, hvalidate⟩⟩
  · exact horder
  · obtain ⟨role, fields, rfl⟩ := Engine.checkStorage_eq_error hstorage
    cases herror
  · rw [AdoptingType.validate_eq_error hvalidate] at herror
    cases herror

theorem AdoptingType.not_isUnresolved_of_outcomeOfTally {tally : Tally}
    (h : t.outcomeOfTally tally = .error error) : ¬ error.IsUnresolved := by
  unfold outcomeOfTally at h
  split_ifs at h
  cases h
  exact id

theorem Registry.check_of_outcomeOf {keep : RoleId → Signature → Bool}
    (h : reg.outcomeOf config t keep = .error error) (herror : error.IsUnresolved) :
    reg.check config t = .error error := by
  cases hcheck : reg.check config t with
  | error error' =>
    rw [outcomeOf_of_check_eq_error hcheck] at h
    cases h
    rfl
  | ok _ =>
    rw [outcomeOf_of_check_eq_ok hcheck] at h
    exact absurd herror (AdoptingType.not_isUnresolved_of_outcomeOfTally h)

/-- A composition that ends without a panic has come to what its merge has come to. -/
theorem Engine.eq_ok_of_afterMerge {name : String} {run : Except Halt Outcome × Engine}
    {outcome : Outcome} {e : Engine} (h : afterMerge name run = (.ok outcome, e)) :
    ∃ e₁, run = (.ok outcome, e₁) := by
  rcases run with ⟨(payload | _) | outcome', e₁⟩
  · cases h
  · cases h
  · cases h
    exact ⟨e₁, rfl⟩

/-! ## Types that cannot be resolved -/

section Runs

variable {rs : List Request} {m : Moment} {entry : TypeEntry} {name : String}
  (hover : (Engine.new reg' config).Over reg config)
  (hm : m ∈ history (Engine.new reg' config) rs) (ht : m.engine.find? name = some entry)

include hover hm ht

/-- A composition that fails the way resolving does has failed a check, whenever it was. -/
theorem check_of_compose {e : Engine} (hrun : m.compose name = (.ok (.error error), e))
    (herror : error.IsUnresolved) : reg.check config entry.definition = .error error := by
  obtain ⟨hs, hengine, past, hblocks⟩ := over_of_mem_history hover hm
  have hone := oneShot_of_sound hs ht
  cases hslot : entry.slot with
  | vacant =>
    obtain ⟨depth, -, -, hcompose⟩ := compose_vacant hs ht hslot
    obtain ⟨e₁, hmerge⟩ := Engine.eq_ok_of_afterMerge (hcompose.symm.trans hrun)
    rcases mergeTable_eq_ok (hs.engine.enter ht hslot).registry hmerge with
      ⟨error', hcheck, heq⟩ | ⟨-, tally, -, -, -, heq⟩
    · cases heq
      rw [← Registry.check_congr hengine.definitions, ← hengine.config]
      exact hcheck
    · exact absurd herror (AdoptingType.not_isUnresolved_of_outcomeOfTally heq.symm)
  | running =>
    rw [hone.running hslot] at hrun
    cases hrun
    cases herror
  | settled outcome =>
    rw [hone.settled outcome hslot] at hrun
    cases hrun
    -- what is stored came from the checks, from the tally, or from a panic
    have hblock := (BlockOf.iff_of_find? ht).1 (hblocks name)
    rw [hslot] at hblock
    generalize m.engine.entriesOf name = entries at hblock
    cases hblock with
    | decided houtcome => exact Registry.check_of_outcomeOf houtcome.symm herror
    | panicked _ => cases herror

end Runs

namespace Registry

/-- A type can fail the way resolving does exactly if the roles that it declares do not resolve, and
then it fails with their error. -/
theorem canFail_iff (hs : reg.Sound) (herror : error.IsUnresolved) :
    reg.CanFail t error ↔ reg.resolutionOrder t.declaredRoles = .error error := by
  have hover (config : Config) : (Engine.new reg config).Over reg config :=
    ⟨Engine.sound_new_of_sound hs config, rfl, rfl⟩
  constructor
  · rintro ⟨config, rs, m, entry, e, hm, ht, rfl, hrun⟩
    exact resolutionOrder_of_check (check_of_compose (hover config) hm ht hrun herror) herror
  · intro horder
    have hcheck : reg.check {} t = .error error := by
      unfold check
      rw [horder]
      rfl
    let m := Moment.between ((Engine.new reg {}).adding t)
    have hm : m ∈ history (Engine.new reg {}) [.declare t] :=
      List.mem_cons_of_mem _ List.mem_cons_self
    have ht : m.engine.find? t.name = some { definition := t } := by
      refine (Engine.find?_adding (Engine.new reg {}) t t.name).trans ?_
      rw [if_pos rfl]
      rfl
    obtain ⟨e, hrun⟩ := compose_of_check_eq_error (hover {}) hm ht hcheck
    exact ⟨{}, _, m, _, e, hm, ht, rfl, hrun⟩

/-- The check for cycles passes exactly if each registered role has a closure, and exactly if no
type that declares only registered roles can fail because one of its roles is not registered or
lies on a cycle, whatever the registry has gone through. -/
theorem checkAcyclic_of_used {b : RegistryBuilder} (h : Used b reg) :
    (reg.checkAcyclic = .ok () ↔
      ∀ id, reg.contains id = true → ∃ c, (runFrom (closure id) reg).1 = .ok c) ∧
    (reg.checkAcyclic = .ok () ↔
      ∀ t : AdoptingType, (∀ id ∈ t.declaredRoles, reg.contains id = true) →
        ∀ error, reg.CanFail t error → ¬ error.IsUnresolved) := by
  have hs := h.serves.sound
  simp only [checkAcyclic_eq_ok, closure_isOk hs]
  refine ⟨?_, fun hacyclic t hdeclared error hfail herror => ?_, fun hnone => ?_⟩
  · rw [resolutionOrder_isOk_forall]
    simp only [mem_ids]
  · -- the declared roles are among those that the check has walked down from
    have horder : ∃ order, reg.resolutionOrder t.declaredRoles = .ok order :=
      resolutionOrder_isOk_forall.2 fun a ha =>
        resolutionOrder_isOk_forall.1 hacyclic a (mem_ids.2 (hdeclared a ha))
    obtain ⟨order, horder⟩ := horder
    rw [(canFail_iff hs herror).1 hfail] at horder
    cases horder
  · cases horder : reg.resolutionOrder reg.ids with
    | ok order => exact ⟨order, rfl⟩
    | error error =>
      -- a type that declares all roles
      have herror := (hinders_of_resolutionOrder horder).isUnresolved
      have hfail : reg.CanFail { name := "", declaredRoles := reg.ids } error :=
        (canFail_iff hs herror).2 horder
      exact absurd herror (hnone _ (fun id hid => mem_ids.1 hid) error hfail)

end Registry

/-- Where there is a cycle below a role, some role has no closure and some type fails, though the
closure of another role has been asked for and is there. -/
theorem checkAcyclic_of_used_winding :
    let reg := (runFrom (Registry.closure ⟨"yard"⟩) Sample.winding.freeze).2
    Registry.Used Sample.winding reg ∧ reg.checkAcyclic ≠ .ok () ∧
      (∃ id, reg.contains id = true ∧ ∀ c, (runFrom (Registry.closure id) reg).1 ≠ .ok c) ∧
      ∃ t : AdoptingType, (∀ id ∈ t.declaredRoles, reg.contains id = true) ∧
        ∃ error, reg.CanFail t error ∧ error.IsUnresolved := by
  intro reg
  have hused : Registry.Used Sample.winding reg := .asked ⟨"yard"⟩ .frozen
  have hcyclic : reg.checkAcyclic ≠ .ok () := by decide +kernel
  obtain ⟨hclosures, htypes⟩ := Registry.checkAcyclic_of_used hused
  refine ⟨hused, hcyclic, ?_, ?_⟩
  · by_contra hnone
    refine hcyclic (hclosures.2 fun id hid => ?_)
    by_contra hmissing
    exact hnone ⟨id, hid, fun c hc => hmissing ⟨c, hc⟩⟩
  · by_contra hnone
    refine hcyclic (htypes.2 fun t hdeclared error hfail herror => ?_)
    exact hnone ⟨t, hdeclared, error, hfail, herror⟩

end RoleComposition
