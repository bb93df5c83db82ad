import RoleComposition.Proofs.Log.RunSteps

/-!
# What an audit foretells

An audit looks at the closure of each role alone, while a composition gathers the offers of all
declared roles anew and resolves them. For a type that adopts one role and has no hook, both say the
same: the error of the audit is the error of the type, and the contested signatures that the type
does not own are those of its conflict. Main statement: `audit_foretells`.
-/

namespace RoleComposition

/-- What an audit says of a role is what composing a type that adopts just this role comes to. -/
structure RoleAudit.Foretells (a : RoleAudit) (reg : Registry) (config : Config) (m : Moment)
    (t : AdoptingType) : Prop where
  failed : ∀ error, a.error = some error → ∃ e, m.compose t.name = (.ok (.error error), e)
  composed : a.error = none → t.veto = none → reg.Storeless config t.declaredRoles →
    (∀ s, ¬ reg.Lacks t s) →
      ((∃ table e, m.compose t.name = (.ok (.ok table), e)) ↔ ∀ s ∈ a.contested, t.owns s = true)
  conflict : a.error = none → t.veto = none → reg.Storeless config t.declaredRoles →
    (∀ s, ¬ reg.Lacks t s) → ¬ (∀ s ∈ a.contested, t.owns s = true) →
      ∃ conflicts e, m.compose t.name = (.ok (.error (.roleConflict (.type t.name) conflicts)), e) ∧
        conflicts.map SignatureConflict.signature = a.contested.filter fun s => !t.owns s

/-! ## Audits -/

namespace Registry

/-- The audit of a role, by the definitions. -/
def auditOf (reg : Registry) (r : RoleDefinition) : RoleAudit :=
  RoleAudit.withClosure { role := r.id, composes := r.composed }
    ((reg.resolutionOrder [r.id]).map fun _ => reg.closureOf r.id)

theorem role_auditOf (reg : Registry) (r : RoleDefinition) : (reg.auditOf r).role = r.id := by
  unfold auditOf
  cases reg.resolutionOrder [r.id] <;> rfl

/-- An audit fails with the error that the role does not resolve with. -/
theorem auditOf_eq_error {reg : Registry} {r : RoleDefinition} {error : CompositionError} :
    (reg.auditOf r).error = some error ↔ reg.resolutionOrder [r.id] = .error error := by
  unfold auditOf
  cases reg.resolutionOrder [r.id] <;> simp [RoleAudit.withClosure, Except.map]

theorem auditOf_eq_none {reg : Registry} {r : RoleDefinition} (h : (reg.auditOf r).error = none) :
    reg.ResolvesWithin reg.size r.id ∧
      (reg.auditOf r).contested = (reg.closureOf r.id).contested.map Prod.fst := by
  unfold auditOf at h ⊢
  cases horder : reg.resolutionOrder [r.id] with
  | error error =>
    rw [horder] at h
    cases h
  | ok order =>
    exact ⟨resolvesWithin_of_reachedFrom horder (reachedFrom_singleton.2 .refl), rfl⟩

/-- Auditing the roles one after the other says of each what the definitions say, whatever the slots
of the closures hold. -/
theorem Serves.mapM_auditRole {b : RegistryBuilder} {reg : Registry} (h : Serves b reg)
    (entries : List RegisteredRole) :
    ((entries.mapM fun e => auditRole e.definition).run reg).1 =
      entries.map fun e => b.freeze.auditOf e.definition := by
  induction entries generalizing reg with
  | nil => rfl
  | cons e entries ih =>
    rw [List.mapM_cons, List.map_cons]
    have hclosure : (runFrom (Registry.closure e.definition.id) reg).1 =
        (b.freeze.resolutionOrder [e.definition.id]).map fun _ =>
          b.freeze.closureOf e.definition.id := by
      obtain ⟨reg', hrun, -⟩ := runFrom_closure h.sound e.definition.id
      rw [hrun, resolutionOrder_congr h.definitions, closureOf_congr h.definitions]
    have hrole : RoleAudit.withClosure
        { role := e.definition.id, composes := e.definition.composed }
        (runFrom (Registry.closure e.definition.id) reg).1 = b.freeze.auditOf e.definition := by
      rw [hclosure]
      rfl
    exact congrArg₂ List.cons hrole (ih (h.closure e.definition.id))

theorem Serves.audit_eq {b : RegistryBuilder} {reg : Registry} (h : Serves b reg) :
    reg.audit = b.freeze.definitions.map b.freeze.auditOf := by
  have haudit : reg.audit = reg.definitions.map b.freeze.auditOf := by
    rw [Registry.definitions, List.map_map]
    exact h.mapM_auditRole reg.entries
  rw [haudit, h.definitions]

end Registry

/-! ## Contested signatures -/

section Contested

open Registry

variable {reg : Registry} {id : RoleId} {t : AdoptingType} {keep : RoleId → Signature → Bool}
  {s : Signature}

/-- A closure has more than one offer for the signatures that different roles below provide. -/
theorem Registry.Gathers.mem_contested {c : RoleClosure} (h : reg.Gathers id c) :
    s ∈ c.contested.map Prod.fst ↔
      ∃ o o', reg.Keeps [id] (fun _ _ => true) s o ∧ reg.Keeps [id] (fun _ _ => true) s o' ∧
        o ≠ o' := by
  have hkeeps (o : RoleId) : reg.Keeps [id] (fun _ _ => true) s o ↔
      ∃ e ∈ c.candidates s, e.origin = o := by
    constructor
    · rintro ⟨hreached, ⟨i, hi⟩, -⟩
      exact ⟨⟨o, i⟩, (h.mem_iff s _).2 ⟨reachedFrom_singleton.1 hreached, hi⟩, rfl⟩
    · rintro ⟨e, he, rfl⟩
      obtain ⟨ho, hi⟩ := (h.mem_iff s e).1 he
      exact ⟨reachedFrom_singleton.2 ho, ⟨_, hi⟩, rfl⟩
  have hlength : s ∈ c.contested.map Prod.fst ↔ 1 < (c.candidates s).length := by
    unfold RoleClosure.contested RoleClosure.candidates
    rw [List.mem_map]
    constructor
    · rintro ⟨⟨s, offers⟩, hoffers, rfl⟩
      obtain ⟨hmem, hlen⟩ := List.mem_filter.1 hoffers
      rw [SignatureMap.find?_eq_some.2 hmem]
      simpa using hlen
    · intro hlen
      cases hfind : c.methods.find? s with
      | none => simp [hfind] at hlen
      | some offers =>
        rw [hfind] at hlen
        have hmem := SignatureMap.find?_eq_some.1 hfind
        exact ⟨(s, offers), List.mem_filter.2 ⟨hmem, by simpa using hlen⟩, rfl⟩
  rw [hlength]
  simp only [hkeeps]
  have honce := h.once s
  constructor
  · intro hlen
    rcases hcs : c.candidates s with _ | ⟨e, _ | ⟨e', es⟩⟩
    · simp [hcs] at hlen
    · simp [hcs] at hlen
    · rw [hcs] at honce
      refine ⟨e.origin, e'.origin, ⟨e, by simp, rfl⟩, ⟨e', by simp, rfl⟩, fun heq => ?_⟩
      exact (List.nodup_cons.1 honce).1 (by simp [heq])
  · rintro ⟨o, o', ⟨e, he, rfl⟩, ⟨e', he', rfl⟩, hne⟩
    by_contra hlen
    rcases hcs : c.candidates s with _ | ⟨d, _ | ⟨d', ds⟩⟩
    · simp [hcs] at he
    · rw [hcs, List.mem_singleton] at he he'
      exact hne (by rw [he, he'])
    · simp [hcs] at hlen

/-- The conflicts that settling the offers comes to are about the contested signatures. -/
theorem mem_conflicts_tally (h : ∀ via ∈ t.declaredRoles, reg.ResolvesWithin reg.size via) :
    s ∈ (t.tally keep (reg.offersTo t)).conflicts.map SignatureConflict.signature ↔
      reg.Contested t keep s := by
  constructor
  · intro hs
    obtain ⟨conflict, hconflict, rfl⟩ := List.mem_map.1 hs
    exact (((listsConflicts_tally h).mem_iff conflict).1 hconflict).1
  · intro hs
    obtain ⟨cs, hcs, hsome⟩ := (contested_iff h).1 hs
    obtain ⟨conflict, hconflict⟩ := Option.ne_none_iff_exists'.1 hsome
    have hmem : conflict ∈ (t.tally keep (reg.offersTo t)).conflicts := by
      rw [AdoptingType.tally, Tally.conflicts_foldl_settle]
      exact List.mem_append_right _ (List.mem_filterMap.2 ⟨(s, cs), hcs, hconflict⟩)
    exact List.mem_map.2 ⟨conflict, hmem, by rw [eq_of_conflict? hconflict]⟩

/-- Where a type adopts one role and rejects nothing, its conflicts are about the contested
signatures of this role's closure that are not its own, in the same order. -/
theorem conflicts_eq_contested (h : reg.ResolvesWithin reg.size id)
    (ht : t.declaredRoles = [id]) :
    (t.tally (fun _ _ => true) (reg.offersTo t)).conflicts.map SignatureConflict.signature =
      ((reg.closureOf id).contested.map Prod.fst).filter fun s => !t.owns s := by
  have hdeclared : ∀ via ∈ t.declaredRoles, reg.ResolvesWithin reg.size via := by
    rw [ht]
    exact List.forall_mem_singleton.2 h
  refine eq_of_ascending_signatures (fun s => s) ?_ ?_ fun s => ?_
  · exact List.pairwise_map.2 (listsConflicts_tally hdeclared).ascending
  · refine List.Pairwise.filter _ (List.pairwise_map.2 ?_)
    exact (reg.closureOf id).methods.ascending.filter _
  · rw [mem_conflicts_tally hdeclared, List.mem_filter, (gathers_closureOf h).mem_contested]
    constructor
    · rintro ⟨hown, hseveral⟩
      exact ⟨ht ▸ hseveral, by simp [hown]⟩
    · rintro ⟨hseveral, hown⟩
      exact ⟨by simpa using hown, ht ▸ hseveral⟩

end Contested

/-! ## Types that are not asked -/

section Unasked

variable {b : RegistryBuilder} {config : Config} {rs : List Request} {m : Moment} {name : String}
  {t : TypeEntry}

section Over

variable {reg reg' : Registry} (hover : (Engine.new reg' config).Over reg config)
  (hm : m ∈ history (Engine.new reg' config) rs)

include hover hm

/-- A type the hook of which is never asked is vacant, or it has come to what the definitions
decide. -/
theorem vacant_or_settled (ht : m.engine.find? name = some t)
    (hunasked : ¬ (reg.check config t.definition = .ok () ∧ t.definition.veto ≠ none)) :
    t.slot = .vacant ∨ ∃ keep, t.slot = .settled (reg.outcomeOf config t.definition keep) := by
  obtain ⟨-, -, past, hblocks⟩ := over_of_mem_history hover hm
  have hblock := (BlockOf.iff_of_find? ht).1 (hblocks name)
  generalize t.slot = slot at hblock ⊢
  generalize m.engine.entriesOf name = entries at hblock
  cases hblock with
  | silent _ => exact .inl rfl
  | underway hcut => exact absurd ⟨hcut.1, hcut.2.1⟩ hunasked
  | decided houtcome => exact .inr ⟨_, by rw [houtcome]⟩
  | panicked hcut => exact absurd ⟨hcut.1, hcut.2.1⟩ hunasked

/-- A type that does not pass the checks fails with their error, whenever it is composed. -/
theorem compose_of_check_eq_error (ht : m.engine.find? name = some t) {error : CompositionError}
    (hcheck : reg.check config t.definition = .error error) :
    ∃ e, m.compose name = (.ok (.error error), e) := by
  obtain ⟨hs, ⟨-, hdef, hconfig⟩, -⟩ := over_of_mem_history hover hm
  rcases vacant_or_settled hover hm ht (by simp [hcheck]) with hv | ⟨keep, hsettled⟩
  · obtain ⟨depth, -, -, hrun⟩ := compose_vacant hs ht hv
    obtain ⟨reg₁, -, -, hmerge⟩ := runFrom_mergeTable (EngineM.composeWithin depth) t.definition
      (hs.engine.enter ht hv).registry
    have hchecks : (m.engine.enter t.definition).registry.check (m.engine.enter t.definition).config
        t.definition = .error error := by
      show m.engine.registry.check m.engine.config t.definition = _
      rw [Registry.check_congr hdef, hconfig, hcheck]
    rw [hchecks] at hmerge
    rw [hrun, hmerge]
    exact ⟨_, rfl⟩
  · rw [Registry.outcomeOf_of_check_eq_error hcheck] at hsettled
    exact ⟨_, (oneShot_of_sound hs ht).settled _ hsettled⟩

end Over

theorem trail_settleOffers_of_veto (depth : Nat) (inner : String → Engine → List Moment)
    {t : AdoptingType} (hveto : t.veto = none) (offers : List (Signature × List Candidate))
    (tally : Tally) (e : Engine) : Trail.settleOffers depth inner t offers tally e = [] := by
  induction offers generalizing tally e with
  | nil => rfl
  | cons offer offers ih =>
    unfold Trail.settleOffers Trail.resolve Trail.after
    rw [hveto]
    rcases runFrom (EngineM.settleSignature (EngineM.composeWithin depth) t tally offer) e with
      ⟨_ | tally', e'⟩
    · rfl
    · exact ih tally' e'

/-- No hook gets control while a type without a hook is composed. -/
theorem trail_compose_of_veto {e : Engine} (ht : e.find? name = some t)
    (hveto : t.definition.veto = none) (depth : Nat) : Trail.compose depth name e = [] := by
  cases hanswer : e.answer? name with
  | some outcome => exact trail_compose_of_answer hanswer depth
  | none =>
    obtain ⟨t', ht', hv⟩ := answer?_eq_none.1 hanswer
    rw [ht] at ht'
    cases ht'
    cases depth with
    | zero => rfl
    | succ depth =>
      rw [trail_compose ht hv]
      unfold Trail.mergeTable Trail.after
      rcases runFrom (EngineM.gatherOffers t.definition).run (e.enter t.definition) with
        ⟨_ | _ | offers, e'⟩
      · rfl
      · rfl
      · exact trail_settleOffers_of_veto depth _ hveto _ _ _

/-- A type without a hook comes to what the definitions decide, whenever it is composed. -/
theorem compose_of_veto_eq_none (hm : m ∈ history (Engine.new b.freeze config) rs)
    (ht : m.engine.find? name = some t) (hveto : t.definition.veto = none) :
    ∃ e, m.compose name =
      (.ok (b.freeze.outcomeOf config t.definition fun _ _ => true), e) := by
  have hkeep : t.definition.AnswersBy fun _ _ => true := by
    unfold AdoptingType.AnswersBy
    rw [hveto]
    exact fun _ _ => rfl
  have hslot : t.slot.Undisturbed := by
    have hover := Engine.over_new b config
    rcases vacant_or_settled hover hm ht (by simp [hveto]) with hv | ⟨keep, hsettled⟩
    · rw [hv]
      exact Slot.undisturbed_vacant
    · rw [hsettled]
      refine ⟨nofun, fun owner message heq => ?_⟩
      exact Registry.isFound_of_outcomeOf (Slot.settled.inj heq)
  have hcalm : ∀ m' ∈ Trail.compose m.depth name m.engine, m'.raised? = none := by
    rw [trail_compose_of_veto ht hveto]
    simp
  obtain ⟨e, hrun, -⟩ := compose_of_undisturbed hm ht hslot hkeep hcalm
  exact ⟨e, hrun⟩

end Unasked

/-! ## Foretelling -/

theorem AdoptingType.outcomeOfTally_eq_conflict {t : AdoptingType} {tally : Tally}
    (h : tally.conflicts ≠ []) :
    t.outcomeOfTally tally = .error (.roleConflict (.type t.name) tally.conflicts) := by
  unfold outcomeOfTally
  rw [if_neg (by simpa using h)]

namespace Registry

variable {reg : Registry} {config : Config} {r : RoleDefinition} {t : AdoptingType}

theorem check_of_auditOf_eq_error (ht : t.declaredRoles = [r.id]) {error : CompositionError}
    (h : (reg.auditOf r).error = some error) : reg.check config t = .error error := by
  unfold check
  rw [ht, auditOf_eq_error.1 h]
  rfl

/-- A type passes the checks if the audit of its one role has no error, and its storage and
capabilities are in order. -/
theorem check_of_auditOf_eq_none (ht : t.declaredRoles = [r.id])
    (h : (reg.auditOf r).error = none) (hstore : reg.Storeless config t.declaredRoles)
    (hcap : ∀ s, ¬ reg.Lacks t s) : reg.check config t = .ok () := by
  refine check_eq_ok_iff.2 ⟨?_, hstore, hcap⟩
  rw [ht, ← resolutionOrder_isOk_iff_resolves]
  cases horder : reg.resolutionOrder [r.id] with
  | ok order => exact ⟨order, rfl⟩
  | error error =>
    rw [auditOf_eq_error.2 horder] at h
    cases h

theorem conflicts_of_auditOf (ht : t.declaredRoles = [r.id]) (h : (reg.auditOf r).error = none) :
    (t.tally (fun _ _ => true) (reg.offersTo t)).conflicts.map SignatureConflict.signature =
      (reg.auditOf r).contested.filter fun s => !t.owns s := by
  obtain ⟨hwithin, hcontested⟩ := auditOf_eq_none h
  rw [hcontested]
  exact conflicts_eq_contested hwithin ht

/-- There is no conflict iff the type owns whatever is contested. -/
theorem conflicts_eq_nil_of_auditOf (ht : t.declaredRoles = [r.id])
    (h : (reg.auditOf r).error = none) :
    (t.tally (fun _ _ => true) (reg.offersTo t)).conflicts = [] ↔
      ∀ s ∈ (reg.auditOf r).contested, t.owns s = true := by
  rw [← List.map_eq_nil_iff, conflicts_of_auditOf ht h, List.filter_eq_nil_iff]
  simp

end Registry

theorem foretells_auditOf {b : RegistryBuilder} {config : Config} {rs : List Request} {m : Moment}
    {t : TypeEntry} {r : RoleDefinition} (hm : m ∈ history (Engine.new b.freeze config) rs)
    (ht : m.engine.find? t.definition.name = some t)
    (hdeclared : t.definition.declaredRoles = [r.id]) :
    (b.freeze.auditOf r).Foretells b.freeze config m t.definition where
  failed := fun error herror =>
    compose_of_check_eq_error (Engine.over_new b config) hm ht
      (Registry.check_of_auditOf_eq_error hdeclared herror)
  composed := fun herror hveto hstore hcap => by
    have hcheck := Registry.check_of_auditOf_eq_none hdeclared herror hstore hcap
    obtain ⟨e, hrun⟩ := compose_of_veto_eq_none hm ht hveto
    rw [hrun, Registry.outcomeOf_of_check_eq_ok hcheck,
      ← Registry.conflicts_eq_nil_of_auditOf hdeclared herror]
    constructor
    · rintro ⟨table, e', heq⟩
      have houtcome := Except.ok.inj (congrArg Prod.fst heq)
      exact (AdoptingType.outcomeOfTally_eq_ok.1 houtcome).1
    · intro hnil
      exact ⟨_, e, by rw [AdoptingType.outcomeOfTally_eq_ok.2 ⟨hnil, rfl⟩]⟩
  conflict := fun herror hveto hstore hcap hnot => by
    have hcheck := Registry.check_of_auditOf_eq_none hdeclared herror hstore hcap
    obtain ⟨e, hrun⟩ := compose_of_veto_eq_none hm ht hveto
    rw [← Registry.conflicts_eq_nil_of_auditOf hdeclared herror] at hnot
    rw [Registry.outcomeOf_of_check_eq_ok hcheck,
      AdoptingType.outcomeOfTally_eq_conflict hnot] at hrun
    exact ⟨_, e, hrun, Registry.conflicts_of_auditOf hdeclared herror⟩

/-- The audit of a registry lists its roles, and what it says of each of them is what composing a
type that adopts just this role comes to, whatever the registry and the engine have gone through. -/
theorem audit_foretells {b : RegistryBuilder} {reg : Registry} (hused : Registry.Used b reg) :
    reg.audit.map RoleAudit.role = b.freeze.ids ∧
      ∀ a ∈ reg.audit, ∀ (config : Config) (rs : List Request) (m : Moment) (t : TypeEntry),
        m ∈ history (Engine.new b.freeze config) rs →
          m.engine.find? t.definition.name = some t → t.definition.declaredRoles = [a.role] →
            a.Foretells b.freeze config m t.definition := by
  rw [hused.serves.audit_eq]
  refine ⟨?_, fun a ha config rs m t hm ht hdeclared => ?_⟩
  · rw [List.map_map, Registry.definitions, List.map_map]
    exact List.map_congr_left fun e _ => Registry.role_auditOf b.freeze e.definition
  · obtain ⟨r, -, rfl⟩ := List.mem_map.1 ha
    rw [Registry.role_auditOf] at hdeclared
    exact foretells_auditOf hm ht hdeclared

namespace Sample

/-- A type that adopts one role, and owns nothing. -/
def plain (id : RoleId) : AdoptingType := { name := "plain", declaredRoles := [id] }

end Sample

/-- The audit of a role that rivals the one it composes, in a registry that has been audited before,
and a type that adopts it. -/
theorem audit_foretells_parting :
    let plain := Sample.plain Sample.parting.id
    let m := Moment.between (runFrom (Request.declare plain).step
      (Engine.new Sample.rivals.freeze {})).2
    ∃ a ∈ Sample.rivals.freeze.audited.audit, a.role = Sample.parting.id ∧ a.error = none ∧
      a.contested = [Sample.greet] ∧ a.Foretells Sample.rivals.freeze {} m plain := by
  intro plain m
  obtain ⟨-, hforetells⟩ := audit_foretells (.audited .frozen : Registry.Used Sample.rivals _)
  obtain ⟨a, ha, hrole, herror, hcontested⟩ : ∃ a ∈ Sample.rivals.freeze.audited.audit,
      a.role = Sample.parting.id ∧ a.error = none ∧ a.contested = [Sample.greet] := by
    decide +kernel
  have hm : m ∈ history (Engine.new Sample.rivals.freeze {}) [.declare plain] :=
    List.mem_cons_of_mem _ List.mem_cons_self
  exact ⟨a, ha, hrole, herror, hcontested,
    hforetells a ha {} _ m { definition := plain } hm rfl (by rw [hrole]; rfl)⟩

end RoleComposition
