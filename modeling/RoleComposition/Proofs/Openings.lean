import RoleComposition.Proofs.Counters
import RoleComposition.Proofs.Ledgers
import RoleComposition.Proofs.StandIns
import RoleComposition.Proofs.Sweeps

/-!
# Engines that a check opens

A check sets up an engine with the roles and types of a manifest, and with stand-ins for their
bodies. None of its types has been used then, and none of its hooks can panic. Whatever order the
types are used in, each of them comes to what it comes to without the others, its report says what
that is, and the engine counts those that fail. Main statements: `Opens.comesTo`,
`ComesTo.eq_reportOf` and `Opens.ensureAll`.
-/

namespace RoleComposition

/-- The engine without types over registered roles, which goes on with the log of registering
them. -/
def RegistryBuilder.opening (b : RegistryBuilder) (config : Config) : Engine :=
  { Engine.new b.freeze config with log := b.frozenLog }

namespace Manifest

/-- The manifest with one type only. -/
def only (m : Manifest) (d : TypeDecl) : Manifest := { m with types := [d] }

/-- All roles and types of a manifest are set up for a check. -/
structure Opens (m : Manifest) (config : Config) (b : RegistryBuilder) (e : Engine) : Prop where
  installs : m.install .ofStandIns (.ofConfig config) = (b, none)
  declares : m.declareTypes .ofStandIns (b.opening config) = (e, none)

/-- What a type comes to, and what is reported of it, if it is composed over the roles of a manifest
without the other types. -/
def ComesTo (m : Manifest) (config : Config) (d : TypeDecl) (outcome : Outcome)
    (report : Report) : Prop :=
  ∃ b e e', (m.only d).Opens config b e ∧
    runFrom (EngineM.compose d.name) e = (.ok outcome, e') ∧ e'.report d.name = .ok report

end Manifest

/-- The report of a listed type that has come to an outcome: the methods of its table, each with its
provider and the name of its body, and the digest of the table, or else the message of its error. -/
def TypeDecl.reportOf (d : TypeDecl) : Outcome → Report
  | .ok table =>
    { typeName := d.name
      state := .composed
      declaredRoles := d.adopts
      settled := true
      methods := table.entries.toList.map fun e => ⟨e.1, e.2.provider, e.2.implementation.label⟩
      digest := some table.digest }
  | .error error =>
    { typeName := d.name
      state := .failed
      declaredRoles := d.adopts
      settled := true
      error := some error.message }

/-- An engine over frozen roles, of whose types none has been used. -/
structure Engine.Untouched (b : RegistryBuilder) (config : Config) (e : Engine) : Prop where
  upon : e.Over b.freeze config
  idle : e.spans = []
  blocks : Blocks b.freeze config [] e
  accounted : e.Accounted []
  unharmed : ∀ own, e.Unharmed b config own

/-- The entry of a type that has been composed over frozen roles, with the hook of a listed type. -/
def RegistryBuilder.composedEntry (b : RegistryBuilder) (config : Config) (d : TypeDecl)
    (t : AdoptingType) : TypeEntry :=
  ⟨t, .settled (b.freeze.outcomeOf config t d.keeps), true⟩

/-! ## Lists side by side -/

section Lists

variable {α β : Type} {R : α → β → Prop} {l : List α} {l' : List β}

theorem exists_left_of_forall₂ (h : List.Forall₂ R l l') : ∀ b ∈ l', ∃ a ∈ l, R a b := by
  induction h with
  | nil => exact List.forall_mem_nil _
  | @cons a b l l' hr _ ih =>
    refine List.forall_mem_cons.2 ⟨⟨a, List.mem_cons_self, hr⟩, fun b hb => ?_⟩
    obtain ⟨a, ha, hr⟩ := ih b hb
    exact ⟨a, List.mem_cons_of_mem _ ha, hr⟩

theorem exists_right_of_forall₂ (h : List.Forall₂ R l l') : ∀ a ∈ l, ∃ b ∈ l', R a b :=
  exists_left_of_forall₂ (List.Forall₂.flip h)

end Lists

/-! ## Setting up -/

namespace RegistryBuilder

/-- A builder logs nothing about types. -/
theorem subject?_of_install {m : Manifest} {c : Catalog} {config : Config} {b : RegistryBuilder}
    {error : Option CompositionError} (h : m.install c (.ofConfig config) = (b, error)) :
    ∀ l ∈ b.frozenLog, l.event.subject? = none := by
  have hlog : ∀ l ∈ b.log, l.event.subject? = none := by
    refine holds_of_runSteps (P := fun b : RegistryBuilder => ∀ l ∈ b.log, l.event.subject? = none)
      (fun b d b' hb hstep => ?_) (List.forall_mem_nil _) h
    obtain ⟨r, -, hstep⟩ := exists_of_bind_eq_ok hstep
    obtain ⟨-, -, -, rfl⟩ := register_eq_ok.1 hstep
    exact List.forall_mem_append.2 ⟨hb, List.forall_mem_singleton.2 rfl⟩
  exact List.forall_mem_append.2 ⟨hlog, List.forall_mem_singleton.2 rfl⟩

end RegistryBuilder

namespace TypeDecl

variable {d : TypeDecl} {c : Catalog} {t : AdoptingType}

theorem outline_of_toAdoptingType (h : d.toAdoptingType c = .ok t) : t.outline = d.outline := by
  have hmirrors := mirrors_toAdoptingType c d
  rw [h] at hmirrors
  generalize hd : d.outline = outline at hmirrors
  cases hmirrors with
  | ok => rfl

theorem name_of_toAdoptingType (h : d.toAdoptingType c = .ok t) : t.name = d.name := by
  rw [← Manifest.name_outline d, ← outline_of_toAdoptingType h]
  rfl

theorem declaredRoles_of_toAdoptingType (h : d.toAdoptingType c = .ok t) :
    t.declaredRoles = d.adopts := by
  rw [← Manifest.declaredRoles_outline d, ← outline_of_toAdoptingType h]
  rfl

/-- The hook of a listed type answers at once. -/
theorem prompt_of_toAdoptingType (h : d.toAdoptingType c = .ok t) : t.Prompt d.keeps :=
  Manifest.prompt_of_veto (congrArg AdoptingType.veto (outline_of_toAdoptingType h))

end TypeDecl

namespace Engine.Untouched

variable {b : RegistryBuilder} {config : Config} {e : Engine} {t : AdoptingType}

theorem opening (hlog : ∀ l ∈ b.frozenLog, l.event.subject? = none) :
    (b.opening config).Untouched b config := by
  have hquiet : (Engine.new b.freeze config).Quiet (b.opening config) := by
    refine ⟨rfl, rfl, rfl, rfl, fun name => List.countP_eq_zero.2 fun l hl => ?_⟩
    have hsubject := hlog l hl
    cases hevent : l.event <;> simp_all [Event.subject?]
  refine ⟨⟨hquiet.sound (sound_new b config), rfl, rfl⟩, rfl, fun name => ⟨?_, rfl⟩,
    ⟨rfl, rfl, rfl, rfl⟩,
    fun own => ⟨⟨(sound_new b config).registry, rfl⟩, rfl, fun t _ ht => by cases ht⟩⟩
  exact List.filter_eq_nil_iff.2 fun l hl => by simp [hlog l hl]

theorem adding (h : e.Untouched b config) (hnew : e.find? t.name = none) :
    (e.adding t).Untouched b config :=
  ⟨⟨h.upon.sound.adding hnew, h.upon.definitions, h.upon.config⟩, h.idle,
    (telling_blocks b.freeze config).declares h.blocks hnew,
    (telling_accounted b.freeze config).declares h.accounted hnew,
    fun own => (concerns_unharmed b config own).declares e t (h.unharmed own) hnew⟩

end Engine.Untouched

/-- A listed type that is declared is added with its bodies. -/
theorem exists_of_declare {c : Catalog} {d : TypeDecl} {e e' : Engine}
    (h : (do return (← e.declare (← d.toAdoptingType c)).2) = .ok e') :
    ∃ t, d.toAdoptingType c = .ok t ∧ e.find? t.name = none ∧ e' = e.adding t := by
  obtain ⟨t, ht, h⟩ := exists_of_bind_eq_ok h
  obtain ⟨declared, hdeclared, h⟩ := exists_of_bind_eq_ok h
  unfold Engine.declare at hdeclared
  split_ifs at hdeclared with hsome
  cases hdeclared
  cases h
  exact ⟨t, ht, by simpa using hsome, rfl⟩

namespace Manifest

variable {m : Manifest} {config : Config} {b : RegistryBuilder} {e : Engine} {d : TypeDecl}

/-- The declared types are the listed ones, with their bodies. -/
theorem forall₂_of_declares {c : Catalog} {l : List TypeDecl} {e e' : Engine}
    (h : runSteps (fun e d => do return (← e.declare (← d.toAdoptingType c)).2) e l = (e', none)) :
    ∃ ts, l.Forall₂ (fun d (t : TypeEntry) => d.toAdoptingType c = .ok t.definition) ts ∧
      e'.types = e.types ++ ts := by
  induction l generalizing e with
  | nil =>
    cases h
    exact ⟨[], .nil, (List.append_nil _).symm⟩
  | cons d l ih =>
    obtain ⟨e₁, hstep, hrest⟩ := exists_of_runSteps_cons h
    obtain ⟨t, ht, -, rfl⟩ := exists_of_declare hstep
    obtain ⟨ts, hts, htypes⟩ := ih hrest
    refine ⟨{ definition := t } :: ts, .cons ht hts, ?_⟩
    rw [htypes, List.append_cons]
    rfl

namespace Opens

theorem types (h : m.Opens config b e) :
    m.types.Forall₂ (fun d t => d.toAdoptingType .ofStandIns = .ok t.definition) e.types := by
  obtain ⟨ts, hts, htypes⟩ := forall₂_of_declares h.declares
  rw [htypes]
  exact hts

theorem untouched (h : m.Opens config b e) : e.Untouched b config := by
  refine holds_of_runSteps (P := Engine.Untouched b config) (fun e d e' he hstep => ?_)
    (.opening (RegistryBuilder.subject?_of_install h.installs)) h.declares
  obtain ⟨t, -, hnew, rfl⟩ := exists_of_declare hstep
  exact he.adding hnew

theorem atRest (h : m.Opens config b e) : e.AtRest := by
  refine ⟨⟨h.untouched.upon.sound, Nat.le_refl _, fun name t ht _ => ?_⟩, h.untouched.idle⟩
  obtain ⟨d, -, hd⟩ := exists_left_of_forall₂ h.types t (Engine.mem_of_find? ht)
  exact (TypeDecl.prompt_of_toAdoptingType hd).calm _

/-- With one of the types only, the roles are set up as with all of them. -/
theorem only (h : m.Opens config b e) {t : AdoptingType}
    (ht : d.toAdoptingType .ofStandIns = .ok t) :
    (m.only d).Opens config b ((b.opening config).adding t) := by
  refine ⟨h.installs, ?_⟩
  unfold declareTypes Manifest.only runSteps
  simp only [ht]
  rfl

end Opens

end Manifest

/-! ## Types by themselves -/

section Types

variable {m : Manifest} {config : Config} {b : RegistryBuilder} {e : Engine} {d : TypeDecl}

/-- A composed type with the hook of a listed type has come to what the definitions decide. -/
theorem TypeEntry.eq_composedEntry {c : Catalog} {t : TypeEntry} {outcome : Outcome}
    (hover : e.Over b.freeze config) (hunharmed : e.Unharmed b config t.definition.name)
    (hd : d.toAdoptingType c = .ok t.definition) (ht : t ∈ e.types)
    (hslot : t.slot = .settled outcome) : t = b.composedEntry config d t.definition := by
  have hkeep := TypeDecl.prompt_of_toAdoptingType hd
  have hfind := Engine.find?_of_mem hover.sound.distinct ht
  have hmarked : t.settled = true := by
    rw [hover.sound.marked t ht, hslot]
    cases outcome <;> rfl
  have houtcome : outcome = b.freeze.outcomeOf config t.definition d.keeps := by
    rcases hover.sound.settles t ht outcome hslot with ⟨payload, rfl⟩ | ⟨-, hrule⟩
    · exact absurd hslot (hunharmed.unharmed t d.keeps hfind hkeep _ _)
    · rw [hrule d.keeps hkeep.answersBy, hover.config, Registry.outcomeOf_congr hover.definitions]
  obtain ⟨definition, slot, settled⟩ := t
  cases hslot
  cases hmarked
  rw [houtcome]
  rfl

theorem RegistryBuilder.report_composedEntry {c : Catalog} {t : AdoptingType}
    (ht : d.toAdoptingType c = .ok t) :
    (b.composedEntry config d t).report = d.reportOf (b.freeze.outcomeOf config t d.keeps) := by
  unfold composedEntry TypeEntry.report
  rw [TypeDecl.name_of_toAdoptingType ht, TypeDecl.declaredRoles_of_toAdoptingType ht]
  cases b.freeze.outcomeOf config t d.keeps <;> rfl

theorem TypeEntry.isFailed_report (t : TypeEntry) :
    t.report.isFailed = (t.slot.state == .failed) := by
  unfold report Report.withOutcome Report.pending Report.isFailed
  rcases t.slot.outcome? with _ | _ | _ <;> rfl

/-- A composition without a panic stores its outcome with the entry that is reported. -/
theorem Engine.AtRest.report_of_compose {name : String} {t : TypeEntry} {outcome : Outcome}
    {e' : Engine} (h : e.AtRest) (ht : e.find? name = some t)
    (hrun : runFrom (EngineM.compose name) e = (.ok outcome, e')) :
    ∃ t', t' ∈ e'.types ∧ t'.definition = t.definition ∧ t'.slot = .settled outcome ∧
      e'.report name = .ok t'.report := by
  obtain ⟨outcome', e₁, hrun', -, hlead, hstored⟩ := h.compose ht
  rw [hrun] at hrun'
  cases hrun'
  obtain ⟨t', ht', hslot⟩ := outcome_eq_some.1 hstored
  obtain ⟨t₁, ht₁, hlead₁⟩ := hlead.exists_find? ht
  rw [ht'] at ht₁
  cases ht₁
  refine ⟨t', mem_of_find? ht', hlead₁.definition, hslot, ?_⟩
  unfold Engine.report entry
  rw [ht']
  rfl

namespace Manifest

/-- A listed type can be composed without the others, and comes to what the definitions decide. -/
theorem Opens.comesTo (h : m.Opens config b e) {t : AdoptingType}
    (ht : d.toAdoptingType .ofStandIns = .ok t) :
    m.ComesTo config d (b.freeze.outcomeOf config t d.keeps)
      (b.composedEntry config d t).report := by
  have hopens := h.only ht
  have hname := TypeDecl.name_of_toAdoptingType ht
  have hfind : ((b.opening config).adding t).find? d.name = some { definition := t } := by
    rw [Engine.find?_adding, if_pos hname]
    rfl
  obtain ⟨outcome, e', hrun, hrest, hlead, -⟩ := hopens.atRest.compose hfind
  obtain ⟨t', ht', hdef, hslot, hreport⟩ := hopens.atRest.report_of_compose hfind hrun
  have hkept := (Engine.concerns_unharmed b config t'.definition.name).upheld.composes
    ((b.opening config).adding t).vacantTypes d.name _ (hopens.untouched.unharmed _)
  have hlast := hkept.last
  rw [show runFrom (EngineM.composeWithin _ d.name) _ = _ from hrun] at hlast
  have hentry := TypeEntry.eq_composedEntry
    (hopens.untouched.upon.of_leads hrest.calm.sound hlead) hlast (by rw [hdef]; exact ht) ht' hslot
  rw [hdef] at hentry
  subst hentry
  cases hslot
  exact ⟨b, _, e', hopens, hrun, hreport⟩

theorem ComesTo.unique {outcome outcome' : Outcome} {report report' : Report}
    (h : m.ComesTo config d outcome report) (h' : m.ComesTo config d outcome' report') :
    outcome' = outcome ∧ report' = report := by
  obtain ⟨b, e, e₁, hopens, hrun, hreport⟩ := h
  obtain ⟨b', e', e₁', hopens', hrun', hreport'⟩ := h'
  cases hopens.installs.symm.trans hopens'.installs
  cases hopens.declares.symm.trans hopens'.declares
  cases hrun.symm.trans hrun'
  cases hreport.symm.trans hreport'
  exact ⟨rfl, rfl⟩

/-- What is reported of a type is read off what it has come to. -/
theorem ComesTo.eq_reportOf {outcome : Outcome} {report : Report}
    (h : m.ComesTo config d outcome report) : report = d.reportOf outcome := by
  obtain ⟨b, e, e', hopens, hrun, hreport⟩ := h
  obtain ⟨t, -, ht⟩ := exists_right_of_forall₂ hopens.types d (List.mem_singleton_self d)
  have hcomes : m.ComesTo config d (b.freeze.outcomeOf config t.definition d.keeps)
      (b.composedEntry config d t.definition).report := hopens.comesTo ht
  obtain ⟨rfl, rfl⟩ := hcomes.unique ⟨b, e, e', hopens, hrun, hreport⟩
  exact RegistryBuilder.report_composedEntry ht

/-- A report says of a type whether it has failed. -/
theorem ComesTo.isFailed {outcome : Outcome} {report : Report}
    (h : m.ComesTo config d outcome report) : report.isFailed = !outcome.isOk := by
  rw [h.eq_reportOf]
  cases outcome <;> rfl

/-- Once the types of a manifest have been used, each is as it would be without the others. -/
theorem Opens.ensureAll (h : m.Opens config b e) :
    ∃ e', runFrom (EngineM.ensureAll .report) e = (.ok (e'.types.filterMap TypeEntry.fatal?), e') ∧
      e'.spans = [] ∧
      m.types.Forall₂ (fun d t => ∃ outcome, m.ComesTo config d outcome t.report) e'.types ∧
      e'.metrics.compositionsFailed = e'.types.countP fun t => t.report.isFailed := by
  obtain ⟨e', hrun, hidle, hlead, hsettled⟩ := h.atRest.ensureAll
  have hover := h.untouched.upon.of_leads hidle.sound hlead
  refine ⟨e', hrun, hidle.spans, ?_, ?_⟩
  · have hlisted : m.types.Forall₂ (fun d t => d.toAdoptingType .ofStandIns = .ok t)
        (e.types.map TypeEntry.definition) := List.forall₂_map_right_iff.2 h.types
    rw [← hlead.map_definition] at hlisted
    refine forall₂_imp_of_mem (List.forall₂_map_right_iff.1 hlisted) fun d _ t ht hd => ?_
    obtain ⟨outcome, hslot⟩ := hsettled t ht
    have hkept := kept_firstUses
      (Engine.concerns_unharmed b config t.definition.name).upheld .report
      (e.handles.map Handle.name) (h.untouched.unharmed _)
    have hlast := hkept.last
    rw [show runFrom (EngineM.firstUses .report _) e = _ from hrun] at hlast
    rw [TypeEntry.eq_composedEntry hover hlast hd ht hslot]
    exact ⟨_, h.comesTo hd⟩
  · have hreported := reported_firstUses
      ((telling_blocks b.freeze config).and (telling_accounted b.freeze config))
      (fun hM => hM.1.fresh) .report (e.handles.map Handle.name) h.untouched.upon
      ⟨h.untouched.blocks, h.untouched.accounted⟩
    have hended := hreported.ended
    rw [show runFrom (EngineM.firstUses .report _) e = _ from hrun] at hended
    rw [hended.2.failures]
    refine Engine.total_eq_countP fun t _ => ?_
    rw [TypeEntry.isFailed_report]
    rcases t.slot with _ | _ | (error | table) <;> rfl

end Manifest

end Types

end RoleComposition
