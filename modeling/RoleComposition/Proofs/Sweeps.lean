import RoleComposition.Proofs.Closures

/-!
# Using types in turn

Under the policy `report` a host that uses types in turn comes to the end of them, unless a hook
panics. By then each of them is settled, and the fatal errors are the ones that are stored, in the
order in which the types were used: what a hook has composed on the way does not show. Using them
again changes nothing. Main statements: `AtRest.ensureAll` and `swept_of_history`.
-/

namespace RoleComposition

/-- The fatal error of a type that has failed. -/
def TypeEntry.fatal? (t : TypeEntry) : Option FatalError :=
  match t.slot with
  | .settled (.error cause) => some ⟨t.definition.name, cause⟩
  | _ => none

theorem TypeEntry.slot_of_fatal? {t : TypeEntry} {f : FatalError} (h : t.fatal? = some f) :
    t.slot = .settled (.error f.cause) := by
  unfold fatal? at h
  rcases hslot : t.slot with _ | _ | (cause | table) <;> simp only [hslot] at h <;> cases h
  rfl

/-- An engine between two calls. -/
structure Engine.Idle (e : Engine) : Prop where
  sound : e.Sound
  spans : e.spans = []

/-- An engine between two calls, of whose hooks none panics. -/
structure Engine.AtRest (e : Engine) : Prop where
  calm : e.Calm e.vacantTypes fun _ => True
  idle : e.spans = []

/-- Elements side by side are related more closely if the members of the lists are. -/
theorem forall₂_imp_of_mem {α β : Type} {R S : α → β → Prop} {l : List α} {l' : List β}
    (h : List.Forall₂ R l l') (h' : ∀ a ∈ l, ∀ b ∈ l', R a b → S a b) : List.Forall₂ S l l' := by
  refine List.forall₂_iff_zip.2 ⟨h.length_eq, fun {a b} hab => ?_⟩
  obtain ⟨ha, hb⟩ := List.of_mem_zip hab
  exact h' a ha b hb (List.forall₂_zip h hab)

namespace Engine

/-- The fatal error of a type that has failed, by its name. -/
def fatal? (e : Engine) (name : String) : Option FatalError := (e.find? name).bind TypeEntry.fatal?

variable {e e₁ : Engine} {name : String} {t : TypeEntry}

/-- A settled type has a fatal error if it has stored one. -/
theorem fatal?_of_outcome {outcome : Outcome} (h : e.outcome name = .ok (some outcome)) :
    e.fatal? name =
      match outcome with
      | .ok _ => none
      | .error cause => some ⟨name, cause⟩ := by
  obtain ⟨t, ht, hslot⟩ := outcome_eq_some.1 h
  unfold fatal? TypeEntry.fatal?
  rw [ht, Option.bind_some, hslot, name_of_find? ht]
  cases outcome <;> rfl

theorem handles_names (e : Engine) :
    e.handles.map Handle.name = (e.types.map TypeEntry.definition).map AdoptingType.name := by
  unfold handles
  rw [List.map_map, List.map_map]
  show e.types.zipIdx.map ((AdoptingType.name ∘ TypeEntry.definition) ∘ Prod.fst) = _
  rw [← List.map_map, List.zipIdx_map_fst]

/-- The fatal errors of all types, in the order of their declaration. -/
theorem filterMap_fatal? (hs : e.Sound) :
    (e.handles.map Handle.name).filterMap e.fatal? = e.types.filterMap TypeEntry.fatal? := by
  rw [handles_names, List.filterMap_map, List.filterMap_map]
  refine List.filterMap_congr fun t ht => ?_
  show (e.find? t.definition.name).bind TypeEntry.fatal? = _
  rw [find?_of_mem hs.distinct ht, Option.bind_some]

/-- A completed composition leaves the definitions as they are. -/
theorem Leads.map_definition (h : e.Leads e₁) :
    e₁.types.map TypeEntry.definition = e.types.map TypeEntry.definition := by
  have hmap {l l₁ : List TypeEntry} (hl : List.Forall₂ TypeEntry.Leads l l₁) :
      l₁.map TypeEntry.definition = l.map TypeEntry.definition := by
    induction hl with
    | nil => rfl
    | cons ht _ ih => rw [List.map_cons, List.map_cons, ht.definition, ih]
  exact hmap h.types

namespace Idle

/-- A declared type is composed to the outcome that is then stored, unless a hook panics. -/
theorem compose (h : e.Idle) (ht : e.find? name = some t)
    (hcalm : ∀ m ∈ Trail.compose e.vacantTypes name e, m.raised? = none) :
    ∃ outcome e₁, runFrom (EngineM.compose name) e = (.ok outcome, e₁) ∧ e₁.Idle ∧ e.Leads e₁ ∧
      e₁.outcome name = .ok (some outcome) := by
  have hs := h.sound
  have hpass : Passage e (Trail.compose e.vacantTypes name e) (runFrom (EngineM.compose name) e) :=
    passage_composeWithin e.vacantTypes name e hs (Nat.le_refl _)
  have hidle : (runFrom (EngineM.compose name) e).2.Idle :=
    ⟨hpass.sound, hpass.spans.trans h.spans⟩
  have honce := oneShot_of_sound (sound_between hs) ht
  have hcompose : (Moment.between e).compose name = runFrom (EngineM.compose name) e := rfl
  rcases hrun : runFrom (EngineM.compose name) e with ⟨(payload | _) | outcome, e₁⟩
  · obtain ⟨m, hm, hraised⟩ := hpass.raised payload (by rw [hrun])
    rw [hcalm m hm] at hraised
    cases hraised
  · exact absurd (by rw [hrun]) hpass.goesOn
  · rw [hrun] at hpass hidle hcompose
    refine ⟨outcome, e₁, rfl, hidle, hpass.leads, ?_⟩
    cases hslot : t.slot with
    | vacant =>
      obtain ⟨stored, e₂, he₂, hstored, hends⟩ := honce.vacant hslot
      rw [hcompose] at he₂ hends
      subst he₂
      rcases hends with hok | ⟨payload, hpanic, -⟩
      · cases hok
        exact hstored
      · cases hpanic
    | running =>
      have hspan : name ∈ e.spans := (hs.running name).2 ((slotOf_of_find? ht).trans hslot)
      rw [h.spans] at hspan
      cases hspan
    | settled stored =>
      have hanswer := honce.settled stored hslot
      rw [hcompose] at hanswer
      cases hanswer
      exact (outcome_of_find? ht).trans (by rw [hslot]; rfl)

/-- A declared type is used, be it that it fails. -/
theorem firstUse (h : e.Idle) (ht : e.find? name = some t)
    (hcalm : ∀ m ∈ Trail.compose e.vacantTypes name e, m.raised? = none) :
    ∃ outcome e₁, runFrom (EngineM.firstUse .report name) e =
        (.ok (outcome.mapError (FatalError.mk name)), e₁) ∧
      e₁.Idle ∧ e.Leads e₁ ∧ e₁.outcome name = .ok (some outcome) := by
  obtain ⟨outcome, e₁, hrun, hidle, hlead, hstored⟩ := h.compose ht hcalm
  refine ⟨outcome, ?_⟩
  rw [runFrom_firstUse, hrun]
  cases outcome with
  | ok table => exact ⟨e₁, rfl, hidle, hlead, hstored⟩
  | error cause =>
    have hquiet : e₁.Quiet (e₁.logged (.compositionFatal name cause)) :=
      ⟨rfl, rfl, rfl, rfl, fun _ => starts_logged _ _ _⟩
    exact ⟨_, rfl, ⟨hquiet.sound hidle.sound, hidle.spans⟩, hlead.trans hquiet.leads, hstored⟩

/-- Types are used in turn. Each of them is settled in the end, and those that have failed are
listed with what is stored of them. -/
theorem firstUses {names : List String} (h : e.Idle)
    (hnames : ∀ name ∈ names, ∃ t, e.find? name = some t)
    (hcalm : ∀ m ∈ Trail.firstUses .report names e, m.raised? = none) :
    ∃ e₁, runFrom (EngineM.firstUses .report names) e = (.ok (names.filterMap e₁.fatal?), e₁) ∧
      e₁.Idle ∧ e.Leads e₁ ∧ ∀ name ∈ names, ∃ outcome, e₁.outcome name = .ok (some outcome) := by
  induction names generalizing e with
  | nil => exact ⟨e, rfl, h, .refl e, List.forall_mem_nil _⟩
  | cons name names ih =>
    obtain ⟨⟨t, ht⟩, hnames⟩ := List.forall_mem_cons.1 hnames
    obtain ⟨hfirst, hrest⟩ := List.forall_mem_append.1 (List.forall_mem_cons.1 hcalm).2
    obtain ⟨outcome, e₁, hrun, hidle, hlead, hstored⟩ := h.firstUse ht hfirst
    unfold Trail.after at hrest
    rw [hrun] at hrest
    have hnames₁ : ∀ b ∈ names, ∃ t₁, e₁.find? b = some t₁ := fun b hb => by
      obtain ⟨t', ht'⟩ := hnames b hb
      obtain ⟨t₁, ht₁, -⟩ := hlead.exists_find? ht'
      exact ⟨t₁, ht₁⟩
    obtain ⟨e₂, hrun₂, hidle₂, hlead₂, hstored₂⟩ := ih hidle hnames₁ hrest
    -- what is stored of a type by now is never changed by the types that follow
    have hkept := hlead₂.progress.outcome hstored
    refine ⟨e₂, ?_, hidle₂, hlead.trans hlead₂, List.forall_mem_cons.2 ⟨⟨outcome, hkept⟩, hstored₂⟩⟩
    unfold EngineM.firstUses
    rw [runFrom_bind_ok hrun, runFrom_bind_ok hrun₂, List.filterMap_cons, fatal?_of_outcome hkept]
    cases outcome <;> rfl

theorem exists_find? (h : e.Idle) : ∀ name ∈ e.handles.map Handle.name,
    ∃ t, e.find? name = some t := by
  intro name hname
  rw [handles_names, List.map_map] at hname
  obtain ⟨t, ht, rfl⟩ := List.mem_map.1 hname
  exact ⟨t, find?_of_mem h.sound.distinct ht⟩

/-- Every declared type is used. -/
theorem ensureAll (h : e.Idle)
    (hcalm : ∀ m ∈ Trail.firstUses .report (e.handles.map Handle.name) e, m.raised? = none) :
    ∃ e₁, runFrom (EngineM.ensureAll .report) e = (.ok (e₁.types.filterMap TypeEntry.fatal?), e₁) ∧
      e₁.Idle ∧ e.Leads e₁ ∧ ∀ t ∈ e₁.types, ∃ outcome, t.slot = .settled outcome := by
  obtain ⟨e₁, hrun, hidle, hlead, hstored⟩ := h.firstUses h.exists_find? hcalm
  have hhandles : e.handles.map Handle.name = e₁.handles.map Handle.name := by
    rw [handles_names, handles_names, hlead.map_definition]
  rw [hhandles] at hrun hstored
  refine ⟨e₁, ?_, hidle, hlead, fun t ht => ?_⟩
  · unfold EngineM.ensureAll
    rw [runFrom_bind_ok (runFrom_get e), hhandles, hrun, filterMap_fatal? hidle.sound]
  · have hname : t.definition.name ∈ e₁.handles.map Handle.name := by
      rw [handles_names]
      exact List.mem_map_of_mem (List.mem_map_of_mem ht)
    obtain ⟨outcome, houtcome⟩ := hstored _ hname
    obtain ⟨t', ht', hslot⟩ := outcome_eq_some.1 houtcome
    rw [find?_of_mem hidle.sound.distinct ht] at ht'
    cases ht'
    exact ⟨outcome, hslot⟩

end Idle

namespace AtRest

theorem toIdle (h : e.AtRest) : e.Idle := ⟨h.calm.sound, h.idle⟩

theorem of_leads (h : e.AtRest) (hidle : e₁.Idle) (hlead : e.Leads e₁) : e₁.AtRest := by
  obtain ⟨hsound, -, hhooks⟩ := h.calm.of_leads hidle.sound hlead
  exact ⟨⟨hsound, Nat.le_refl _, hhooks⟩, hidle.spans⟩

theorem compose (h : e.AtRest) (ht : e.find? name = some t) :
    ∃ outcome e₁, runFrom (EngineM.compose name) e = (.ok outcome, e₁) ∧ e₁.AtRest ∧ e.Leads e₁ ∧
      e₁.outcome name = .ok (some outcome) := by
  have hcalm := raised?_of_calm e.vacantTypes name e h.calm trivial
  obtain ⟨outcome, e₁, hrun, hidle, hlead, hstored⟩ := h.toIdle.compose ht hcalm
  exact ⟨outcome, e₁, hrun, h.of_leads hidle hlead, hlead, hstored⟩

/-- No panic is raised while types are used in turn. -/
theorem raised?_of_mem {names : List String} (h : e.AtRest)
    (hnames : ∀ name ∈ names, ∃ t, e.find? name = some t) :
    ∀ m ∈ Trail.firstUses .report names e, m.raised? = none := by
  induction names generalizing e with
  | nil => exact List.forall_mem_nil _
  | cons name names ih =>
    obtain ⟨⟨t, ht⟩, hnames⟩ := List.forall_mem_cons.1 hnames
    have hcalm := raised?_of_calm e.vacantTypes name e h.calm trivial
    refine List.forall_mem_cons.2 ⟨rfl, List.forall_mem_append.2 ⟨hcalm, ?_⟩⟩
    obtain ⟨outcome, e₁, hrun, hidle, hlead, -⟩ := h.toIdle.firstUse ht hcalm
    unfold Trail.after
    rw [hrun]
    refine ih (h.of_leads hidle hlead) fun b hb => ?_
    obtain ⟨t', ht'⟩ := hnames b hb
    obtain ⟨t₁, ht₁, -⟩ := hlead.exists_find? ht'
    exact ⟨t₁, ht₁⟩

theorem ensureAll (h : e.AtRest) :
    ∃ e₁, runFrom (EngineM.ensureAll .report) e = (.ok (e₁.types.filterMap TypeEntry.fatal?), e₁) ∧
      e₁.Idle ∧ e.Leads e₁ ∧ ∀ t ∈ e₁.types, ∃ outcome, t.slot = .settled outcome :=
  h.toIdle.ensureAll (h.raised?_of_mem h.toIdle.exists_find?)

end AtRest

/-! ## Types that are settled already -/

/-- The engine with fatal errors logged, one after the other. -/
def logFatals (e : Engine) (fatals : List FatalError) : Engine :=
  { e with log := e.log ++ fatals.map fun f => ⟨.compositionFatal f.typeName f.cause, e.spans⟩ }

/-- A settled type is used without a merge: its error is logged, and nothing else changes. -/
theorem runFrom_firstUse_of_outcome {outcome : Outcome}
    (h : e.outcome name = .ok (some outcome)) :
    runFrom (EngineM.firstUse .report name) e =
      (.ok (outcome.mapError (FatalError.mk name)), e.logFatals (e.fatal? name).toList) := by
  obtain ⟨t, ht, hslot⟩ := outcome_eq_some.1 h
  have hanswer : e.answer? name = some outcome := by
    unfold answer?
    rw [ht]
    simp only [hslot]
  have hcompose : runFrom (EngineM.compose name) e = (.ok outcome, e) :=
    runFrom_composeWithin_of_answer hanswer e.vacantTypes
  rw [runFrom_firstUse, hcompose, fatal?_of_outcome h]
  cases outcome with
  | ok table =>
    show _ = (_, { e with log := e.log ++ [] })
    rw [List.append_nil]
    rfl
  | error cause => rfl

/-- Types that are settled already are used in turn without a merge. -/
theorem runFrom_firstUses_of_outcome {names : List String}
    (h : ∀ name ∈ names, ∃ outcome, e.outcome name = .ok (some outcome)) :
    runFrom (EngineM.firstUses .report names) e =
      (.ok (names.filterMap e.fatal?), e.logFatals (names.filterMap e.fatal?)) := by
  induction names generalizing e with
  | nil =>
    show _ = (_, { e with log := e.log ++ [] })
    rw [List.append_nil]
    rfl
  | cons name names ih =>
    obtain ⟨⟨outcome, houtcome⟩, hrest⟩ := List.forall_mem_cons.1 h
    have hfatals : (e.logFatals (e.fatal? name).toList).logFatals (names.filterMap e.fatal?) =
        e.logFatals ((name :: names).filterMap e.fatal?) := by
      unfold logFatals
      rw [List.filterMap_cons]
      cases e.fatal? name <;> simp
    unfold EngineM.firstUses
    rw [runFrom_bind_ok (runFrom_firstUse_of_outcome houtcome),
      runFrom_bind_ok (ih (e := e.logFatals (e.fatal? name).toList) hrest), runFrom_pure]
    show (_, (e.logFatals _).logFatals (names.filterMap e.fatal?)) = _
    rw [hfatals, List.filterMap_cons, fatal?_of_outcome houtcome]
    cases outcome <;> rfl

/-! ## Sweeps -/

/-- What using all types comes to. Each of them is composed or has failed, and has been merged once;
those that were settled before are as they were. The fatal errors are what is stored of the types
that have failed. -/
structure Swept (e : Engine) (fatals : List FatalError) (e' : Engine) : Prop where
  types : e.types.Forall₂ (fun t t' => t'.definition = t.definition ∧
    (t'.slot.state = .composed ∨ t'.slot.state = .failed) ∧
    ∀ outcome, t.slot = .settled outcome →
      t' = t ∧ e'.starts t.definition.name = e.starts t.definition.name) e'.types
  fatals_eq : fatals = e'.types.filterMap TypeEntry.fatal?
  once : ∀ t' ∈ e'.types, e'.starts t'.definition.name = 1
  lasting : ∀ f ∈ fatals, ∀ typeName, f.cause ≠ .reentrantComposition typeName

theorem starts_of_settled (hs : e.Sound) (ht : t ∈ e.types) {outcome : Outcome}
    (hslot : t.slot = .settled outcome) : e.starts t.definition.name = 1 := by
  rw [hs.started, slotOf_of_find? (find?_of_mem hs.distinct ht), hslot]
  rfl

/-- A type that is settled is composed or has failed. -/
theorem state_of_settled {outcome : Outcome} (hslot : t.slot = .settled outcome) :
    t.slot.state = .composed ∨ t.slot.state = .failed := by
  rw [hslot]
  cases outcome with
  | ok table => exact .inl rfl
  | error error => exact .inr rfl

/-- No error that is stored is one of a type that re-enters its own composition. -/
theorem ne_reentrantComposition_of_fatal? {f : FatalError} (hs : e.Sound) (ht : t ∈ e.types)
    (hf : t.fatal? = some f) (typeName : String) : f.cause ≠ .reentrantComposition typeName := by
  have hagrees := agrees_of_sound hs (find?_of_mem hs.distinct ht)
  intro hcause
  refine hagrees.notReentrant typeName ?_
  rw [TypeEntry.slot_of_fatal? hf, hcause]
  rfl

/-- All types are used, and then all are used again. -/
theorem Idle.swept (h : e.Idle)
    (hcalm : ∀ m ∈ Trail.firstUses .report (e.handles.map Handle.name) e, m.raised? = none) :
    ∃ fatals e₁, runFrom (EngineM.ensureAll .report) e = (.ok fatals, e₁) ∧ e.Swept fatals e₁ ∧
      runFrom (EngineM.ensureAll .report) e₁ = (.ok fatals, e₁.logFatals fatals) := by
  obtain ⟨e₁, hrun, hidle, hlead, hsettled⟩ := h.ensureAll hcalm
  have hstarts : ∀ t ∈ e₁.types, e₁.starts t.definition.name = 1 := fun t ht =>
    let ⟨_, hslot⟩ := hsettled t ht
    starts_of_settled hidle.sound ht hslot
  refine ⟨_, e₁, hrun, ⟨?_, rfl, hstarts, fun f hf => ?_⟩, ?_⟩
  · refine forall₂_imp_of_mem hlead.types fun t ht t' ht' hlead => ?_
    obtain ⟨outcome', hslot'⟩ := hsettled t' ht'
    refine ⟨hlead.definition, state_of_settled hslot', fun outcome hslot => ?_⟩
    have heq := hlead.eq_of_not_vacant (by rw [hslot]; simp)
    rw [starts_of_settled h.sound ht hslot, ← heq]
    exact ⟨rfl, hstarts t' ht'⟩
  · obtain ⟨t, ht, hfatal⟩ := List.mem_filterMap.1 hf
    exact ne_reentrantComposition_of_fatal? hidle.sound ht hfatal
  · unfold EngineM.ensureAll
    rw [runFrom_bind_ok (runFrom_get e₁), runFrom_firstUses_of_outcome,
      filterMap_fatal? hidle.sound]
    intro name hname
    obtain ⟨t, ht⟩ := hidle.exists_find? name hname
    obtain ⟨outcome, hslot⟩ := hsettled t (mem_of_find? ht)
    exact ⟨outcome, outcome_eq_some.2 ⟨t, ht, hslot⟩⟩

end Engine

/-- Between two calls of any run, over a registry that may have served others before, all types are
used under the policy `report`, and no hook panics meanwhile (none does that cannot panic, by
`Engine.AtRest.raised?_of_mem`). Then each type is composed or has failed in the end, those that
were settled before have not been merged again, and the fatal errors are the stored ones in the
order of declaration. To use them all again gives the same errors, and does nothing but log them: no
merge starts and no outcome changes. -/
theorem swept_of_history {b : RegistryBuilder} {reg : Registry} {config : Config}
    {rs : List Request} {m : Moment} (hreg : Registry.Used b reg)
    (hm : m ∈ history (Engine.new reg config) rs) (hidle : m.hook = none)
    (hcalm : ∀ m' ∈ (Request.ensureAll .report).trail m.engine, m'.raised? = none) :
    ∃ fatals e, runFrom (EngineM.ensureAll .report) m.engine = (.ok fatals, e) ∧
      m.engine.Swept fatals e ∧
      runFrom (EngineM.ensureAll .report) e = (.ok fatals, { e with
        log := e.log ++ fatals.map fun f => ⟨.compositionFatal f.typeName f.cause, e.spans⟩ }) := by
  have hchronicle := chronicle_history rs (Engine.sound_new_of_sound hreg.serves.sound config)
  have hengine : m.engine.Idle :=
    ⟨(hchronicle.moments m hm).1.engine, hchronicle.idle m hm hidle⟩
  exact hengine.swept hcalm

namespace Sample

/-- Types of which each composes the other from its hook. -/
def eager : AdoptingType := adopter "eager" (.compose "late" fun outcome => .answer outcome.isOk)

def late : AdoptingType := adopter "late" (.compose "eager" fun outcome => .answer !outcome.isOk)

/-- A type that adopts a role which nobody has registered. -/
def stray : AdoptingType := (AdoptingType.named "stray").adopts ⟨"nobody"⟩

end Sample

/-- A type is composed before its turn, within the composition of a type that it asks for in vain,
and one is settled before all types are used. -/
theorem swept_of_history_eager :
    let e := (runFrom (Request.compose "stray").step
      (Sample.declared [Sample.eager, Sample.stray, Sample.late])).2
    ∃ fatals e', runFrom (EngineM.ensureAll .report) e = (.ok fatals, e') ∧ e.Swept fatals e' ∧
      fatals = [⟨"stray", .unknownRole ⟨"nobody"⟩⟩] ∧
      ((Request.ensureAll .report).trail e).map (fun m => m.engine.spans) =
        [[], ["eager"], ["eager", "late"], ["eager", "late"], ["eager"], [], []] ∧
      e'.state "late" = .ok .composed := by
  intro e
  have hm : Moment.between e ∈ history (Engine.new Sample.roles.freeze {})
      [.declare Sample.eager, .declare Sample.stray, .declare Sample.late, .compose "stray"] := by
    refine mem_history_cons (r := .declare Sample.eager) (by decide +kernel) ?_
    refine mem_history_cons (r := .declare Sample.stray) (by decide +kernel) ?_
    refine mem_history_cons (r := .declare Sample.late) (by decide +kernel) ?_
    exact mem_history_cons (r := .compose "stray") (by decide +kernel) List.mem_cons_self
  have hcalm : ∀ m' ∈ (Request.ensureAll .report).trail e, m'.raised? = none := by decide +kernel
  obtain ⟨fatals, e', hrun, hswept, -⟩ := swept_of_history .frozen hm rfl hcalm
  have hends : (runFrom (EngineM.ensureAll .report) e).1 =
        .ok [⟨"stray", .unknownRole ⟨"nobody"⟩⟩] ∧
      (runFrom (EngineM.ensureAll .report) e).2.state "late" = .ok .composed := by
    decide +kernel
  rw [show runFrom (EngineM.ensureAll .report) e = _ from hrun] at hends
  exact ⟨fatals, e', hrun, hswept, Except.ok.inj hends.1, by decide +kernel, hends.2⟩

end RoleComposition
