import RoleComposition.Proofs.Runs

/-!
# One shot

A type is composed once. At every moment of a run what there is to see of it agrees, and what a
composition does follows from where the type stands: a settled one answers with what it has stored,
a running one refuses, and a vacant one is settled, however its merge ends. Main statement:
`lifecycle_of_history`.
-/

namespace RoleComposition

/-- What there is to see of a declared type agrees. -/
structure Engine.Agrees (e : Engine) (name : String) (state : CompositionState)
    (outcome : Option Outcome) (methods : Option MethodTable) (report : Report) : Prop where
  state_eq : e.state name = .ok state
  outcome_eq : e.outcome name = .ok outcome
  methods_eq : e.effectiveMethods name = .ok methods
  report_eq : e.report name = .ok report
  methods_isSome : methods.isSome ↔ state = .composed
  composed : state = .composed ↔ ∃ table, outcome = some (.ok table)
  failed : state = .failed ↔ ∃ error, outcome = some (.error error)
  settled : report.settled = state.isTerminal
  notReentrant : ∀ typeName, outcome ≠ some (.error (.reentrantComposition typeName))

/-- What composing a type does, by where it stands. -/
structure Moment.OneShot (m : Moment) (name : String) (slot : Slot MethodTable) : Prop where
  startedOnce : m.engine.starts name ≤ 1
  vacant : slot = .vacant → ∃ outcome e, (m.compose name).2 = e ∧
    e.outcome name = .ok (some outcome) ∧
    ((m.compose name).1 = .ok outcome ∨
      ∃ payload, (m.compose name).1 = .error (.panic payload) ∧
        outcome = .error (.compositionPanicked (.type name) payload.message))
  running : slot = .running → m.compose name = (.ok (.error (.reentrantComposition name)), m.engine)
  settled : ∀ outcome, slot = .settled outcome → m.compose name = (.ok outcome, m.engine)

namespace Engine

variable {e e₁ : Engine} {name : String} {t : TypeEntry}

/-! ## What there is to see -/

theorem outcome_of_find? (ht : e.find? name = some t) :
    e.outcome name = .ok t.slot.outcome? := by
  unfold outcome entry
  rw [ht]
  rfl

theorem outcome_eq_some {outcome : Outcome} :
    e.outcome name = .ok (some outcome) ↔
      ∃ t, e.find? name = some t ∧ t.slot = .settled outcome := by
  unfold Engine.outcome entry
  cases ht : e.find? name with
  | none =>
    constructor
    · intro h
      cases h
    · rintro ⟨t, ht', -⟩
      cases ht'
  | some t => simp [Except.map, Slot.outcome?_eq_some]

/-- The methods of a type come from its outcome. -/
theorem outcome_of_effectiveMethods {table : MethodTable}
    (h : e.effectiveMethods name = .ok (some table)) :
    e.outcome name = .ok (some (.ok table)) := by
  unfold effectiveMethods at h
  rcases houtcome : e.outcome name with error | _ | error | table'
  · rw [houtcome] at h
    cases h
  · rw [houtcome] at h
    cases h
  · rw [houtcome] at h
    cases h
  · rw [houtcome] at h
    cases h
    rfl

theorem Progress.outcome (h : e.Progress e₁) {outcome : Outcome}
    (ho : e.outcome name = .ok (some outcome)) : e₁.outcome name = .ok (some outcome) := by
  obtain ⟨t, ht, hslot⟩ := outcome_eq_some.1 ho
  obtain ⟨t₁, ht₁, -, hlead⟩ := h.types name t ht
  rw [hslot] at hlead
  exact outcome_eq_some.2 ⟨t₁, ht₁, hlead.eq_of_settled⟩

/-- A sound engine shows a declared type as of one piece. -/
theorem agrees_of_sound (hs : e.Sound) (ht : e.find? name = some t) :
    e.Agrees name t.slot.state t.slot.outcome? (t.slot.outcome?.bind Except.toOption) t.report := by
  have hentry : e.entry name = .ok t := by
    unfold entry
    rw [ht]
  have hmarked := hs.marked t (mem_of_find? ht)
  refine ⟨?_, outcome_of_find? ht, ?_, ?_, ?_, ?_, ?_, ?_, fun typeName h => ?_⟩
  · unfold state
    rw [hentry]
    rfl
  · unfold effectiveMethods
    rw [outcome_of_find? ht]
    rfl
  · unfold report
    rw [hentry]
    rfl
  · rcases t.slot with _ | _ | _ | _ <;> simp [Slot.state, Slot.outcome?, Except.toOption]
  · rcases t.slot with _ | _ | _ | _ <;> simp [Slot.state, Slot.outcome?]
  · rcases t.slot with _ | _ | _ | _ <;> simp [Slot.state, Slot.outcome?]
  · rw [← hmarked]
    unfold TypeEntry.report Report.withOutcome Report.pending
    rcases t.slot.outcome? with _ | _ | _ <;> rfl
  -- what is stored is a panic, or an error that a merge can find
  · have hslot := Slot.outcome?_eq_some.1 h
    rcases hs.settles t (mem_of_find? ht) _ hslot with ⟨payload, hpanic⟩ | ⟨hfound, -⟩
    · cases hpanic
    · exact hfound _ rfl

end Engine

/-! ## Composing a vacant type -/

section Vacant

variable {m : Moment} {name : String} {t : TypeEntry}

/-- Composing a vacant type is merging it, and leaving the merge. -/
theorem compose_vacant (hm : m.Sound) (ht : m.engine.find? name = some t) (hv : t.slot = .vacant) :
    ∃ depth, m.depth = depth + 1 ∧
      Passage (m.engine.enter t.definition)
        (Trail.compose m.depth name m.engine)
        (runFrom (EngineM.mergeTable (EngineM.composeWithin depth) t.definition).run
          (m.engine.enter t.definition)) ∧
      m.compose name = Engine.afterMerge name
        (runFrom (EngineM.mergeTable (EngineM.composeWithin depth) t.definition).run
          (m.engine.enter t.definition)) := by
  have hpos := Engine.vacantTypes_pos ht hv
  have hroom := hm.room
  have henter := Engine.vacantTypes_enter ht hv
  obtain ⟨depth, hdepth⟩ : ∃ depth, m.depth = depth + 1 := ⟨m.depth - 1, by omega⟩
  have h := passage_mergeTable (fun name e => passage_composeWithin depth name e) t.definition
    (hm.engine.enter ht hv) (by omega)
  have hspans := h.spans
  rw [show (m.engine.enter t.definition).spans = m.engine.spans ++ [t.definition.name] from rfl,
    Engine.name_of_find? ht] at hspans
  refine ⟨depth, hdepth, ?_, ?_⟩
  · rw [hdepth, trail_compose ht hv]
    exact h
  · unfold Moment.compose
    rw [hdepth]
    exact runFrom_composeWithin ht hv hspans

end Vacant

theorem oneShot_of_sound {m : Moment} {name : String} {t : TypeEntry} (hm : m.Sound)
    (ht : m.engine.find? name = some t) : m.OneShot name t.slot := by
  have hanswer {outcome : Outcome} (h : m.engine.answer? name = some outcome) :
      m.compose name = (.ok outcome, m.engine) :=
    runFrom_composeWithin_of_answer h m.depth
  refine ⟨?_, fun hv => ?_, fun hrunning => hanswer ?_, fun outcome hsettled => hanswer ?_⟩
  · rw [hm.engine.started]
    split_ifs
    · exact Nat.zero_le 1
    · exact Nat.le_refl 1
  · obtain ⟨depth, -, h, hrun⟩ := compose_vacant hm ht hv
    rw [hrun]
    generalize runFrom (EngineM.mergeTable (EngineM.composeWithin depth) t.definition).run
      (m.engine.enter t.definition) = run at h ⊢
    obtain ⟨exit, e₁⟩ := run
    obtain ⟨t₁, ht₁, -⟩ :=
      ((Engine.progress_enter ht hv).trans h.progress).types name t ht
    rcases exit with (payload | _) | outcome
    · refine ⟨_, _, rfl, ?_, .inr ⟨payload, rfl, rfl⟩⟩
      refine Engine.outcome_of_find? (t := { t₁ with
        slot := .settled (.error (Engine.panicError payload name)), settled := true }) ?_
      exact (Engine.find?_unwind e₁ payload name name).trans (by rw [ht₁]; simp)
    · exact absurd rfl h.goesOn
    · refine ⟨outcome, _, rfl, ?_, .inl rfl⟩
      refine Engine.outcome_of_find? (t := { t₁ with slot := .settled outcome, settled := true }) ?_
      exact (Engine.find?_leave e₁ name outcome name).trans (by rw [ht₁]; simp)
  · unfold Engine.answer?
    rw [ht]
    simp only [hrunning]
  · unfold Engine.answer?
    rw [ht]
    simp only [hsettled]

/-- Over every run a type is composed at most once. What there is to see of it agrees at every
moment; its slot only moves from vacant over running to settled; and composing it answers with
what is stored, refuses while it is being composed, and settles it otherwise. -/
theorem lifecycle_of_history (b : RegistryBuilder) (config : Config) (rs : List Request) :
    (∀ m ∈ history (Engine.new b.freeze config) rs, ∀ name t, m.engine.find? name = some t →
      m.OneShot name t.slot ∧ m.engine.Agrees name t.slot.state t.slot.outcome?
        (t.slot.outcome?.bind Except.toOption) t.report) ∧
    (history (Engine.new b.freeze config) rs).Pairwise fun m m' =>
      ∀ name t, m.engine.find? name = some t → ∃ t', m'.engine.find? name = some t' ∧
        t'.definition = t.definition ∧ t.slot.Leads t'.slot ∧
        ∀ outcome, t.slot = .settled outcome → m'.compose name = (.ok outcome, m'.engine) := by
  refine ⟨fun m hm name t ht => ?_, ?_⟩
  · obtain ⟨hs, -⟩ := sound_of_mem_history hm
    exact ⟨oneShot_of_sound hs ht, Engine.agrees_of_sound hs.engine ht⟩
  · have hprogress := List.Pairwise.and_mem.1 (pairwise_progress_history b config rs)
    refine hprogress.imp fun {m m'} h name t ht => ?_
    obtain ⟨-, hm', hp⟩ := h
    obtain ⟨t', ht', hdef, hlead⟩ := hp.types name t ht
    refine ⟨t', ht', hdef, hlead, fun outcome hsettled => ?_⟩
    rw [hsettled] at hlead
    exact (oneShot_of_sound (sound_of_mem_history hm').1 ht').settled outcome hlead.eq_of_settled

/-- A hook that composes its own type is refused, and goes on. -/
example :
    let own := Sample.adopter "own" (.compose "own" fun outcome => .answer !outcome.isOk)
    let e := (runFrom (Request.compose "own").step (Sample.declared [own])).2
    e.state "own" = .ok .composed ∧
      ((Trail.compose 1 "own" (Sample.declared [own])).map fun m => m.engine.state "own") =
        [.ok .composing, .ok .composing] := by
  decide +kernel

end RoleComposition
