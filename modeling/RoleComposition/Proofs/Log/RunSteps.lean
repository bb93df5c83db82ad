import RoleComposition.Proofs.Log.TypeEvents
import RoleComposition.Proofs.Closures

/-!
# Following the log through a run

A property that can be told along merges holds at every moment of a run. The induction on the depth
is over all such properties at once, since it has to be known of a composition within a merge that
it says nothing in the name of types whose merges have begun, and this is such a property itself.
Main statements: `Engine.Over.told` and `told_of_seen`.
-/

namespace RoleComposition

variable {reg : Registry} {config : Config} {M M' : List Question → Engine → Prop}
  {N N' : AdoptingType → List Question → Engine → Prop} {past past' : List Question}
  {e e' : Engine}

/-- Two properties can be told together. -/
theorem Telling.and (h : Telling reg config M N) (h' : Telling reg config M' N') :
    Telling reg config (fun past e => M past e ∧ M' past e)
      (fun t past e => N t past e ∧ N' t past e) where
  enters := fun hM hover ht hv => ⟨h.enters hM.1 hover ht hv, h'.enters hM.2 hover ht hv⟩
  fills := fun hN hfill => ⟨h.fills hN.1 hfill, h'.fills hN.2 hfill⟩
  asks := fun hN hwithin => ⟨h.asks hN.1 hwithin, h'.asks hN.2 hwithin⟩
  notes := fun hN => ⟨h.notes hN.1, h'.notes hN.2⟩
  pauses := fun hN hwithin hcut => ⟨h.pauses hN.1 hwithin hcut, h'.pauses hN.2 hwithin hcut⟩
  resumes := fun hN hM hwithin => ⟨h.resumes hN.1 hM.1 hwithin, h'.resumes hN.2 hM.2 hwithin⟩
  rejects := fun hN hwithin => ⟨h.rejects hN.1 hwithin, h'.rejects hN.2 hwithin⟩
  conflicts := fun hN hwithin => ⟨h.conflicts hN.1 hwithin, h'.conflicts hN.2 hwithin⟩
  concludes := fun hN hwithin hcheck =>
    ⟨h.concludes hN.1 hwithin hcheck, h'.concludes hN.2 hwithin hcheck⟩
  refuses := fun hN hwithin hcheck =>
    ⟨h.refuses hN.1 hwithin hcheck, h'.refuses hN.2 hwithin hcheck⟩
  unwinds := fun hN hwithin hcut => ⟨h.unwinds hN.1 hwithin hcut, h'.unwinds hN.2 hwithin hcut⟩
  declares := fun hM hnew => ⟨h.declares hM.1 hnew, h'.declares hM.2 hnew⟩
  gathers := fun hM hfill => ⟨h.gathers hM.1 hfill, h'.gathers hM.2 hfill⟩
  remarks := fun hM hnone => ⟨h.remarks hM.1 hnone, h'.remarks hM.2 hnone⟩

/-! ## Types that have been started -/

/-- A type has been started, and this is what has been logged, asked and rejected in its name. -/
structure Spared (b : String) (entries : List LogEntry) (asked rejected past : List Question)
    (e : Engine) : Prop where
  started : e.slotOf b ≠ .vacant
  entries : e.entriesOf b = entries
  questions : e.questionsOf b = asked
  rejected : about b past = rejected

section Spared

variable {b : String} {entries : List LogEntry} {asked rejected : List Question}

theorem Spared.elsewhere {name : String} (h : Spared b entries asked rejected past e)
    (hb : name ≠ b) (helse : Elsewhere name past e past' e') :
    Spared b entries asked rejected past' e' where
  started := by
    rw [helse.slotOf hb.symm]
    exact h.started
  entries := (helse.entries b hb.symm).trans h.entries
  questions := (helse.questions b hb.symm).trans h.questions
  rejected := (helse.rejected b hb.symm).trans h.rejected

/-- No further merge says anything in the name of a type that has been started. -/
theorem telling_spared (reg : Registry) (config : Config) (b : String) (entries : List LogEntry)
    (asked rejected : List Question) :
    Telling reg config (Spared b entries asked rejected)
      (fun t past e => t.name ≠ b ∧ Spared b entries asked rejected past e) where
  enters := fun {past e name t} hM _ ht hv => by
    have hne : t.definition.name ≠ b := by
      rintro rfl
      refine hM.started ?_
      rw [Engine.name_of_find? ht, Engine.slotOf_of_find? ht, hv]
    exact ⟨hne, hM.elsewhere hne (.enter _ _ _)⟩
  fills := fun hN _ => ⟨hN.1, ⟨hN.2.started, hN.2.entries, hN.2.questions, hN.2.rejected⟩⟩
  asks := fun hN _ => ⟨hN.1, hN.2.elsewhere hN.1 (.ask _ _ ⟨_, _, _, _⟩)⟩
  notes := fun hN => ⟨hN.1, ⟨hN.2.started, hN.2.entries, hN.2.questions, hN.2.rejected⟩⟩
  pauses := fun hN _ _ => hN.2
  resumes := fun hN hM _ => ⟨hN.1, hM⟩
  rejects := fun hN _ => ⟨hN.1, hN.2.elsewhere hN.1 (.logged rfl (by simp))⟩
  conflicts := fun hN _ => ⟨hN.1, hN.2.elsewhere hN.1 (.conflict _ _ _ _ _)⟩
  concludes := fun {t outer past e} hN _ _ => by
    have hcounted (tally : Tally) : Spared b entries asked rejected past (e.countTally tally) :=
      ⟨hN.2.started, hN.2.entries, hN.2.questions, hN.2.rejected⟩
    exact (hcounted _).elsewhere hN.1 (.leave _ _ _ _)
  refuses := fun hN _ _ => hN.2.elsewhere hN.1 (.leave _ _ _ _)
  unwinds := fun hN _ _ => hN.2.elsewhere hN.1 (.unwind _ _ _ _)
  declares := fun {past e t} hM _ => by
    refine ⟨?_, hM.entries, hM.questions, hM.rejected⟩
    rw [Engine.slotOf_adding]
    exact hM.started
  gathers := fun hM _ => ⟨hM.started, hM.entries, hM.questions, hM.rejected⟩
  remarks := fun {past e event} hM hnone => by
    refine ⟨hM.started, ?_, hM.questions, hM.rejected⟩
    rw [Engine.entriesOf_logged_of_ne (by simp [hnone])]
    exact hM.entries

end Spared

namespace Reported

variable {α : Type} {run : Except Halt α × Engine} {l l₀ : List Moment}

/-- A part without a moment on the way. -/
theorem stay (h : M past e) (hrun : run.2 = e) : Reported M past [] run := by
  refine ⟨trivial, ?_⟩
  rw [hrun, show rejections [] = [] from rfl, List.append_nil]
  exact h

theorem append (h₀ : Throughout M past l₀) (h : Reported M (past ++ rejections l₀) l run) :
    Reported M past (l₀ ++ l) run := by
  refine ⟨h₀.append h.moments, ?_⟩
  rw [rejections_append, ← List.append_assoc]
  exact h.ended

theorem cons {m : Moment} (hm : M past m.engine) (hnone : m.rejected? = none)
    (h : Reported M past l run) : Reported M past (m :: l) run := by
  have hsingle : rejections [m] = [] := by simp [rejections, hnone]
  have hfirst : Throughout M past [m] := ⟨hm, trivial⟩
  refine append hfirst ?_
  rwa [hsingle, List.append_nil]

end Reported

/-! ## Compositions -/

section Compositions

variable {depth : Nat} {name : String} {t : TypeEntry}

/-- The end of a merge that has passed the checks: its tally is what the rule comes to. -/
theorem told_conclude (h : Telling reg config M N) {t : AdoptingType} {outer : List String}
    {rs : List Ruling} (hcheck : reg.check config t = .ok ())
    (hoffers : rs.map Ruling.offer = (reg.offersTo t).toList)
    (hwithin : Within reg config t outer (rs.flatMap (Ruling.events t.name)) past e)
    (hN : N t past e) :
    M past ((e.countTally (rs.foldl Tally.take (Tally.ofOwn t))).leave t.name
      (t.outcomeOfTally (rs.foldl Tally.take (Tally.ofOwn t)))) := by
  have hrule := Registry.eq_map_byRule_of_offers hcheck hoffers hwithin.rejected
  have htally : rs.foldl Tally.take (Tally.ofOwn t) =
      t.tally (ruleOf past t.name) (reg.offersTo t) := by
    rw [hrule, Tally.foldl_take_byRule]
    rfl
  have hminutes : rs.flatMap (Ruling.events t.name) =
      reg.minutes config t (ruleOf past t.name) := by
    unfold Registry.minutes minutesOf
    rw [hcheck, ← hrule]
  rw [htally, ← Registry.outcomeOf_of_check_eq_ok hcheck]
  rw [hminutes] at hwithin
  exact h.concludes hN hwithin hcheck

/-- The merge of a vacant type, if compositions within it are told of. -/
theorem reported_merge (h : Telling reg config M N)
    (hinner : ∀ name e past, e.Over reg config → e.vacantTypes ≤ depth → M past e →
      Reported M past (Trail.compose depth name e)
        (runFrom (EngineM.composeWithin depth name) e))
    (hspares : ∀ name e past, e.Over reg config → e.vacantTypes ≤ depth → M past e →
      Spares e (Trail.compose depth name e) (runFrom (EngineM.composeWithin depth name) e).2)
    (hover : e.Over reg config) (hfresh : Fresh past e) (hM : M past e)
    (ht : e.find? name = some t) (hv : t.slot = .vacant) (hd : e.vacantTypes ≤ depth + 1) :
    Reported M past
      (Trail.mergeTable depth (Trail.compose depth) t.definition (e.enter t.definition))
      (Engine.afterMerge name (runFrom
        (EngineM.mergeTable (EngineM.composeWithin depth) t.definition).run
        (e.enter t.definition))) := by
  have hname := Engine.name_of_find? ht
  subst hname
  have hroom := Engine.vacantTypes_enter ht hv
  have hwithin := Within.of_enter hover hfresh ht hv
  have hN := h.enters hM hover ht hv
  obtain ⟨reg', hfill, hgather, hrun⟩ := runFrom_mergeTable (EngineM.composeWithin depth)
    t.definition hwithin.upon.sound.registry
  have hchecks : (e.enter t.definition).registry.check (e.enter t.definition).config
      t.definition = reg.check config t.definition := by
    rw [Registry.check_congr hwithin.upon.definitions, hwithin.upon.config]
  rw [hchecks, Registry.offersTo_congr hwithin.upon.definitions] at hgather hrun
  have hwithin₁ := hwithin.of_fills hfill
  have hN₁ := h.fills hN hfill
  unfold Trail.mergeTable Trail.after
  rw [hgather, hrun]
  cases hcheck : reg.check config t.definition with
  | error error =>
    exact Reported.stay (h.refuses hN₁ hwithin₁ hcheck) rfl
  | ok _ =>
    have hd₁ : { e.enter t.definition with registry := reg' : Engine }.vacantTypes ≤ depth :=
      Nat.le_of_lt_succ (Nat.lt_of_lt_of_le hroom hd)
    have htold := told_settleOffers h hinner hspares (reg.offersTo t.definition).toList
      (Tally.ofOwn t.definition)
      (fun hveto rs s answers c rest after hoffers past hrejected =>
        Registry.cut_of_rulings hcheck hveto hoffers hrejected) hwithin₁ hN₁ hd₁
    have hpass := passage_settleOffers (passage_composeWithin depth) t.definition
      (reg.offersTo t.definition).toList (Tally.ofOwn t.definition) hwithin₁.upon.sound hd₁
    show Reported M past (Trail.settleOffers depth (Trail.compose depth) t.definition
      (reg.offersTo t.definition).toList (Tally.ofOwn t.definition) _) _
    refine ⟨htold.moments, ?_⟩
    rw [runFrom_bind]
    unfold EngineM.settleAll
    rcases hend : runFrom ((reg.offersTo t.definition).toList.foldlM
      (EngineM.settleSignature (EngineM.composeWithin depth) t.definition)
      (Tally.ofOwn t.definition)) _ with ⟨(payload | _) | tally, e₂⟩
    · obtain ⟨events, hcut, hwithin₂, hN₂⟩ := htold.halted _ e₂ hend
      exact h.unwinds hN₂ hwithin₂ (hcut _ hwithin₂.rejected)
    · rw [hend] at hpass
      exact absurd rfl hpass.goesOn
    · obtain ⟨added, ⟨rs, hoffers, rfl, rfl⟩, hwithin₂, hN₂⟩ := htold.ended tally e₂ hend
      exact told_conclude h hcheck hoffers hwithin₂ hN₂

/-- A property that can be told holds at each moment of a composition, and at its end. -/
theorem reported_composeWithin (depth : Nat) (h : Telling reg config M N)
    (hfresh : ∀ {past e}, M past e → Fresh past e) (name : String) (e : Engine)
    (past : List Question) (hover : e.Over reg config) (hd : e.vacantTypes ≤ depth)
    (hM : M past e) :
    Reported M past (Trail.compose depth name e)
      (runFrom (EngineM.composeWithin depth name) e) := by
  induction depth generalizing M N name e past with
  | zero =>
    cases hanswer : e.answer? name with
    | some outcome =>
      rw [trail_compose_of_answer hanswer, runFrom_composeWithin_of_answer hanswer]
      exact Reported.stay hM rfl
    | none =>
      obtain ⟨t, ht, hv⟩ := answer?_eq_none.1 hanswer
      have hpos := Engine.vacantTypes_pos ht hv
      omega
  | succ depth ih =>
    cases hanswer : e.answer? name with
    | some outcome =>
      rw [trail_compose_of_answer hanswer, runFrom_composeWithin_of_answer hanswer]
      exact Reported.stay hM rfl
    | none =>
      obtain ⟨t, ht, hv⟩ := answer?_eq_none.1 hanswer
      have hroom := Engine.vacantTypes_enter ht hv
      have hspans := (passage_mergeTable (passage_composeWithin depth) t.definition
        (hover.sound.enter ht hv) (by omega)).spans
      rw [show (e.enter t.definition).spans = e.spans ++ [t.definition.name] from rfl,
        Engine.name_of_find? ht] at hspans
      rw [trail_compose ht hv, runFrom_composeWithin ht hv hspans]
      refine reported_merge h (fun name e past => ih h hfresh name e past) ?_ hover (hfresh hM) hM
        ht hv hd
      -- what a composition within the merge spares is a property that can be told, too
      intro name e past hover hd hM
      have hreport (b : String) (hb : e.slotOf b ≠ .vacant) :=
        ih (h.and (telling_spared reg config b (e.entriesOf b) (e.questionsOf b) (about b past)))
          (fun hM => hfresh hM.1) name e past hover hd ⟨hM, ⟨hb, rfl, rfl, rfl⟩⟩
      refine ⟨fun b hb => (hreport b hb).ended.2.entries,
        fun b hb => (hreport b hb).ended.2.questions, fun b hb => ?_⟩
      have hrejected := (hreport b hb).ended.2.rejected
      rw [about_append] at hrejected
      exact List.append_cancel_left (hrejected.trans (List.append_nil _).symm)

end Compositions

/-! ## Runs -/

/-- The engine that a run of calls leaves, also when an abort ends it. -/
def Engine.runThrough (e : Engine) : List Request → Engine
  | [] => e
  | r :: rest =>
    match runFrom r.step e with
    | (.error .abort, e') => e'
    | (_, e') => e'.runThrough rest

/-- An engine as it is at a moment of a run or at its end, with what has been rejected so far. -/
def Seen (e₀ : Engine) (rs : List Request) (past : List Question) (e : Engine) : Prop :=
  (∃ before m after, history e₀ rs = before ++ m :: after ∧ past = rejections before ∧
    e = m.engine) ∨
  past = rejections (history e₀ rs) ∧ e = e₀.runThrough rs

theorem Engine.Over.of_course {l : List Moment} (hover : e.Over reg config) (hc : Course e l e') :
    e'.Over reg config :=
  ⟨hc.sound, hc.progress.definitions.trans hover.definitions,
    hc.progress.config.trans hover.config⟩

/-- A run leaves a sound engine. -/
theorem sound_runThrough (rs : List Request) (hs : e.Sound) : (e.runThrough rs).Sound := by
  induction rs generalizing e with
  | nil => exact hs
  | cons r rs ih =>
    have hcourse := course_step r hs
    unfold Engine.runThrough
    rcases hrun : runFrom r.step e with ⟨(payload | _) | _, e₁⟩
    all_goals rw [hrun] at hcourse
    · exact ih hcourse.sound
    · exact hcourse.sound
    · exact ih hcourse.sound

section Runs

variable (h : Telling reg config M N) (hfresh : ∀ {past e}, M past e → Fresh past e)

include h hfresh

theorem reported_compose (hover : e.Over reg config) (hM : M past e) (name : String) :
    Reported M past (Trail.compose e.vacantTypes name e) (runFrom (EngineM.compose name) e) :=
  reported_composeWithin e.vacantTypes h hfresh name e past hover (Nat.le_refl _) hM

theorem reported_firstUse (hover : e.Over reg config) (hM : M past e) (policy : FailurePolicy)
    (name : String) :
    Reported M past (Trail.compose e.vacantTypes name e)
      (runFrom (EngineM.firstUse policy name) e) := by
  have hreport := reported_compose h hfresh hover hM name
  rw [runFrom_firstUse]
  generalize runFrom (EngineM.compose name) e = run at hreport ⊢
  rcases run with ⟨halt | cause | table, e₁⟩
  · exact ⟨hreport.moments, hreport.ended⟩
  · exact ⟨hreport.moments, h.remarks hreport.ended rfl⟩
  · exact ⟨hreport.moments, hreport.ended⟩

theorem reported_firstUses (policy : FailurePolicy) (names : List String)
    (hover : e.Over reg config) (hM : M past e) :
    Reported M past (Trail.firstUses policy names e)
      (runFrom (EngineM.firstUses policy names) e) := by
  induction names generalizing e past with
  | nil => exact Reported.stay hM rfl
  | cons name names ih =>
    have hreport := reported_firstUse h hfresh hover hM policy name
    have hcourse := course_firstUse hover.sound policy name
    unfold Trail.firstUses EngineM.firstUses Trail.after
    rw [runFrom_bind]
    rcases hrun : runFrom (EngineM.firstUse policy name) e with ⟨halt | used, e₁⟩
    · rw [hrun] at hreport
      refine Reported.cons hM rfl ?_
      rw [List.append_nil]
      exact ⟨hreport.moments, hreport.ended⟩
    · rw [hrun] at hreport hcourse
      have hrest := ih (hover.of_course hcourse) hreport.ended
      refine Reported.cons hM rfl (Reported.append hreport.moments ?_)
      dsimp only
      rw [runFrom_bind]
      rcases hrun₁ : runFrom (EngineM.firstUses policy names) e₁ with ⟨halt | fatals, e₂⟩
      · rw [hrun₁] at hrest
        exact ⟨hrest.moments, hrest.ended⟩
      · rw [hrun₁] at hrest
        exact ⟨hrest.moments, hrest.ended⟩

/-- A property that can be told holds at each moment of a call, and at its end. -/
theorem reported_step (hover : e.Over reg config) (hM : M past e) (r : Request) :
    Reported M past (r.trail e) (runFrom r.step e) := by
  cases r with
  | declare t =>
    unfold Request.step Engine.declare
    rw [runFrom_modify]
    by_cases hsome : (e.find? t.name).isSome = true
    · rw [if_pos hsome]
      exact Reported.stay hM rfl
    · rw [if_neg hsome]
      exact Reported.stay (h.declares hM (by simpa using hsome)) rfl
  | compose name =>
    unfold Request.step
    rw [runFrom_discard]
    have hreport := reported_compose h hfresh hover hM name
    exact ⟨hreport.moments, hreport.ended⟩
  | firstUse policy name =>
    unfold Request.step
    rw [runFrom_discard]
    have hreport := reported_firstUse h hfresh hover hM policy name
    exact ⟨hreport.moments, hreport.ended⟩
  | ensureAll policy =>
    unfold Request.step
    rw [runFrom_discard]
    have hreport := reported_firstUses h hfresh policy (e.handles.map Handle.name) hover hM
    exact ⟨hreport.moments, hreport.ended⟩
  | closure role =>
    obtain ⟨reg', hrun, hfill⟩ := Registry.runFrom_closure hover.sound.registry role
    have hend : (runFrom (Request.closure role).step e).2 = { e with registry := reg' } := by
      unfold Request.step
      rw [runFrom_discard]
      show { e with registry := (runFrom (Registry.closure role) e.registry).2 } = _
      rw [hrun]
    exact Reported.stay (h.gathers hM hfill) hend
  | state name => exact Reported.stay hM rfl
  | outcome name => exact Reported.stay hM rfl
  | effectiveMethods name => exact Reported.stay hM rfl
  | report name => exact Reported.stay hM rfl
  | dispatch depth name s receiver args => exact Reported.stay hM rfl

/-- A property that can be told holds at each moment of a run, and at its end. -/
theorem reported_history (rs : List Request) (hover : e.Over reg config) (hM : M past e) :
    Reported M past (history e rs) ((.ok (), e.runThrough rs) : Except Halt Unit × Engine) := by
  induction rs generalizing e past with
  | nil => exact Reported.cons hM rfl (Reported.stay hM rfl)
  | cons r rs ih =>
    have hreport := reported_step h hfresh hover hM r
    have hcourse := course_step r hover.sound
    unfold history Engine.runThrough
    refine Reported.cons hM rfl ?_
    -- only an abort leaves no moments after the call
    rcases hrun : runFrom r.step e with ⟨(payload | _) | _, e₁⟩
    all_goals rw [hrun] at hreport hcourse
    · exact Reported.append hreport.moments (ih (hover.of_course hcourse) hreport.ended)
    · exact Reported.append hreport.moments (Reported.stay hreport.ended rfl)
    · exact Reported.append hreport.moments (ih (hover.of_course hcourse) hreport.ended)

end Runs

/-- A property that can be told and holds of an engine without types holds at each moment of a run
of it and at its end, and so do the blocks of all types. -/
theorem Engine.Over.told {reg' : Registry} {rs : List Request}
    (hover : (Engine.new reg' config).Over reg config) (h : Telling reg config M N)
    (hM : M [] (Engine.new reg' config)) (hseen : Seen (Engine.new reg' config) rs past e) :
    e.Sound ∧ Blocks reg config past e ∧ M past e := by
  have hblocks : Blocks reg config [] (Engine.new reg' config) := fun _ => ⟨rfl, rfl⟩
  have htold := (telling_blocks reg config).and h
  obtain ⟨hthroughout, hend⟩ :=
    reported_history htold (fun hM => hM.1.fresh) rs hover ⟨hblocks, hM⟩
  rcases hseen with ⟨before, m, after, hsplit, rfl, rfl⟩ | ⟨rfl, rfl⟩
  · have hm : m ∈ history (Engine.new reg' config) rs := by simp [hsplit]
    exact ⟨((chronicle_history rs hover.sound).moments m hm).1.engine,
      hthroughout.at_split hsplit⟩
  · exact ⟨sound_runThrough rs hover.sound, hend⟩

theorem Engine.over_new (b : RegistryBuilder) (config : Config) :
    (Engine.new b.freeze config).Over b.freeze config :=
  ⟨sound_new b config, rfl, rfl⟩

/-- So it is over a registry that has just been frozen. -/
theorem told_of_seen {b : RegistryBuilder} {rs : List Request}
    (h : Telling b.freeze config M N) (hM : M [] (Engine.new b.freeze config))
    (hseen : Seen (Engine.new b.freeze config) rs past e) :
    e.Sound ∧ Blocks b.freeze config past e ∧ M past e :=
  (Engine.over_new b config).told h hM hseen

section Over

variable {b : RegistryBuilder} {reg reg' : Registry} {config : Config} {rs : List Request}
  {m : Moment}

/-- So it is over a registry that has served others before. -/
theorem Registry.Used.over (h : Registry.Used b reg) (config : Config) :
    (Engine.new reg config).Over b.freeze config :=
  ⟨Engine.sound_new_of_sound h.serves.sound config, h.serves.definitions, rfl⟩

variable (hover : (Engine.new reg' config).Over reg config)
  (hm : m ∈ history (Engine.new reg' config) rs)

include hover hm

/-- At every moment of a run, the engine is over the definitions that it began with, and the entries
of each name are the block of its type. -/
theorem over_of_mem_history :
    m.Sound ∧ m.engine.Over reg config ∧ ∃ past, Blocks reg config past m.engine := by
  obtain ⟨hs, hp⟩ := (chronicle_history rs hover.sound).moments m hm
  obtain ⟨before, after, hsplit⟩ := List.append_of_mem hm
  have hnew : Blocks reg config [] (Engine.new reg' config) := fun _ => ⟨rfl, rfl⟩
  have hseen : Seen (Engine.new reg' config) rs (rejections before) m.engine :=
    .inl ⟨before, m, after, hsplit, rfl, rfl⟩
  exact ⟨hs, ⟨hs.engine, hp.definitions.trans hover.definitions, hp.config⟩, _,
    (hover.told (telling_blocks reg config) hnew hseen).2.1⟩

/-- Whatever its hook has done, the table of a composed type is the one that some rule decides. -/
theorem exists_fits_of_settled {name : String} {t : TypeEntry} {table : MethodTable}
    (ht : m.engine.find? name = some t) (hslot : t.slot = .settled (.ok table)) :
    ∃ keep, reg.Fits t.definition keep table := by
  obtain ⟨-, -, past, hblocks⟩ := over_of_mem_history hover hm
  have hblock := (BlockOf.iff_of_find? ht).1 (hblocks name)
  rw [hslot] at hblock
  generalize m.engine.entriesOf name = entries at hblock
  cases hblock with
  | decided houtcome => exact ⟨_, Registry.fits_of_outcomeOf houtcome.symm⟩

end Over

namespace Sample

/-- A type over rival roles, the hook of which rejects what it is asked about until it panics. -/
def brittle : AdoptingType :=
  { name := "brittle"
    declaredRoles := [parting.id, staying.id]
    veto := some
      (let ask role := if role = staying.id then .panic .other else .answer false
      ⟨fun role _ => ask role, fun role _ => ask role⟩) }

/-- A type over the same roles that uses the other type, whatever becomes of it, and then rejects
one of the two bodies that are offered for one signature. -/
def wary : AdoptingType :=
  { name := "wary"
    declaredRoles := [parting.id, staying.id]
    veto := some
      (let ask role s := .attempt "brittle" fun _ => .answer (role != parting.id || s != greet)
      ⟨ask, ask⟩) }

/-- A run in which a merge panics within another one. -/
def shattering : List Request := [.declare wary, .declare brittle, .compose "wary"]

/-- What is rejected in it. -/
def shattered : List Question :=
  [⟨"brittle", .onInstance, parting.id, greet⟩, ⟨"brittle", .onInstance, greeting.id, greet⟩,
    ⟨"brittle", .onType, parting.id, part⟩, ⟨"wary", .onInstance, parting.id, greet⟩]

theorem seen_shattering : Seen (Engine.new rivals.freeze {}) shattering shattered
    ((Engine.new rivals.freeze {}).runThrough shattering) :=
  .inr ⟨by decide +kernel, rfl⟩

end Sample

end RoleComposition
