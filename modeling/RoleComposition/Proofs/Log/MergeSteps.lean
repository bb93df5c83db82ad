import RoleComposition.Proofs.Log.MergeEvents

/-!
# Following the log through the steps of a merge

A property of the log, or of what is counted, cannot be followed along a composition without knowing
which type is being merged, what it has logged so far, and what has been rejected so far. `Telling`
lists what has to be shown of such a property, step by step, with all this at hand. Main statement:
`told_settleOffers` (what a merge logs follows from the answers of its hook, and the property holds
at every moment of it).
-/

namespace RoleComposition

/-- The question that the hook in control answers with a rejection: the last one that the innermost
type was asked. -/
def Moment.rejected? (m : Moment) : Option Question :=
  match m.hook with
  | some (.answer false) =>
    m.engine.spans.getLast?.bind fun name => (m.engine.questionsOf name).getLast?
  | _ => none

/-- The questions that are answered with a rejection, in order. -/
def rejections (l : List Moment) : List Question := l.filterMap Moment.rejected?

/-- A property of an engine and of what has been rejected so far holds at each of some moments. -/
def Throughout (M : List Question → Engine → Prop) : List Question → List Moment → Prop
  | _, [] => True
  | past, m :: l => M past m.engine ∧ Throughout M (past ++ m.rejected?.toList) l

/-- The entries of a merge, from its start on. -/
def begun (t : AdoptingType) (outer : List String) (events : List Event) : List LogEntry :=
  (.compositionStarted t.name t.declaredRoles.length :: events).map fun event =>
    ⟨event, outer ++ [t.name]⟩

/-- A sound engine over the given definitions. -/
structure Engine.Over (reg : Registry) (config : Config) (e : Engine) : Prop where
  sound : e.Sound
  definitions : e.registry.definitions = reg.definitions
  config : e.config = config

/-- A type is being merged, innermost, and has logged the given events since its start. -/
structure Within (reg : Registry) (config : Config) (t : AdoptingType) (outer : List String)
    (events : List Event) (past : List Question) (e : Engine) : Prop where
  upon : e.Over reg config
  spans : e.spans = outer ++ [t.name]
  entry : ∃ entry, e.find? t.name = some entry ∧ entry.definition = t
  told : e.entriesOf t.name = begun t outer events
  rejected : about t.name past = events.filterMap Event.rejection?

/-- About a type that is vacant nothing has been logged or rejected. -/
def Fresh (past : List Question) (e : Engine) : Prop :=
  ∀ name, e.slotOf name = .vacant → e.entriesOf name = [] ∧ about name past = []

/-- What has to be shown of a property `M` that is to hold whenever an engine can be looked at, and
of a property `N` that is to hold at each step of the merge of a type. -/
structure Telling (reg : Registry) (config : Config) (M : List Question → Engine → Prop)
    (N : AdoptingType → List Question → Engine → Prop) : Prop where
  enters : ∀ {past e name} {t : TypeEntry}, M past e → e.Over reg config →
    e.find? name = some t → t.slot = .vacant → N t.definition past (e.enter t.definition)
  fills : ∀ {t past e reg'}, N t past e → e.registry.Fills reg' →
    N t past { e with registry := reg' }
  asks : ∀ {t outer events past e o} {s : Signature}, N t past e →
    Within reg config t outer events past e →
    N t past { e with questions := e.questions ++ [⟨t.name, s.level, o, s⟩] }
  notes : ∀ {t past e ns}, N t past e → N t past { e with notes := ns }
  pauses : ∀ {t outer events past e}, N t past e → Within reg config t outer events past e →
    reg.Cut config t (ruleOf past t.name) events → M past e
  resumes : ∀ {t outer events past past' e e'}, N t past e → M past' e' →
    Within reg config t outer events past' e' → N t past' e'
  rejects : ∀ {t outer events past e o} {s : Signature}, N t past e →
    Within reg config t outer events past e →
    N t (past ++ [⟨t.name, s.level, o, s⟩]) (e.logged (.candidateVetoed t.name o s))
  conflicts : ∀ {t outer events past e s roles}, N t past e →
    Within reg config t outer events past e →
    N t past (e.logged (.conflictDetected (.type t.name) s roles))
  concludes : ∀ {t outer past e}, N t past e →
    Within reg config t outer (reg.minutes config t (ruleOf past t.name)) past e →
    reg.check config t = .ok () →
    M past ((e.countTally (t.tally (ruleOf past t.name) (reg.offersTo t))).leave t.name
      (reg.outcomeOf config t (ruleOf past t.name)))
  refuses : ∀ {t outer past e error}, N t past e → Within reg config t outer [] past e →
    reg.check config t = .error error → M past (e.leave t.name (.error error))
  unwinds : ∀ {t outer events past e payload}, N t past e →
    Within reg config t outer events past e → reg.Cut config t (ruleOf past t.name) events →
    M past (e.unwind payload t.name)
  declares : ∀ {past e} {t : AdoptingType}, M past e → e.find? t.name = none → M past (e.adding t)
  gathers : ∀ {past e reg'}, M past e → e.registry.Fills reg' → M past { e with registry := reg' }
  remarks : ∀ {past e event}, M past e → event.subject? = none → M past (e.logged event)

/-! ## Rejections -/

theorem rejections_append (l l' : List Moment) :
    rejections (l ++ l') = rejections l ++ rejections l' :=
  List.filterMap_append

theorem rejections_cons (m : Moment) (l : List Moment) :
    rejections (m :: l) = m.rejected?.toList ++ rejections l := by
  unfold rejections
  rw [List.filterMap_cons]
  cases m.rejected? <;> rfl

theorem rejections_shield (l : List Moment) : rejections (l.map Moment.shield) = rejections l := by
  unfold rejections
  rw [List.filterMap_map]
  rfl

theorem about_append (name : String) (qs qs' : List Question) :
    about name (qs ++ qs') = about name qs ++ about name qs' :=
  List.filter_append _ _

namespace Throughout

variable {M : List Question → Engine → Prop} {past : List Question}

theorem append {l l' : List Moment} (h : Throughout M past l)
    (h' : Throughout M (past ++ rejections l) l') : Throughout M past (l ++ l') := by
  induction l generalizing past with
  | nil => simpa [rejections] using h'
  | cons m l ih =>
    rw [rejections_cons, ← List.append_assoc] at h'
    exact ⟨h.1, ih h.2 h'⟩

theorem shield {l : List Moment} (h : Throughout M past l) :
    Throughout M past (l.map Moment.shield) := by
  induction l generalizing past with
  | nil => trivial
  | cons m l ih => exact ⟨h.1, ih h.2⟩

/-- The property holds at each moment, with what has been rejected at the moments before. -/
theorem at_split {l before after : List Moment} {m : Moment} (h : Throughout M past l)
    (hl : l = before ++ m :: after) : M (past ++ rejections before) m.engine := by
  induction before generalizing past l with
  | nil =>
    subst hl
    simpa [rejections] using h.1
  | cons m' before ih =>
    subst hl
    rw [rejections_cons, ← List.append_assoc]
    exact ih h.2 rfl

end Throughout

/-! ## Logs -/

namespace Engine

theorem entriesOf_logged (e : Engine) (event : Event) (name : String) :
    (e.logged event).entriesOf name =
      e.entriesOf name ++ if event.subject? = some name then [⟨event, e.spans⟩] else [] := by
  unfold entriesOf logged
  rw [List.filter_append]
  congr 1
  by_cases h : event.subject? = some name
  · simp [h]
  · simp [h]

theorem entriesOf_logged_of_ne {e : Engine} {event : Event} {name : String}
    (h : event.subject? ≠ some name) : (e.logged event).entriesOf name = e.entriesOf name := by
  rw [entriesOf_logged, if_neg h, List.append_nil]

/-- What a composition logs when it begins. -/
theorem log_enter (e : Engine) (t : AdoptingType) :
    (e.enter t).log = e.log ++ [⟨.counted .mergesExecuted, e.spans ++ [t.name]⟩,
      ⟨.compositionStarted t.name t.declaredRoles.length, e.spans ++ [t.name]⟩] := by
  show (e.log ++ [_]) ++ [_] = _
  rw [List.append_assoc]
  rfl

theorem entriesOf_enter (e : Engine) (t : AdoptingType) (name : String) :
    (e.enter t).entriesOf name =
      e.entriesOf name ++ if t.name = name then begun t e.spans [] else [] := by
  unfold entriesOf
  rw [log_enter, List.filter_append]
  congr 1
  by_cases h : t.name = name
  · simp [h, begun, Event.subject?]
  · simp [h, Event.subject?]

theorem Over.of_leads {reg : Registry} {config : Config} {e e' : Engine} (h : e.Over reg config)
    (hs : e'.Sound) (hl : e.Leads e') : e'.Over reg config :=
  ⟨hs, hl.definitions.trans h.definitions, hl.config.trans h.config⟩

end Engine

theorem begun_append (t : AdoptingType) (outer : List String) (events events' : List Event) :
    begun t outer (events ++ events') =
      begun t outer events ++ events'.map fun event => ⟨event, outer ++ [t.name]⟩ := by
  unfold begun
  rw [← List.cons_append, List.map_append]

namespace Within

variable {reg : Registry} {config : Config} {t : AdoptingType} {outer : List String}
  {events : List Event} {past : List Question} {e e' : Engine}

theorem running (h : Within reg config t outer events past e) : e.slotOf t.name = .running := by
  rw [← h.upon.sound.running, h.spans]
  simp

/-- The step of a merge that logs one more event. -/
theorem logged (h : Within reg config t outer events past e) {event : Event} (qs : List Question)
    (hq : e.Quiet (e.logged event)) (hsubject : event.subject? = some t.name)
    (hrejection : about t.name qs = event.rejection?.toList) :
    Within reg config t outer (events ++ [event]) (past ++ qs) (e.logged event) where
  upon := h.upon.of_leads (hq.sound h.upon.sound) hq.leads
  spans := h.spans
  entry := h.entry
  told := by
    rw [Engine.entriesOf_logged, if_pos hsubject, h.told, h.spans, begun_append]
    rfl
  rejected := by
    rw [about_append, h.rejected, hrejection, List.filterMap_append]
    cases hr : event.rejection? with
    | none => simp [hr]
    | some q => simp [hr]

/-- A step that leaves the log as it is. -/
theorem of_quiet (h : Within reg config t outer events past e) (hq : e.Quiet e')
    (hlog : e'.log = e.log) : Within reg config t outer events past e' where
  upon := h.upon.of_leads (hq.sound h.upon.sound) hq.leads
  spans := hq.spans.trans h.spans
  entry := by
    rw [hq.find?]
    exact h.entry
  told := by
    unfold Engine.entriesOf
    rw [hlog]
    exact h.told
  rejected := h.rejected

theorem of_fills (h : Within reg config t outer events past e) {reg' : Registry}
    (hfill : e.registry.Fills reg') :
    Within reg config t outer events past { e with registry := reg' } where
  upon := h.upon.of_leads (h.upon.sound.of_fills hfill) (Engine.leads_of_fills hfill)
  spans := h.spans
  entry := h.entry
  told := h.told
  rejected := h.rejected

/-- A merge that has just begun has logged nothing. -/
theorem of_enter {name : String} {entry : TypeEntry} (hover : e.Over reg config)
    (hfresh : Fresh past e) (ht : e.find? name = some entry) (hv : entry.slot = .vacant) :
    Within reg config entry.definition e.spans [] past (e.enter entry.definition) := by
  have hname := Engine.name_of_find? ht
  obtain ⟨hentries, habout⟩ := hfresh name ((Engine.slotOf_of_find? ht).trans hv)
  refine ⟨⟨hover.sound.enter ht hv, hover.definitions, hover.config⟩, rfl, ?_, ?_, ?_⟩
  · exact ⟨_, Engine.find?_enter_self (hname ▸ ht), rfl⟩
  · rw [Engine.entriesOf_enter, if_pos rfl, hname, hentries]
    rfl
  · rw [hname, habout]
    rfl

end Within

/-! ## Merges -/

/-- The property holds at each moment of a composition, and at its end. -/
structure Reported {α : Type} (M : List Question → Engine → Prop) (past : List Question)
    (l : List Moment) (run : Except Halt α × Engine) : Prop where
  moments : Throughout M past l
  ended : M (past ++ rejections l) run.2

/-- Nothing more is logged, asked or rejected in the name of types whose merges have begun. -/
structure Spares (e : Engine) (l : List Moment) (e' : Engine) : Prop where
  entries : ∀ b, e.slotOf b ≠ .vacant → e'.entriesOf b = e.entriesOf b
  questions : ∀ b, e.slotOf b ≠ .vacant → e'.questionsOf b = e.questionsOf b
  rejected : ∀ b, e.slotOf b ≠ .vacant → about b (rejections l) = []

/-- What a merge has logged is a cut, whenever it agrees with what has been rejected. -/
def Pausable (reg : Registry) (config : Config) (t : AdoptingType) (events : List Event) : Prop :=
  ∀ past, about t.name past = events.filterMap Event.rejection? →
    reg.Cut config t (ruleOf past t.name) events

section Merges

variable {reg : Registry} {config : Config} {M : List Question → Engine → Prop}
  {N : AdoptingType → List Question → Engine → Prop} {t : AdoptingType} {outer : List String}

/-- A consultation in a merge, which logs nothing, comes to an answer or halts; a rejection is the
last that is noticed. -/
structure Heard (reg : Registry) (config : Config) (M : List Question → Engine → Prop)
    (N : AdoptingType → List Question → Engine → Prop) (t : AdoptingType) (outer : List String)
    (events : List Event) (q : Question) (past : List Question) (l : List Moment)
    (run : Except Halt Bool × Engine) : Prop where
  moments : Throughout M past l
  answered : ∀ keep e', run = (.ok keep, e') →
    ∃ past', past ++ rejections l = past' ++ (if keep then [] else [q]) ∧
      Within reg config t outer events past' e' ∧ N t past' e'
  halted : ∀ halt e', run = (.error halt, e') →
    Within reg config t outer events (past ++ rejections l) e' ∧ N t (past ++ rejections l) e'

/-- A step of a merge comes to a result, with some events more, or halts at a cut. -/
structure Told {α : Type} (reg : Registry) (config : Config) (M : List Question → Engine → Prop)
    (N : AdoptingType → List Question → Engine → Prop) (t : AdoptingType) (outer : List String)
    (R : α → List Event → Prop) (events : List Event) (past : List Question) (l : List Moment)
    (run : Except Halt α × Engine) : Prop where
  moments : Throughout M past l
  ended : ∀ a e', run = (.ok a, e') → ∃ added, R a added ∧
    Within reg config t outer (events ++ added) (past ++ rejections l) e' ∧
      N t (past ++ rejections l) e'
  halted : ∀ halt e', run = (.error halt, e') → ∃ events', Pausable reg config t events' ∧
    Within reg config t outer events' (past ++ rejections l) e' ∧ N t (past ++ rejections l) e'

namespace Heard

variable {events : List Event} {q : Question} {past : List Question} {l l₀ : List Moment}
  {run : Except Halt Bool × Engine}

theorem append (h₀ : Throughout M past l₀)
    (h : Heard reg config M N t outer events q (past ++ rejections l₀) l run) :
    Heard reg config M N t outer events q past (l₀ ++ l) run := by
  refine ⟨h₀.append h.moments, fun keep e' hrun => ?_, fun halt e' hrun => ?_⟩
  · rw [rejections_append, ← List.append_assoc]
    exact h.answered keep e' hrun
  · rw [rejections_append, ← List.append_assoc]
    exact h.halted halt e' hrun

theorem cons {m : Moment} (hm : M past m.engine) (hnone : m.rejected? = none)
    (h : Heard reg config M N t outer events q past l run) :
    Heard reg config M N t outer events q past (m :: l) run := by
  have hsingle : rejections [m] = [] := by simp [rejections, hnone]
  have hfirst : Throughout M past [m] := ⟨hm, trivial⟩
  refine append hfirst ?_
  rwa [hsingle, List.append_nil]

/-- A consultation goes on after a composition within it. -/
theorem bind {α : Type} {step : EngineM α} {next : α → EngineM Bool}
    {trail : α → Engine → List Moment} {e : Engine} (h₀ : Throughout M past l₀)
    (hwithin : Within reg config t outer events (past ++ rejections l₀) (runFrom step e).2)
    (hN : N t (past ++ rejections l₀) (runFrom step e).2)
    (h : ∀ a e₁, runFrom step e = (.ok a, e₁) →
      Heard reg config M N t outer events q (past ++ rejections l₀) (trail a e₁)
        (runFrom (next a) e₁)) :
    Heard reg config M N t outer events q past (l₀ ++ Trail.after step trail e)
      (runFrom (step >>= next) e) := by
  refine append h₀ ?_
  rw [runFrom_bind]
  unfold Trail.after
  rcases hrun : runFrom step e with ⟨halt | a, e₁⟩
  · rw [hrun] at hwithin hN
    refine ⟨trivial, fun keep e' heq => (by cases heq), fun halt' e' heq => ?_⟩
    cases heq
    simpa [rejections] using ⟨hwithin, hN⟩
  · exact h a e₁ hrun

end Heard

namespace Told

variable {α β : Type} {events : List Event} {past : List Question} {l : List Moment}

/-- A step goes on with another. -/
theorem bind {R : α → List Event → Prop} {R' : β → List Event → Prop} {step : EngineM α}
    {next : α → EngineM β} {trail : α → Engine → List Moment} {e : Engine}
    (h : Told reg config M N t outer R events past l (runFrom step e))
    (h' : ∀ a e₁ added, runFrom step e = (.ok a, e₁) → R a added →
      Within reg config t outer (events ++ added) (past ++ rejections l) e₁ →
      N t (past ++ rejections l) e₁ →
      Told reg config M N t outer (fun b added' => R' b (added ++ added')) (events ++ added)
        (past ++ rejections l) (trail a e₁) (runFrom (next a) e₁)) :
    Told reg config M N t outer R' events past (l ++ Trail.after step trail e)
      (runFrom (step >>= next) e) := by
  rw [runFrom_bind]
  unfold Trail.after
  rcases hrun : runFrom step e with ⟨halt | a, e₁⟩
  · rw [List.append_nil]
    refine ⟨h.moments, fun b e' heq => (by cases heq), fun halt' e' heq => ?_⟩
    cases heq
    exact h.halted halt e₁ hrun
  · obtain ⟨added, hR, hwithin, hN⟩ := h.ended a e₁ hrun
    have h₁ := h' a e₁ added hrun hR hwithin hN
    refine ⟨h.moments.append h₁.moments, fun b e' heq => ?_, fun halt e' heq => ?_⟩
    · obtain ⟨added', hR', hend⟩ := h₁.ended b e' heq
      refine ⟨added ++ added', hR', ?_⟩
      rwa [rejections_append, ← List.append_assoc, ← List.append_assoc]
    · rw [rejections_append, ← List.append_assoc]
      exact h₁.halted halt e' heq

/-- A step goes on without a further moment. -/
theorem bind_silent {R : α → List Event → Prop} {R' : β → List Event → Prop} {step : EngineM α}
    {next : α → EngineM β} {e : Engine}
    (h : Told reg config M N t outer R events past l (runFrom step e))
    (h' : ∀ a e₁ added, runFrom step e = (.ok a, e₁) → R a added →
      Within reg config t outer (events ++ added) (past ++ rejections l) e₁ →
      N t (past ++ rejections l) e₁ →
      Told reg config M N t outer (fun b added' => R' b (added ++ added')) (events ++ added)
        (past ++ rejections l) [] (runFrom (next a) e₁)) :
    Told reg config M N t outer R' events past l (runFrom (step >>= next) e) := by
  have hbind : Told reg config M N t outer R' events past
      (l ++ Trail.after step (fun _ _ => []) e) (runFrom (step >>= next) e) := h.bind h'
  have hafter : Trail.after step (fun _ _ => []) e = [] := by
    unfold Trail.after
    rcases runFrom step e with ⟨_ | _, _⟩ <;> rfl
  rwa [hafter, List.append_nil] at hbind

/-- A step that comes to a result without a moment. -/
theorem of_eq_ok {R : α → List Event → Prop} {run : Except Halt α × Engine} {a : α} {e : Engine}
    (added : List Event) (hrun : run = (.ok a, e)) (hR : R a added)
    (hwithin : Within reg config t outer (events ++ added) past e) (hN : N t past e) :
    Told reg config M N t outer R events past [] run := by
  subst hrun
  refine ⟨trivial, fun b e' heq => ?_, fun halt e' heq => by cases heq⟩
  cases heq
  refine ⟨added, hR, ?_⟩
  simpa [rejections] using ⟨hwithin, hN⟩

end Told

variable {depth : Nat} (h : Telling reg config M N)
  (hinner : ∀ name e past, e.Over reg config → e.vacantTypes ≤ depth → M past e →
    Reported M past (Trail.compose depth name e)
      (runFrom (EngineM.composeWithin depth name) e))
  (hspares : ∀ name e past, e.Over reg config → e.vacantTypes ≤ depth → M past e →
    Spares e (Trail.compose depth name e) (runFrom (EngineM.composeWithin depth name) e).2)
  {events : List Event} {past : List Question} {e : Engine}

include hspares

/-- A composition within a merge leaves the merge where it is. -/
theorem within_of_nested (name : String) (hwithin : Within reg config t outer events past e)
    (hd : e.vacantTypes ≤ depth) (hM : M past e) :
    Within reg config t outer events (past ++ rejections (Trail.compose depth name e))
      (runFrom (EngineM.composeWithin depth name) e).2 := by
  have hpass := passage_composeWithin depth name e hwithin.upon.sound hd
  have hkept := hspares name e past hwithin.upon hd hM
  have hstarted : e.slotOf t.name ≠ .vacant := by
    rw [hwithin.running]
    simp
  obtain ⟨entry, hentry, hdef⟩ := hwithin.entry
  obtain ⟨entry', hentry', hlead⟩ := hpass.leads.exists_find? hentry
  refine ⟨hwithin.upon.of_leads hpass.sound hpass.leads, hpass.spans.trans hwithin.spans,
    ⟨entry', hentry', hlead.definition.trans hdef⟩, ?_, ?_⟩
  · rw [hkept.entries t.name hstarted]
    exact hwithin.told
  · rw [about_append, hkept.rejected t.name hstarted, List.append_nil]
    exact hwithin.rejected

include h hinner

/-- After a composition that its hook has asked for, a merge goes on from where it was. -/
theorem resumed_of_nested (name : String) {q : Question}
    (hwithin : Within reg config t outer events past e) (hN : N t past e) (hM : M past e)
    (hd : e.vacantTypes ≤ depth) (hq : (e.questionsOf t.name).getLast? = some q) :
    Within reg config t outer events (past ++ rejections (Trail.compose depth name e))
        (runFrom (EngineM.composeWithin depth name) e).2 ∧
      N t (past ++ rejections (Trail.compose depth name e))
        (runFrom (EngineM.composeWithin depth name) e).2 ∧
      (runFrom (EngineM.composeWithin depth name) e).2.vacantTypes ≤ depth ∧
      ((runFrom (EngineM.composeWithin depth name) e).2.questionsOf t.name).getLast? = some q := by
  have hreport := hinner name e past hwithin.upon hd hM
  have hwithin' := within_of_nested hspares name hwithin hd hM
  have hpass := passage_composeWithin depth name e hwithin.upon.sound hd
  have hkept := hspares name e past hwithin.upon hd hM
  refine ⟨hwithin', h.resumes hN hreport.ended hwithin', hpass.leads.vacantTypes_le.trans hd, ?_⟩
  rwa [hkept.questions t.name (by rw [hwithin.running]; simp)]

theorem heard_consult (c : Consultation) {q : Question} (hcut : Pausable reg config t events)
    (hwithin : Within reg config t outer events past e) (hN : N t past e)
    (hd : e.vacantTypes ≤ depth) (hq : (e.questionsOf t.name).getLast? = some q) :
    Heard reg config M N t outer events q past (Trail.consult depth (Trail.compose depth) c e)
      (runFrom (EngineM.consult (EngineM.composeWithin depth) c) e) := by
  induction c generalizing e past with
  | answer keep =>
    have hM := h.pauses hN hwithin (hcut past hwithin.rejected)
    refine ⟨⟨hM, trivial⟩, fun keep' e' hrun => ?_, fun halt e' hrun => by cases hrun⟩
    cases hrun
    refine ⟨past, ?_, hwithin, hN⟩
    cases keep with
    | true => rfl
    | false => simp [rejections, Trail.consult, Moment.rejected?, hwithin.spans, hq]
  | panic payload =>
    have hM := h.pauses hN hwithin (hcut past hwithin.rejected)
    refine ⟨⟨hM, trivial⟩, fun keep e' hrun => (by cases hrun), fun halt e' hrun => ?_⟩
    cases hrun
    have hnone : rejections (Trail.consult depth (Trail.compose depth) (.panic payload) e) = [] :=
      rfl
    rw [hnone, List.append_nil]
    exact ⟨hwithin, hN⟩
  | compose name next ih =>
    have hM := h.pauses hN hwithin (hcut past hwithin.rejected)
    have hreport := hinner name e past hwithin.upon hd hM
    obtain ⟨hwithin', hN', hd', hq'⟩ := resumed_of_nested h hinner hspares name hwithin hN hM hd hq
    refine .cons hM rfl (.bind hreport.moments hwithin' hN' fun outcome e₁ hrun => ?_)
    rw [hrun] at hwithin' hN' hd' hq'
    exact ih outcome hwithin' hN' hd' hq'
  | attempt name next ih =>
    have hM := h.pauses hN hwithin (hcut past hwithin.rejected)
    have hreport := hinner name e past hwithin.upon hd hM
    obtain ⟨hwithin', hN', hd', hq'⟩ := resumed_of_nested h hinner hspares name hwithin hN hM hd hq
    rw [Trail.consult, EngineM.consult]
    refine .cons hM rfl ?_
    rw [← rejections_shield] at hwithin' hN'
    have hattempt : runFrom (EngineM.attempt (EngineM.composeWithin depth name)) e =
        (.ok (runFrom (EngineM.composeWithin depth name) e).1,
          (runFrom (EngineM.composeWithin depth name) e).2) := runFrom_lift_run _ e
    refine .bind hreport.moments.shield (by rwa [hattempt]) (by rwa [hattempt])
      fun exit e₁ hrun => ?_
    rw [hattempt] at hrun
    cases hrun
    have hgoes := (passage_composeWithin depth name e hwithin.upon.sound hd).goesOn
    rcases hexit : (runFrom (EngineM.composeWithin depth name) e).1 with (payload | _) | outcome
    · exact ih _ hwithin' hN' hd' hq'
    · exact absurd hexit hgoes
    · exact ih _ hwithin' hN' hd' hq'
  | observe name next ih =>
    exact .cons (h.pauses hN hwithin (hcut past hwithin.rejected)) rfl (ih _ hwithin hN hd hq)
  | note n next ih =>
    refine .cons (h.pauses hN hwithin (hcut past hwithin.rejected)) rfl ?_
    have hquiet : e.Quiet { e with notes := e.notes ++ [n] } :=
      ⟨rfl, rfl, rfl, rfl, fun _ => rfl⟩
    exact ih (hwithin.of_quiet hquiet rfl) (h.notes hN) hd hq
  | «recall» next ih =>
    exact .cons (h.pauses hN hwithin (hcut past hwithin.rejected)) rfl (ih _ hwithin hN hd hq)

/-- A candidate is put to the hook, and a rejection is logged. -/
theorem told_askHook (hook : Hook) (s : Signature) (c : Candidate)
    (hcut : Pausable reg config t events) (hwithin : Within reg config t outer events past e)
    (hN : N t past e) (hd : e.vacantTypes ≤ depth) :
    Told reg config M N t outer (fun keep added => added = vetoesOf t.name s [(c, keep)]) events
      past
      (Trail.consult depth (Trail.compose depth) (hook.ask s.level c.origin s)
        { e with questions := e.questions ++ [⟨t.name, s.level, c.origin, s⟩] })
      (runFrom (EngineM.askHook (EngineM.composeWithin depth) t hook s c) e) := by
  have hquiet : e.Quiet { e with questions := e.questions ++ [⟨t.name, s.level, c.origin, s⟩] } :=
    ⟨rfl, rfl, rfl, rfl, fun _ => rfl⟩
  have hheard := heard_consult h hinner hspares (hook.ask s.level c.origin s) hcut
    (hwithin.of_quiet hquiet rfl) (h.asks hN hwithin) hd (by
      rw [Engine.questionsOf_ask, if_pos rfl, List.getLast?_concat])
  unfold EngineM.askHook
  rw [runFrom_bind_ok (runFrom_modify _ _), runFrom_bind]
  rcases hrun : runFrom (EngineM.consult (EngineM.composeWithin depth)
    (hook.ask s.level c.origin s)) _ with ⟨halt | keep, e₁⟩
  · refine ⟨hheard.moments, fun keep e' heq => (by cases heq), fun halt' e' heq => ?_⟩
    cases heq
    exact ⟨events, hcut, hheard.halted halt e₁ hrun⟩
  · obtain ⟨past', hpast, hwithin', hN'⟩ := hheard.answered keep e₁ hrun
    refine ⟨hheard.moments, fun keep' e' heq => ?_,
      fun halt e' heq => (by cases keep <;> cases heq)⟩
    rw [hpast]
    cases keep with
    | true =>
      cases heq
      refine ⟨[], rfl, ?_⟩
      simpa using ⟨hwithin', hN'⟩
    | false =>
      cases heq
      have hlogged : e₁.Quiet (e₁.logged (.candidateVetoed t.name c.origin s)) :=
        ⟨rfl, rfl, rfl, rfl, fun _ => Engine.starts_logged _ _ _⟩
      exact ⟨_, rfl, hwithin'.logged _ hlogged rfl (by simp [about, Event.rejection?]),
        h.rejects hN' hwithin'⟩

/-- The candidates for a signature are put to the hook in turn. -/
theorem told_keepCandidates (hook : Hook) (s : Signature) (cs : List Candidate)
    (hcut : ∀ answers c rest, cs = answers.map Prod.fst ++ c :: rest →
      Pausable reg config t (events ++ vetoesOf t.name s answers))
    (hwithin : Within reg config t outer events past e) (hN : N t past e)
    (hd : e.vacantTypes ≤ depth) :
    Told reg config M N t outer
      (fun kept added => ∃ answers, answers.map Prod.fst = cs ∧ kept = keptOf answers ∧
        added = vetoesOf t.name s answers) events past
      (Trail.keepCandidates depth (Trail.compose depth) t hook s cs e)
      (runFrom (EngineM.keepCandidates (EngineM.composeWithin depth) t hook s cs) e) := by
  induction cs generalizing events past e with
  | nil =>
    exact .of_eq_ok [] (runFrom_pure [] e) ⟨[], rfl, rfl, rfl⟩ (by simpa using hwithin) hN
  | cons c cs ih =>
    have hpausable : Pausable reg config t events := by simpa [vetoesOf] using hcut [] c cs rfl
    have hask := told_askHook h hinner hspares hook s c hpausable hwithin hN hd
    refine hask.bind fun keep e₁ added hrun hadded hwithin₁ hN₁ => ?_
    have hpass := passage_askHook (passage_composeWithin depth) t hook s c hwithin.upon.sound hd
    rw [hrun] at hpass
    subst hadded
    have hroom := hpass.leads.vacantTypes_le.trans hd
    have hrest := ih (fun answers c' rest hcs => ?_) hwithin₁ hN₁ hroom
    · refine hrest.bind_silent fun kept e₂ added' _ hkept hwithin₂ hN₂ => ?_
      obtain ⟨answers, hcs, rfl, rfl⟩ := hkept
      refine .of_eq_ok [] (runFrom_pure _ e₂) ?_ (by simpa using hwithin₂) hN₂
      refine ⟨(c, keep) :: answers, by rw [List.map_cons, hcs], ?_, ?_⟩
      · cases keep <;> rfl
      · rw [List.append_nil, ← vetoesOf_append]
        rfl
    · rw [List.append_assoc, ← vetoesOf_append]
      exact hcut ((c, keep) :: answers) c' rest (by rw [hcs]; rfl)

/-- A signature is settled, and a conflict is logged. -/
theorem told_settleSignature (tally : Tally) (offer : Signature × List Candidate)
    (hcut : t.veto ≠ none → ∀ answers c rest, offer.2 = answers.map Prod.fst ++ c :: rest →
      Pausable reg config t (events ++ vetoesOf t.name offer.1 answers))
    (hwithin : Within reg config t outer events past e) (hN : N t past e)
    (hd : e.vacantTypes ≤ depth) :
    Told reg config M N t outer
      (fun tally' added => ∃ r : Ruling, r.offer = offer ∧ tally' = tally.take r ∧
        added = r.events t.name) events past
      (Trail.resolve depth (Trail.compose depth) t offer.1 offer.2 e)
      (runFrom (EngineM.settleSignature (EngineM.composeWithin depth) t tally offer) e) := by
  have hresolve : Told reg config M N t outer
      (fun decision added => ∃ answers, answers.map Prod.fst = offer.2 ∧
        decision = .ofSurvivors (keptOf answers) ∧ added = vetoesOf t.name offer.1 answers)
      events past (Trail.resolve depth (Trail.compose depth) t offer.1 offer.2 e)
      (runFrom (EngineM.resolve (EngineM.composeWithin depth) t offer.1 offer.2) e) := by
    unfold Trail.resolve EngineM.resolve
    cases hveto : t.veto with
    | none =>
      refine .of_eq_ok [] (runFrom_pure _ e) ⟨offer.2.map fun c => (c, true), ?_, ?_, ?_⟩
        (by simpa using hwithin) hN
      · simp [Function.comp_def]
      · rw [keptOf_byRule (fun _ _ => true) offer.1, Candidate.keptBy, List.filter_true]
      · simp [vetoesOf]
    | some hook =>
      have hkeep := told_keepCandidates h hinner hspares hook offer.1 offer.2
        (hcut (by simp [hveto])) hwithin hN hd
      refine hkeep.bind_silent fun kept e₁ added _ hkept hwithin₁ hN₁ => ?_
      obtain ⟨answers, hcs, rfl, rfl⟩ := hkept
      exact .of_eq_ok [] (runFrom_pure _ e₁) ⟨answers, hcs, rfl, List.append_nil _⟩
        (by simpa using hwithin₁) hN₁
  refine hresolve.bind_silent fun decision e₁ added _ hdecision hwithin₁ hN₁ => ?_
  obtain ⟨answers, hcs, rfl, rfl⟩ := hdecision
  have hoffer : (Ruling.mk offer.1 answers).offer = offer := Prod.ext rfl hcs
  have hlength : offer.2.length = answers.length := by rw [← hcs, List.length_map]
  have htake : tally.take ⟨offer.1, answers⟩ =
      tally.add offer.1 offer.2.length (.ofSurvivors (keptOf answers)) := by
    rw [hlength]
    rfl
  have hevents : (Ruling.mk offer.1 answers).events t.name =
      vetoesOf t.name offer.1 answers ++ conflictsOf t.name offer.1 (keptOf answers) := rfl
  rcases hkept : keptOf answers with _ | ⟨c, _ | ⟨c', cs⟩⟩
  · exact .of_eq_ok [] (runFrom_pure _ e₁) ⟨⟨offer.1, answers⟩, hoffer, by rw [htake, hkept],
      by rw [hevents, hkept]; rfl⟩ (by simpa using hwithin₁) hN₁
  · exact .of_eq_ok [] (runFrom_pure _ e₁) ⟨⟨offer.1, answers⟩, hoffer, by rw [htake, hkept],
      by rw [hevents, hkept]; rfl⟩ (by simpa using hwithin₁) hN₁
  · have hlogged : e₁.Quiet (e₁.logged (.conflictDetected (.type t.name) offer.1
        (RoleId.sort ((c :: c' :: cs).map Candidate.origin)))) :=
      ⟨rfl, rfl, rfl, rfl, fun _ => Engine.starts_logged _ _ _⟩
    have hwithin₂ := hwithin₁.logged [] hlogged rfl rfl
    rw [List.append_nil] at hwithin₂
    exact .of_eq_ok [_] rfl ⟨⟨offer.1, answers⟩, hoffer, by rw [htake, hkept],
      by rw [hevents, hkept]; rfl⟩ hwithin₂ (h.conflicts hN₁ hwithin₁)

/-- The offers are settled in turn. -/
theorem told_settleOffers (offers : List (Signature × List Candidate)) (tally : Tally)
    (hcut : t.veto ≠ none → ∀ (rs : List Ruling) s answers c rest after,
      offers = rs.map Ruling.offer ++ (s, answers.map Prod.fst ++ c :: rest) :: after →
      Pausable reg config t
        (events ++ (rs.flatMap (Ruling.events t.name) ++ vetoesOf t.name s answers)))
    (hwithin : Within reg config t outer events past e) (hN : N t past e)
    (hd : e.vacantTypes ≤ depth) :
    Told reg config M N t outer
      (fun tally' added => ∃ rs : List Ruling, rs.map Ruling.offer = offers ∧
        tally' = rs.foldl Tally.take tally ∧ added = rs.flatMap (Ruling.events t.name))
      events past (Trail.settleOffers depth (Trail.compose depth) t offers tally e)
      (runFrom (offers.foldlM (EngineM.settleSignature (EngineM.composeWithin depth) t) tally)
        e) := by
  induction offers generalizing tally events past e with
  | nil =>
    exact .of_eq_ok [] (runFrom_pure tally e) ⟨[], rfl, rfl, rfl⟩ (by simpa using hwithin) hN
  | cons offer offers ih =>
    have hsettle := told_settleSignature h hinner hspares tally offer
      (fun hveto answers c rest hcs => by
        simpa using hcut hveto [] offer.1 answers c rest offers (by rw [← hcs]; rfl))
      hwithin hN hd
    rw [List.foldlM_cons]
    refine hsettle.bind fun tally' e₁ added hrun hadded hwithin₁ hN₁ => ?_
    obtain ⟨r, hr, rfl, rfl⟩ := hadded
    have hpass := passage_settleSignature (passage_composeWithin depth) t tally offer
      hwithin.upon.sound hd
    rw [hrun] at hpass
    have hrest := ih (tally.take r) (fun hveto rs s answers c rest after hoffers => ?_) hwithin₁ hN₁
      (hpass.leads.vacantTypes_le.trans hd)
    · refine ⟨hrest.moments, fun tally'' e' heq => ?_, hrest.halted⟩
      obtain ⟨added, ⟨rs, hrs, htally, hadded⟩, hend⟩ := hrest.ended tally'' e' heq
      exact ⟨added, ⟨r :: rs, by rw [List.map_cons, hr, hrs], htally,
        by rw [List.flatMap_cons, hadded]⟩, hend⟩
    · have hmore := hcut hveto (r :: rs) s answers c rest after (by rw [hoffers, ← hr]; rfl)
      rwa [List.flatMap_cons, List.append_assoc, ← List.append_assoc] at hmore

end Merges

end RoleComposition
