import RoleComposition.Proofs.Nesting

/-!
# Passages

A `Passage` is what any part of a composition goes through: every moment of its trail is sound,
slots only move forward from one moment to the next, and a panic that a hook raises unwinds all
merges that have been entered since, unless another hook catches it. Each step of a composition is
a passage if the steps within it are; by induction on the depth, so is a whole composition. Main
statement: `passage_composeWithin`.
-/

namespace RoleComposition

/-- A moment of a sound engine from which types can be composed. -/
structure Moment.Sound (m : Moment) : Prop where
  engine : m.engine.Sound
  room : m.engine.vacantTypes ≤ m.depth

/-- The moments from one engine to another. Where no hook has control, no more types are being
composed than at the beginning. -/
structure Course (e : Engine) (l : List Moment) (e' : Engine) : Prop where
  sound : e'.Sound
  spans : e'.spans = e.spans
  progress : e.Progress e'
  moments : ∀ m ∈ l, m.Sound ∧ e.Progress m.engine ∧ m.engine.Progress e'
  idle : ∀ m ∈ l, m.hook = none → m.engine.spans = e.spans
  ordered : l.Pairwise fun m m' => m.engine.Progress m'.engine

/-- The engine after a panic has left several merges, the last of them first. -/
def Engine.unwindAll (e : Engine) (payload : Panic) (names : List String) : Engine :=
  names.foldr (fun name e => e.unwind payload name) e

/-- The moments of a part of a composition, with how it ends. -/
structure Passage {α : Type} (e : Engine) (l : List Moment) (run : Except Halt α × Engine) : Prop
    extends Course e l run.2 where
  leads : e.Leads run.2
  hooked : ∀ m ∈ l, m.hook ≠ none
  goesOn : run.1 ≠ .error .abort
  raised : ∀ payload, run.1 = .error (.panic payload) → ∃ m ∈ l, m.raised? = some payload
  unwound : ∀ m ∈ l, ∀ payload, m.raised? = some payload → run.1 = .error (.panic payload) ∧
    ∃ names, m.engine.spans = e.spans ++ names ∧ run.2 = m.engine.unwindAll payload names

/-! ## Courses -/

namespace Course

variable {e e₁ e₂ : Engine} {l l' : List Moment}

theorem nil (hs : e₁.Sound) (h : e.Leads e₁) : Course e [] e₁ :=
  ⟨hs, h.spans, h.progress, by simp, by simp, .nil⟩

theorem append (h : Course e l e₁) (h' : Course e₁ l' e₂) : Course e (l ++ l') e₂ := by
  refine ⟨h'.sound, h'.spans.trans h.spans, h.progress.trans h'.progress, fun m hm => ?_,
    fun m hm hhook => ?_, ?_⟩
  · rcases List.mem_append.1 hm with hm | hm
    · obtain ⟨hms, hem, hme⟩ := h.moments m hm
      exact ⟨hms, hem, hme.trans h'.progress⟩
    · obtain ⟨hms, hem, hme⟩ := h'.moments m hm
      exact ⟨hms, h.progress.trans hem, hme⟩
  · rcases List.mem_append.1 hm with hm | hm
    · exact h.idle m hm hhook
    · exact (h'.idle m hm hhook).trans h.spans
  · refine List.pairwise_append.2 ⟨h.ordered, h'.ordered, fun m hm m' hm' => ?_⟩
    exact (h.moments m hm).2.2.trans (h'.moments m' hm').2.1

theorem cons {m : Moment} (hm : m.Sound) (h : Course m.engine l e₁) :
    Course m.engine (m :: l) e₁ := by
  refine ⟨h.sound, h.spans, h.progress, fun m' hm' => ?_, fun m' hm' hhook => ?_, ?_⟩
  · rcases List.mem_cons.1 hm' with rfl | hm'
    · exact ⟨hm, .refl _, h.progress⟩
    · exact h.moments m' hm'
  · rcases List.mem_cons.1 hm' with rfl | hm'
    · rfl
    · exact h.idle m' hm' hhook
  · exact List.pairwise_cons.2 ⟨fun m' hm' => (h.moments m' hm').2.1, h.ordered⟩

end Course

/-! ## Passages -/

/-- A panic that a hook further out would catch does not count. -/
theorem Moment.raised?_shield (m : Moment) : m.shield.raised? = none := by
  unfold Moment.raised? Moment.shield
  rcases m.hook with _ | _ | _ | _ | _ | _ | _ | _ <;> rfl

namespace Passage

variable {α β : Type} {e e₁ : Engine} {l l' : List Moment}

/-- A part that comes to a result without a moment on the way. -/
theorem of_leads {run : Except Halt α × Engine} {a : α} (hs : e₁.Sound) (h : e.Leads e₁)
    (hrun : run = (.ok a, e₁)) : Passage e [] run := by
  subst hrun
  exact { Course.nil hs h with
    leads := h
    hooked := by simp
    goesOn := fun h => by cases h
    raised := fun payload h => by cases h
    unwound := by simp }

theorem of_quiet {run : Except Halt α × Engine} {a : α} (hs : e.Sound) (h : e.Quiet e₁)
    (hrun : run = (.ok a, e₁)) : Passage e [] run :=
  of_leads (h.sound hs) h.leads hrun

theorem pure (hs : e.Sound) (a : α) : Passage e [] (runFrom (pure a : EngineM α) e) :=
  of_leads hs (.refl e) (runFrom_pure a e)

/-- A part goes on with another. -/
theorem bind {step : EngineM α} {next : α → EngineM β} {trail : α → Engine → List Moment}
    (h : Passage e l (runFrom step e))
    (h' : ∀ a e₁, runFrom step e = (.ok a, e₁) → Passage e₁ (trail a e₁) (runFrom (next a) e₁)) :
    Passage e (l ++ Trail.after step trail e) (runFrom (step >>= next) e) := by
  rw [runFrom_bind]
  unfold Trail.after
  rcases hrun : runFrom step e with ⟨halt | a, e₁⟩
  · rw [hrun] at h
    rw [List.append_nil]
    exact { h with
      goesOn := fun heq => h.goesOn (by cases heq; rfl)
      raised := fun payload heq => h.raised payload (by cases heq; rfl)
      unwound := fun m hm payload hp => by
        obtain ⟨heq, names, hspans, hend⟩ := h.unwound m hm payload hp
        cases heq
        exact ⟨rfl, names, hspans, hend⟩ }
  · have h₂ := h' a e₁ hrun
    rw [hrun] at h
    refine { Course.append h.toCourse h₂.toCourse with
      leads := h.leads.trans h₂.leads
      hooked := fun m hm => (List.mem_append.1 hm).elim (h.hooked m) (h₂.hooked m)
      goesOn := h₂.goesOn
      raised := fun payload heq => ?_
      unwound := fun m hm payload hp => ?_ }
    · obtain ⟨m, hm, hp⟩ := h₂.raised payload heq
      exact ⟨m, List.mem_append_right _ hm, hp⟩
    -- had a panic been raised in the first part, there would be no second
    · rcases List.mem_append.1 hm with hm | hm
      · cases (h.unwound m hm payload hp).1
      · obtain ⟨heq, names, hspans, hend⟩ := h₂.unwound m hm payload hp
        exact ⟨heq, names, h.spans ▸ hspans, hend⟩

/-- A part goes on without a further moment. -/
theorem bind_silent {step : EngineM α} {next : α → EngineM β} (h : Passage e l (runFrom step e))
    (h' : ∀ a e₁, runFrom step e = (.ok a, e₁) → Passage e₁ [] (runFrom (next a) e₁)) :
    Passage e l (runFrom (step >>= next) e) := by
  have hbind : Passage e (l ++ Trail.after step (fun _ _ => []) e) (runFrom (step >>= next) e) :=
    h.bind h'
  have hafter : Trail.after step (fun _ _ => []) e = [] := by
    unfold Trail.after
    rcases runFrom step e with ⟨_ | _, _⟩ <;> rfl
  rwa [hafter, List.append_nil] at hbind

/-- A part that is led to. -/
theorem of_leads_trans {run : Except Halt α × Engine} (hs : e₁.Sound) (h : e.Leads e₁)
    (h' : Passage e₁ l run) : Passage e l run := by
  refine { Course.append (Course.nil hs h) h'.toCourse with
    leads := h.trans h'.leads
    hooked := h'.hooked
    goesOn := h'.goesOn
    raised := h'.raised
    unwound := fun m hm payload hp => ?_ }
  obtain ⟨heq, names, hspans, hend⟩ := h'.unwound m hm payload hp
  exact ⟨heq, names, h.spans ▸ hspans, hend⟩

/-- A part begins with a step that comes to a result without a moment. -/
theorem silent_bind {step : EngineM α} {next : α → EngineM β} {a : α} (hs : e.Sound)
    (h : e.Quiet e₁) (hrun : runFrom step e = (.ok a, e₁))
    (h' : Passage e₁ l (runFrom (next a) e₁)) : Passage e l (runFrom (step >>= next) e) := by
  rw [runFrom_bind_ok hrun]
  exact of_leads_trans (h.sound hs) h.leads h'

/-- A moment at which no hook panics. -/
theorem cons {run : Except Halt α × Engine} {m : Moment} (hm : m.Sound) (hhook : m.hook ≠ none)
    (hcalm : m.raised? = none) (h : Passage m.engine l run) :
    Passage m.engine (m :: l) run := by
  refine { Course.cons hm h.toCourse with
    leads := h.leads
    hooked := fun m' hm' => ?_
    goesOn := h.goesOn
    raised := fun payload heq => ?_
    unwound := fun m' hm' payload hp' => ?_ }
  · rcases List.mem_cons.1 hm' with rfl | hm'
    · exact hhook
    · exact h.hooked m' hm'
  · obtain ⟨m', hm', hp'⟩ := h.raised payload heq
    exact ⟨m', List.mem_cons_of_mem _ hm', hp'⟩
  · rcases List.mem_cons.1 hm' with rfl | hm'
    · rw [hcalm] at hp'
      cases hp'
    · exact h.unwound m' hm' payload hp'

/-- The moments of a part whose panics are caught. -/
theorem shield {step : EngineM α} (h : Passage e l (runFrom step e)) :
    Passage e (l.map Moment.shield) (runFrom (EngineM.attempt step) e) := by
  have hrun : runFrom (EngineM.attempt step) e =
    (.ok (runFrom step e).1, (runFrom step e).2) := runFrom_lift_run step e
  rw [hrun]
  refine {
    sound := h.sound
    spans := h.spans
    progress := h.progress
    moments := fun m hm => ?_
    idle := fun m hm hhook => ?_
    ordered := List.pairwise_map.2 h.ordered
    leads := h.leads
    hooked := fun m hm => ?_
    goesOn := fun heq => by cases heq
    raised := fun payload heq => by cases heq
    unwound := fun m hm payload hp => ?_ }
  · obtain ⟨m', hm', rfl⟩ := List.mem_map.1 hm
    obtain ⟨⟨hs, hroom⟩, hrest⟩ := h.moments m' hm'
    exact ⟨⟨hs, hroom⟩, hrest⟩
  · obtain ⟨m', hm', rfl⟩ := List.mem_map.1 hm
    exact h.idle m' hm' hhook
  · obtain ⟨m', hm', rfl⟩ := List.mem_map.1 hm
    exact h.hooked m' hm'
  · obtain ⟨m', -, rfl⟩ := List.mem_map.1 hm
    rw [Moment.raised?_shield] at hp
    cases hp

end Passage

/-! ## Merges -/

section Merges

variable {depth : Nat} {inner : String → Engine → List Moment}
  (hinner : ∀ name e, e.Sound → e.vacantTypes ≤ depth →
    Passage e (inner name e) (runFrom (EngineM.composeWithin depth name) e))

include hinner

theorem passage_consult (c : Consultation) {e : Engine} (hs : e.Sound)
    (hd : e.vacantTypes ≤ depth) :
    Passage e (Trail.consult depth inner c e)
      (runFrom (EngineM.consult (EngineM.composeWithin depth) c) e) := by
  have hm {c : Consultation} {e : Engine} (hs : e.Sound) (hd : e.vacantTypes ≤ depth) :
      ({ engine := e, depth, hook := some c } : Moment).Sound := ⟨hs, hd⟩
  induction c generalizing e with
  | answer keep => exact .cons (hm hs hd) (by simp) rfl (.pure hs keep)
  | panic payload =>
    refine { Course.cons (hm hs hd) (.nil hs (.refl e)) with
      leads := .refl e
      hooked := fun m hmem => ?_
      goesOn := fun h => by cases h
      raised := fun payload' h => ?_
      unwound := fun m hmem payload' hp => ?_ }
    · rw [List.mem_singleton.1 hmem]
      simp
    · cases h
      exact ⟨_, List.mem_singleton_self _, rfl⟩
    · rw [List.mem_singleton.1 hmem] at hp ⊢
      cases hp
      exact ⟨rfl, [], (List.append_nil _).symm, rfl⟩
  | compose name next ih =>
    refine .cons (hm hs hd) (by simp) rfl ?_
    refine (hinner name e hs hd).bind fun outcome e₁ hrun => ?_
    have h₁ := hinner name e hs hd
    rw [hrun] at h₁
    exact ih outcome h₁.sound (h₁.leads.vacantTypes_le.trans hd)
  | attempt name next ih =>
    rw [Trail.consult, EngineM.consult]
    refine .cons (hm hs hd) (by simp) rfl ?_
    -- the hook goes on whatever the composition raises, except after an abort
    have h := (hinner name e hs hd).shield
    refine h.bind fun exit e₁ hrun => ?_
    have hexit : exit = (runFrom (EngineM.composeWithin depth name) e).1 := by
      cases hrun
      rfl
    rw [hrun] at h
    have hs₁ := h.sound
    have hd₁ := h.leads.vacantTypes_le.trans hd
    rcases exit with (payload | _) | outcome
    · exact ih _ hs₁ hd₁
    · exact absurd hexit.symm (hinner name e hs hd).goesOn
    · exact ih _ hs₁ hd₁
  | observe name next ih =>
    exact .cons (hm hs hd) (by simp) rfl (ih _ hs hd)
  | note n next ih =>
    refine .cons (hm hs hd) (by simp) rfl ?_
    have hq : e.Quiet { e with notes := e.notes ++ [n] } := ⟨rfl, rfl, rfl, rfl, fun _ => rfl⟩
    exact .silent_bind hs hq rfl (ih (hq.sound hs) hd)
  | «recall» next ih =>
    exact .cons (hm hs hd) (by simp) rfl (ih _ hs hd)

theorem passage_askHook (t : AdoptingType) (hook : Hook) (s : Signature) (c : Candidate)
    {e : Engine} (hs : e.Sound) (hd : e.vacantTypes ≤ depth) :
    Passage e
      (Trail.consult depth inner (hook.ask s.level c.origin s)
        { e with questions := e.questions ++ [⟨t.name, s.level, c.origin, s⟩] })
      (runFrom (EngineM.askHook (EngineM.composeWithin depth) t hook s c) e) := by
  have hq : e.Quiet { e with questions := e.questions ++ [⟨t.name, s.level, c.origin, s⟩] } :=
    ⟨rfl, rfl, rfl, rfl, fun _ => rfl⟩
  have h := passage_consult hinner (hook.ask s.level c.origin s) (hq.sound hs) hd
  refine .silent_bind hs hq rfl (h.bind_silent fun keep e₁ hrun => ?_)
  rw [hrun] at h
  cases keep with
  | true => exact .pure h.sound true
  | false =>
    have hq₁ : e₁.Quiet (e₁.logged (.candidateVetoed t.name c.origin s)) :=
      ⟨rfl, rfl, rfl, rfl, fun _ => Engine.starts_logged _ _ _⟩
    exact .of_quiet h.sound hq₁ rfl

theorem passage_keepCandidates (t : AdoptingType) (hook : Hook) (s : Signature)
    (cs : List Candidate) {e : Engine} (hs : e.Sound) (hd : e.vacantTypes ≤ depth) :
    Passage e (Trail.keepCandidates depth inner t hook s cs e)
      (runFrom (EngineM.keepCandidates (EngineM.composeWithin depth) t hook s cs) e) := by
  induction cs generalizing e with
  | nil => exact .pure hs []
  | cons c cs ih =>
    have h := passage_askHook hinner t hook s c hs hd
    refine h.bind fun keep e₁ hrun => ?_
    rw [hrun] at h
    have h₁ := ih h.sound (h.leads.vacantTypes_le.trans hd)
    refine h₁.bind_silent fun kept e₂ hrun' => ?_
    rw [hrun'] at h₁
    exact .pure h₁.sound _

theorem passage_settleSignature (t : AdoptingType) (tally : Tally)
    (offer : Signature × List Candidate) {e : Engine} (hs : e.Sound)
    (hd : e.vacantTypes ≤ depth) :
    Passage e (Trail.resolve depth inner t offer.1 offer.2 e)
      (runFrom (EngineM.settleSignature (EngineM.composeWithin depth) t tally offer) e) := by
  have h : Passage e (Trail.resolve depth inner t offer.1 offer.2 e)
      (runFrom (EngineM.resolve (EngineM.composeWithin depth) t offer.1 offer.2) e) := by
    unfold Trail.resolve EngineM.resolve
    cases t.veto with
    | none => exact .pure hs _
    | some hook =>
      have h := passage_keepCandidates hinner t hook offer.1 offer.2 hs hd
      refine h.bind_silent fun kept e₁ hrun => ?_
      rw [hrun] at h
      exact .pure h.sound _
  refine h.bind_silent fun decision e₁ hrun => ?_
  rw [hrun] at h
  rcases decision with c | _ | cs
  · exact .pure h.sound _
  · exact .pure h.sound _
  · have hq : e₁.Quiet (e₁.logged (.conflictDetected (.type t.name) offer.1
        (RoleId.sort (cs.map Candidate.origin)))) :=
      ⟨rfl, rfl, rfl, rfl, fun _ => Engine.starts_logged _ _ _⟩
    exact .of_quiet h.sound hq rfl

theorem passage_settleOffers (t : AdoptingType) (offers : List (Signature × List Candidate))
    (tally : Tally) {e : Engine} (hs : e.Sound) (hd : e.vacantTypes ≤ depth) :
    Passage e (Trail.settleOffers depth inner t offers tally e)
      (runFrom
        (offers.foldlM (EngineM.settleSignature (EngineM.composeWithin depth) t) tally) e) := by
  induction offers generalizing tally e with
  | nil => exact .pure hs tally
  | cons offer offers ih =>
    have h := passage_settleSignature hinner t tally offer hs hd
    rw [List.foldlM_cons]
    refine h.bind fun tally' e₁ hrun => ?_
    rw [hrun] at h
    exact ih tally' h.sound (h.leads.vacantTypes_le.trans hd)

theorem passage_mergeTable (t : AdoptingType) {e : Engine} (hs : e.Sound)
    (hd : e.vacantTypes ≤ depth) :
    Passage e (Trail.mergeTable depth inner t e)
      (runFrom (EngineM.mergeTable (EngineM.composeWithin depth) t).run e) := by
  obtain ⟨reg', hfill, hgather, hrun⟩ :=
    runFrom_mergeTable (EngineM.composeWithin depth) t hs.registry
  have hs₁ := hs.of_fills hfill
  have hlead := Engine.leads_of_fills hfill
  unfold Trail.mergeTable Trail.after
  rw [hgather, hrun]
  cases e.registry.check e.config t with
  | error error => exact .of_leads hs₁ hlead rfl
  | ok _ =>
    have h : Passage _ _ (runFrom (EngineM.settleAll (EngineM.composeWithin depth) t
        (e.registry.offersTo t)) { e with registry := reg' }) :=
      passage_settleOffers hinner t (e.registry.offersTo t).toList (Tally.ofOwn t) hs₁
        (hlead.vacantTypes_le.trans hd)
    refine .of_leads_trans hs₁ hlead (h.bind_silent fun tally e₁ hrun' => ?_)
    rw [hrun'] at h
    have hq : e₁.Quiet (e₁.countTally tally) := ⟨rfl, rfl, rfl, rfl, fun _ => rfl⟩
    exact .of_quiet h.sound hq rfl

end Merges

/-! ## Compositions -/

section Compositions

variable {e e₁ : Engine} {name : String} {t : TypeEntry} {l : List Moment}

/-- What the merge of a table has come to can be the outcome of its type. -/
theorem settles_of_mergeTable {compose : String → EngineM Outcome} {outcome : Outcome}
    (hs : e.Sound) (t : AdoptingType) (h : e.Leads e₁)
    (hrun : runFrom (EngineM.mergeTable compose t).run e = (.ok outcome, e₁)) :
    e₁.registry.Settles e₁.config t outcome := by
  rw [Registry.settles_congr h.definitions, h.config]
  refine .inr ⟨fun error herror => ?_, fun keep hkeep => ?_⟩
  · rw [herror] at hrun
    exact isFound_of_mergeTable hs.registry hrun
  · exact outcome_of_mergeTable hs.registry hkeep hrun

theorem progress_close (hs : e.Sound) (hspans : name ∈ e.spans) (outcome : Outcome) :
    e.Progress (e.close name outcome) := by
  refine ⟨rfl, rfl, fun b t ht => ?_⟩
  have hfind := Engine.find?_close e name outcome b
  rw [ht] at hfind
  refine ⟨_, hfind, ?_⟩
  split_ifs with hb
  · have hrunning := (hs.running name).1 hspans
    rw [← hb, Engine.slotOf_of_find? ht] at hrunning
    rw [hrunning]
    exact ⟨rfl, .finish outcome⟩
  · exact ⟨rfl, .same _⟩

/-- Leaving the merge of a vacant type with an outcome, up to what is logged and counted, ends what
entering it has begun. -/
theorem course_close {e₂ : Engine} {outcome : Outcome} (hs : e.Sound)
    (ht : e.find? name = some t) (hv : t.slot = .vacant)
    (h : Course (e.enter t.definition) l e₁) (hlead : (e.enter t.definition).Leads e₁)
    (hhooked : ∀ m ∈ l, m.hook ≠ none)
    (ho : e₁.registry.Settles e₁.config t.definition outcome)
    (hq : (e₁.close name outcome).Quiet e₂) : Course e l e₂ ∧ e.Leads e₂ := by
  have henter := Engine.progress_enter ht hv
  have hspans : e₁.spans = e.spans ++ [name] := by
    rw [h.spans, ← Engine.name_of_find? ht]
    rfl
  have hmem : name ∈ e₁.spans := by
    rw [hspans]
    simp
  obtain ⟨t₁, ht₁, hdef, -⟩ := (henter.trans h.progress).types name t ht
  have hsound := h.sound.close hspans ht₁ (hdef.symm ▸ ho)
  have hleads := (Engine.leads_close ht hv hs hlead outcome).trans hq.leads
  have hprogress := (progress_close h.sound hmem outcome).trans hq.leads.progress
  refine ⟨⟨hq.sound hsound, hleads.spans, hleads.progress, fun m hm => ?_,
    fun m hm hhook => absurd hhook (hhooked m hm), h.ordered⟩, hleads⟩
  obtain ⟨hms, hem, hme⟩ := h.moments m hm
  exact ⟨hms, henter.trans hem, hme.trans hprogress⟩

/-- What lies between entering the merge of a vacant type and leaving it. -/
theorem passage_afterMerge (hs : e.Sound) (ht : e.find? name = some t) (hv : t.slot = .vacant)
    {run : Except Halt Outcome × Engine} (h : Passage (e.enter t.definition) l run)
    (hsettles : ∀ outcome e₁, run = (.ok outcome, e₁) →
      e₁.registry.Settles e₁.config t.definition outcome) :
    Passage e l (Engine.afterMerge name run) := by
  have hname := Engine.name_of_find? ht
  obtain ⟨exit, e₁⟩ := run
  rcases exit with (payload | _) | outcome
  · have ho : e₁.registry.Settles e₁.config t.definition
        (.error (Engine.panicError payload name)) := .inl ⟨payload, by rw [hname]; rfl⟩
    obtain ⟨hcourse, hlead⟩ := course_close hs ht hv h.toCourse h.leads h.hooked ho
      (Engine.quiet_unwind e₁ payload name)
    refine { hcourse with
      leads := hlead
      hooked := h.hooked
      goesOn := fun heq => by cases heq
      raised := fun payload' heq => h.raised payload' (by cases heq; rfl)
      unwound := fun m hm payload' hp => ?_ }
    -- the panic leaves the merges within this one first, and then this one
    obtain ⟨heq, names, hspans, hend⟩ := h.unwound m hm payload' hp
    cases heq
    refine ⟨rfl, name :: names, ?_, ?_⟩
    · rw [hspans, show (e.enter t.definition).spans = e.spans ++ [t.definition.name] from rfl,
        hname, List.append_assoc]
      rfl
    · show e₁.unwind payload name = _
      rw [show e₁ = m.engine.unwindAll payload names from hend]
      rfl
  · exact absurd rfl h.goesOn
  · obtain ⟨hcourse, hlead⟩ := course_close hs ht hv h.toCourse h.leads h.hooked
      (hsettles outcome e₁ rfl) (Engine.quiet_leave e₁ name outcome)
    exact { hcourse with
      leads := hlead
      hooked := h.hooked
      goesOn := fun heq => by cases heq
      raised := fun payload heq => by cases heq
      unwound := fun m hm payload hp => by cases (h.unwound m hm payload hp).1 }

/-- A vacant type leaves room for one more composition. -/
theorem Engine.vacantTypes_pos (ht : e.find? name = some t) (hv : t.slot = .vacant) :
    0 < e.vacantTypes :=
  List.countP_pos_iff.2 ⟨t, Engine.mem_of_find? ht, by rw [hv]; rfl⟩

/-- A composition is a passage, however its hooks compose further types. -/
theorem passage_composeWithin (depth : Nat) (name : String) (e : Engine) (hs : e.Sound)
    (hd : e.vacantTypes ≤ depth) :
    Passage e (Trail.compose depth name e) (runFrom (EngineM.composeWithin depth name) e) := by
  induction depth generalizing name e with
  | zero =>
    cases hanswer : e.answer? name with
    | some outcome =>
      rw [trail_compose_of_answer hanswer]
      exact .of_leads hs (.refl e) (runFrom_composeWithin_of_answer hanswer 0)
    | none =>
      obtain ⟨t, ht, hv⟩ := answer?_eq_none.1 hanswer
      have hpos := Engine.vacantTypes_pos ht hv
      omega
  | succ depth ih =>
    cases hanswer : e.answer? name with
    | some outcome =>
      rw [trail_compose_of_answer hanswer]
      exact .of_leads hs (.refl e) (runFrom_composeWithin_of_answer hanswer (depth + 1))
    | none =>
      obtain ⟨t, ht, hv⟩ := answer?_eq_none.1 hanswer
      -- entering the merge takes one type from those that are vacant, as the bound goes down by one
      have hroom := Engine.vacantTypes_enter ht hv
      have h := passage_mergeTable ih t.definition (hs.enter ht hv) (by omega)
      have hspans := h.spans
      rw [show (e.enter t.definition).spans = e.spans ++ [t.definition.name] from rfl,
        Engine.name_of_find? ht] at hspans
      rw [trail_compose ht hv, runFrom_composeWithin ht hv hspans]
      refine passage_afterMerge hs ht hv h fun outcome e₁ hrun => ?_
      rw [hrun] at h
      exact settles_of_mergeTable (hs.enter ht hv) t.definition h.leads hrun

end Compositions

end RoleComposition
