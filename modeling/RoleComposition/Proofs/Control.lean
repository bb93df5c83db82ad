import RoleComposition.Proofs.Consultations

/-!
# Who is in control

Whenever a hook has control, it is the hook of a type whose merge is under way, and what it does
next is what its program comes to from one of its two entry points: from the one for the last
question that the type's hook has been put. Main statement: `attended_of_mem_history`.
-/

namespace RoleComposition

/-- A hook that starts in one way may go on in the other one, after what it has been answered
meanwhile. -/
inductive Consultation.LeadsTo (start : Consultation) : Consultation → Prop
  | refl : LeadsTo start start
  | compose {name : String} {next : Outcome → Consultation} (outcome : Outcome) :
      LeadsTo start (.compose name next) → LeadsTo start (next outcome)
  | attempt {name : String} {next : Except Panic Outcome → Consultation}
      (exit : Except Panic Outcome) :
      LeadsTo start (.attempt name next) → LeadsTo start (next exit)
  | observe {name : String} {next : Except CompositionError Observation → Consultation}
      (seen : Except CompositionError Observation) :
      LeadsTo start (.observe name next) → LeadsTo start (next seen)
  | note {n : Note} {next : Consultation} : LeadsTo start (.note n next) → LeadsTo start next
  | recall {next : List Note → Consultation} (notes : List Note) :
      LeadsTo start (.recall next) → LeadsTo start (next notes)

/-- What the hook in control does next comes from the entry point for a question: the last one that
was put to the hook of a type, the merge of which is under way. -/
structure Moment.Attends (m : Moment) (c : Consultation) (t : TypeEntry) (hook : Hook)
    (q : Question) : Prop where
  entry : m.engine.find? t.definition.name = some t
  running : t.slot = .running
  veto : t.definition.veto = some hook
  last : (m.engine.questionsOf t.definition.name).getLast? = some q
  leads : (hook.opening q.role q.signature).LeadsTo c

/-- Whatever the hook in control does at a moment, it attends to a question. -/
def Moment.Attended (m : Moment) : Prop :=
  ∀ c, m.hook = some c → ∃ t hook q, m.Attends c t hook q

/-- The engine has an entry. -/
structure Engine.Hosts (e : Engine) (t : TypeEntry) : Prop where
  sound : e.registry.Sound
  entry : e.find? t.definition.name = some t

namespace Engine

/-- While the merge of a type is under way, the merges of other types leave its entry as it is. -/
theorem lasting_hosts {t : TypeEntry} (ht : t.slot ≠ .vacant) :
    Lasting (fun e => e.Hosts t) fun other => other.name ≠ t.definition.name where
  sound := fun _ h => h.sound
  fills := fun _ _ h hfill => ⟨hfill.sound h.sound, h.entry⟩
  starts := fun e name other h hother hv hname => by
    -- the entry that is started would be this one, which is not vacant
    have hself := name_of_find? hother ▸ hother
    rw [hname, h.entry] at hself
    cases hself
    exact ht hv
  advances := fun e other f h hne hf => by
    refine ⟨h.sound, ?_⟩
    rw [find?_updateEntry hf.definition, h.entry]
    simp [hne.symm]
  asks := fun _ _ _ _ h _ _ => ⟨h.sound, h.entry⟩
  records := fun e e' h hreg _ htypes _ => by
    refine ⟨hreg ▸ h.sound, ?_⟩
    unfold find?
    rw [htypes]
    exact h.entry
  declares := fun e other h _ => by
    refine ⟨h.sound, ?_⟩
    rw [find?_adding, h.entry]
    rfl

end Engine

/-! ## Along a trail -/

theorem forall_mem_after {α : Type} {P : Moment → Prop} {step : EngineM α}
    {trail : α → Engine → List Moment} {e : Engine}
    (h : ∀ a e₁, runFrom step e = (.ok a, e₁) → ∀ m ∈ trail a e₁, P m) :
    ∀ m ∈ Trail.after step trail e, P m := by
  unfold Trail.after
  rcases hrun : runFrom step e with ⟨halt | a, e₁⟩
  · exact List.forall_mem_nil _
  · exact h a e₁ hrun

section Steps

variable {depth : Nat} {t : TypeEntry} {hook : Hook} {e : Engine}
  (hinner : ∀ name e, e.registry.Sound → ∀ m ∈ Trail.compose depth name e, m.Attended)
  (hrunning : t.slot = .running)

include hrunning

theorem kept_hosts (name : String) (he : e.Hosts t) :
    Kept (fun e => e.Hosts t) (Trail.compose depth name e)
      (runFrom (EngineM.composeWithin depth name) e) :=
  kept_composeWithin depth (Engine.lasting_hosts (by rw [hrunning]; simp)) name he

include hinner

/-- While a hook is busy with a question, it goes on from the entry point for it, and the hooks of
what it composes attend to questions of their own. -/
theorem attended_of_mem_consult (hveto : t.definition.veto = some hook) {q : Question}
    (c : Consultation) (hc : (hook.opening q.role q.signature).LeadsTo c)
    (he : e.Hosts t)
    (hlast : (e.questionsOf t.definition.name).getLast? = some q) :
    ∀ m ∈ Trail.consult depth (Trail.compose depth) c e, m.Attended := by
  -- the moment before the next thing that the hook does
  have hown {e : Engine} {c : Consultation} (hc : (hook.opening q.role q.signature).LeadsTo c)
      (he : e.Hosts t)
      (hlast : (e.questionsOf t.definition.name).getLast? = some q) :
      ({ engine := e, depth, hook := some c } : Moment).Attended := fun c' hc' => by
    cases hc'
    exact ⟨t, hook, q, he.entry, hrunning, hveto, hlast, hc⟩
  -- what it composes leaves its entry and its last question as they are
  have hkept {e : Engine} (name : String) (he : e.Hosts t)
      (hlast : (e.questionsOf t.definition.name).getLast? = some q) :
      (runFrom (EngineM.composeWithin depth name) e).2.Hosts t ∧
        ((runFrom (EngineM.composeWithin depth name) e).2.questionsOf
          t.definition.name).getLast? = some q := by
    have hslot := (Engine.slotOf_of_find? he.entry).trans hrunning
    have hasked := kept_composeWithin depth (Engine.lasting_questionsOf t.definition.name
      (show Slot.running ≠ .vacant by simp) (e.questionsOf t.definition.name)) name
      ⟨he.sound, hslot, rfl⟩
    exact ⟨(kept_hosts hrunning name he).last, hasked.last.2.2.symm ▸ hlast⟩
  induction c generalizing e with
  | answer keep => exact List.forall_mem_singleton.2 (hown hc he hlast)
  | panic payload => exact List.forall_mem_singleton.2 (hown hc he hlast)
  | compose name next ih =>
    refine List.forall_mem_cons.2 ⟨hown hc he hlast, List.forall_mem_append.2
      ⟨hinner name e he.sound, forall_mem_after fun outcome e₁ hrun => ?_⟩⟩
    have h₁ := hkept name he hlast
    rw [hrun] at h₁
    exact ih outcome (hc.compose outcome) h₁.1 h₁.2
  | attempt name next ih =>
    rw [Trail.consult]
    refine List.forall_mem_cons.2 ⟨hown hc he hlast, List.forall_mem_append.2
      ⟨fun m hm => ?_, forall_mem_after fun exit e₁ hrun => ?_⟩⟩
    · obtain ⟨m', hm', rfl⟩ := List.mem_map.1 hm
      intro c' hc'
      obtain ⟨t', hook', q', h'⟩ := hinner name e he.sound m' hm' c' hc'
      exact ⟨t', hook', q', h'.entry, h'.running, h'.veto, h'.last, h'.leads⟩
    · have h₁ := hkept name he hlast
      rw [show (runFrom (EngineM.composeWithin depth name) e).2 = e₁ from congrArg Prod.snd hrun]
        at h₁
      rcases exit with (payload | _) | outcome
      · exact ih _ (hc.attempt _) h₁.1 h₁.2
      · exact List.forall_mem_nil _
      · exact ih _ (hc.attempt _) h₁.1 h₁.2
  | observe name next ih =>
    exact List.forall_mem_cons.2 ⟨hown hc he hlast, ih _ (hc.observe _) he hlast⟩
  | note n next ih =>
    exact List.forall_mem_cons.2 ⟨hown hc he hlast, ih hc.note ⟨he.sound, he.entry⟩ hlast⟩
  | «recall» next ih =>
    exact List.forall_mem_cons.2 ⟨hown hc he hlast, ih _ (hc.recall _) he hlast⟩

theorem attended_of_mem_keepCandidates (hveto : t.definition.veto = some hook) (s : Signature)
    (cs : List Candidate) (he : e.Hosts t) :
    ∀ m ∈ Trail.keepCandidates depth (Trail.compose depth) t.definition hook s cs e,
      m.Attended := by
  have hlasting := Engine.lasting_hosts (t := t) (by rw [hrunning]; simp)
  induction cs generalizing e with
  | nil => exact List.forall_mem_nil _
  | cons c cs ih =>
    refine List.forall_mem_append.2 ⟨?_, forall_mem_after fun keep e₁ hrun => ih ?_⟩
    · rw [Hook.ask_level]
      refine attended_of_mem_consult hinner hrunning hveto _
        (q := ⟨t.definition.name, s.level, c.origin, s⟩) .refl
        ⟨he.sound, he.entry⟩ ?_
      rw [Engine.questionsOf_ask, if_pos rfl, List.getLast?_concat]
    · have hask : Kept (fun e => e.Hosts t) _
          (runFrom (EngineM.askHook (EngineM.composeWithin depth) t.definition hook s c) e) :=
        kept_askHook hlasting.merging (fun name e₁ _ h₁ => kept_hosts hrunning name h₁)
          (fun _ _ _ h => ⟨h.sound, h.entry⟩) (fun _ _ _ _ _ _ => trivial) hveto s c he
      rw [hrun] at hask
      exact hask.last

theorem attended_of_mem_settleOffers (offers : List (Signature × List Candidate)) (tally : Tally)
    (he : e.Hosts t) :
    ∀ m ∈ Trail.settleOffers depth (Trail.compose depth) t.definition offers tally e,
      m.Attended := by
  have hlasting := Engine.lasting_hosts (t := t) (by rw [hrunning]; simp)
  induction offers generalizing tally e with
  | nil => exact List.forall_mem_nil _
  | cons offer offers ih =>
    refine List.forall_mem_append.2 ⟨?_, forall_mem_after fun tally' e₁ hrun => ih tally' ?_⟩
    · unfold Trail.resolve
      cases hveto : t.definition.veto with
      | none => exact List.forall_mem_nil _
      | some hook =>
        exact attended_of_mem_keepCandidates hinner hrunning hveto offer.1 offer.2 he
    · have hsettle : Kept (fun e => e.Hosts t) _ (runFrom
          (EngineM.settleSignature (EngineM.composeWithin depth) t.definition tally offer) e) :=
        kept_settleSignature hlasting.merging (fun name e₁ _ h₁ => kept_hosts hrunning name h₁)
          (fun _ _ _ h => ⟨h.sound, h.entry⟩) (fun _ _ _ _ _ _ => trivial) tally offer he
      rw [hrun] at hsettle
      exact hsettle.last

theorem attended_of_mem_mergeTable (he : e.Hosts t) :
    ∀ m ∈ Trail.mergeTable depth (Trail.compose depth) t.definition e, m.Attended := by
  obtain ⟨reg', hfill, hgather, -⟩ :=
    runFrom_mergeTable (EngineM.composeWithin depth) t.definition he.sound
  unfold Trail.mergeTable Trail.after
  rw [hgather]
  cases e.registry.check e.config t.definition with
  | error error => exact List.forall_mem_nil _
  | ok _ =>
    exact attended_of_mem_settleOffers hinner hrunning _ _ ⟨hfill.sound he.sound, he.entry⟩

end Steps

/-- Hooks in control attend to questions while a type is composed, however deep they compose. -/
theorem attended_of_mem_compose (depth : Nat) (name : String) (e : Engine)
    (hs : e.registry.Sound) : ∀ m ∈ Trail.compose depth name e, m.Attended := by
  induction depth generalizing name e with
  | zero => exact List.forall_mem_nil _
  | succ depth ih =>
    cases hanswer : e.answer? name with
    | some outcome =>
      rw [trail_compose_of_answer hanswer]
      exact List.forall_mem_nil _
    | none =>
      obtain ⟨t, ht, hv⟩ := answer?_eq_none.1 hanswer
      have hname := Engine.name_of_find? ht
      rw [trail_compose ht hv]
      exact attended_of_mem_mergeTable (t := { t with slot := .running }) ih rfl
        ⟨hs, Engine.find?_enter_self (hname.symm ▸ ht)⟩

theorem attended_between (e : Engine) : (Moment.between e).Attended := fun _ hc => by cases hc

theorem attended_of_mem_firstUses (policy : FailurePolicy) (names : List String) {e : Engine}
    (hs : e.Sound) : ∀ m ∈ Trail.firstUses policy names e, m.Attended := by
  induction names generalizing e with
  | nil => exact List.forall_mem_nil _
  | cons name names ih =>
    refine List.forall_mem_cons.2 ⟨attended_between e, List.forall_mem_append.2
      ⟨attended_of_mem_compose _ name e hs.registry, forall_mem_after fun used e₁ hrun => ih ?_⟩⟩
    have hcourse := course_firstUse hs policy name
    rw [hrun] at hcourse
    exact hcourse.sound

/-- Whenever a hook has control in a run, it attends to a question. -/
theorem attended_of_mem_history (rs : List Request) {e : Engine} (hs : e.Sound) :
    ∀ m ∈ history e rs, m.Attended := by
  induction rs generalizing e with
  | nil => exact List.forall_mem_singleton.2 (attended_between e)
  | cons r rs ih =>
    refine List.forall_mem_cons.2 ⟨attended_between e, List.forall_mem_append.2 ⟨?_, ?_⟩⟩
    · cases r with
      | compose name => exact attended_of_mem_compose _ name e hs.registry
      | firstUse policy name => exact attended_of_mem_compose _ name e hs.registry
      | ensureAll policy => exact attended_of_mem_firstUses policy _ hs
      | declare | closure | state | outcome | effectiveMethods | report | dispatch =>
        exact List.forall_mem_nil _
    · have hcourse := course_step r hs
      rcases hrun : runFrom r.step e with ⟨(payload | _) | _, e₁⟩
      all_goals rw [hrun] at hcourse
      · exact ih hcourse.sound
      · exact List.forall_mem_nil _
      · exact ih hcourse.sound

end RoleComposition
