import RoleComposition.Proofs.Passages

/-!
# Calm hooks

Whether a composition is disturbed by a panic can be told from the hooks as they are written. If
the hook of a type does not panic, and composes only types of which the same holds unless it would
catch their panics, then no panic is raised while that type is composed, whatever the engine has
gone through before. Main statement: `raised?_of_calm`.
-/

namespace RoleComposition

/-- The consultation does not panic, and composes only calm types unless it would catch their
panics. -/
def Consultation.Calm (calm : String → Prop) : Consultation → Prop
  | .answer _ => True
  | .panic _ => False
  | .compose name next => calm name ∧ ∀ outcome, (next outcome).Calm calm
  | .attempt _ next => ∀ exit, (next exit).Calm calm
  | .observe _ next => ∀ seen, (next seen).Calm calm
  | .note _ next => next.Calm calm
  | .recall next => ∀ notes, (next notes).Calm calm

/-- The type has no hook, or a hook that is calm. -/
def AdoptingType.Calm (t : AdoptingType) (calm : String → Prop) : Prop :=
  ∀ hook, t.veto = some hook → ∀ role s, (hook.opening role s).Calm calm

/-- A sound engine with room for a composition, the calm types of which have calm hooks. -/
structure Engine.Calm (e : Engine) (depth : Nat) (calm : String → Prop) : Prop where
  sound : e.Sound
  room : e.vacantTypes ≤ depth
  hooks : ∀ name t, e.find? name = some t → calm name → t.definition.Calm calm

namespace Engine.Calm

variable {e e₁ : Engine} {depth : Nat} {calm : String → Prop}

theorem of_leads (h : e.Calm depth calm) (hs : e₁.Sound) (hlead : e.Leads e₁) :
    e₁.Calm depth calm := by
  refine ⟨hs, hlead.vacantTypes_le.trans h.room, fun name t₁ ht₁ hcalm => ?_⟩
  have hrel := hlead.find? name
  rw [ht₁] at hrel
  cases ht : e.find? name with
  | none =>
    rw [ht] at hrel
    cases hrel
  | some t =>
    rw [ht] at hrel
    cases hrel with
    | some hlead =>
      rw [hlead.definition]
      exact h.hooks name t ht hcalm

theorem of_quiet (h : e.Calm depth calm) (hq : e.Quiet e₁) : e₁.Calm depth calm :=
  h.of_leads (hq.sound h.sound) hq.leads

/-- Entering the merge of a vacant type takes up the room of one composition. -/
theorem enter {name : String} {t : TypeEntry} (h : e.Calm (depth + 1) calm)
    (ht : e.find? name = some t) (hv : t.slot = .vacant) :
    (e.enter t.definition).Calm depth calm := by
  have hroom := h.room
  have henter := Engine.vacantTypes_enter ht hv
  refine ⟨h.sound.enter ht hv, by omega, fun name' t' ht' hcalm => ?_⟩
  rw [Engine.find?_enter] at ht'
  obtain ⟨t₀, ht₀, heq⟩ := Option.map_eq_some_iff.1 ht'
  have hdef : t'.definition = t₀.definition := by
    rw [← heq]
    split_ifs <;> rfl
  rw [hdef]
  exact h.hooks name' t₀ ht₀ hcalm

end Engine.Calm

/-! ## Steps without a panic -/

section Steps

variable {depth : Nat} {calm : String → Prop} {e : Engine} {inner : String → Engine → List Moment}

/-- What follows a step is calm if it is calm from wherever the step can have come to. -/
theorem raised?_of_mem_after {α : Type} {step : EngineM α} {trail : α → Engine → List Moment}
    {l : List Moment} (h : e.Calm depth calm) (hp : Passage e l (runFrom step e))
    (htrail : ∀ a e₁, e₁.Calm depth calm → ∀ m ∈ trail a e₁, m.raised? = none) :
    ∀ m ∈ Trail.after step trail e, m.raised? = none := by
  intro m hm
  unfold Trail.after at hm
  rcases hrun : runFrom step e with ⟨halt | a, e₁⟩
  · rw [hrun] at hm
    exact absurd hm List.not_mem_nil
  · rw [hrun] at hm hp
    exact htrail a e₁ (h.of_leads hp.sound hp.leads) m hm

variable
  (hinner : ∀ name e, e.Sound → e.vacantTypes ≤ depth →
    Passage e (inner name e) (runFrom (EngineM.composeWithin depth name) e))
  (hcalm : ∀ name e, Engine.Calm e depth calm → calm name → ∀ m ∈ inner name e, m.raised? = none)

include hinner hcalm

theorem raised?_of_mem_consult {c : Consultation} (h : e.Calm depth calm) (hc : c.Calm calm) :
    ∀ m ∈ Trail.consult depth inner c e, m.raised? = none := by
  induction c generalizing e with
  | answer keep =>
    intro m hm
    rw [List.mem_singleton.1 hm]
    rfl
  | panic payload => exact False.elim hc
  | compose name next ih =>
    refine List.forall_mem_cons.2 ⟨rfl, List.forall_mem_append.2 ⟨?_, ?_⟩⟩
    · exact hcalm name e h hc.1
    · exact raised?_of_mem_after h (hinner name e h.sound h.room) fun outcome e₁ h₁ =>
        ih outcome h₁ (hc.2 outcome)
  | attempt name next ih =>
    rw [Trail.consult]
    refine List.forall_mem_cons.2 ⟨rfl, List.forall_mem_append.2 ⟨fun m hm => ?_, ?_⟩⟩
    · obtain ⟨m', -, rfl⟩ := List.mem_map.1 hm
      exact Moment.raised?_shield m'
    · refine raised?_of_mem_after h (hinner name e h.sound h.room).shield fun exit e₁ h₁ => ?_
      rcases exit with (payload | _) | outcome
      · exact ih _ h₁ (hc _)
      · exact List.forall_mem_nil _
      · exact ih _ h₁ (hc _)
  | observe name next ih => exact List.forall_mem_cons.2 ⟨rfl, ih _ h (hc _)⟩
  | note n next ih =>
    have hq : e.Quiet { e with notes := e.notes ++ [n] } := ⟨rfl, rfl, rfl, rfl, fun _ => rfl⟩
    exact List.forall_mem_cons.2 ⟨rfl, ih (h.of_quiet hq) hc⟩
  | «recall» next ih => exact List.forall_mem_cons.2 ⟨rfl, ih _ h (hc _)⟩

theorem raised?_of_mem_keepCandidates {t : AdoptingType} {hook : Hook} {s : Signature}
    (cs : List Candidate) (h : e.Calm depth calm)
    (hc : ∀ role, (hook.opening role s).Calm calm) :
    ∀ m ∈ Trail.keepCandidates depth inner t hook s cs e, m.raised? = none := by
  induction cs generalizing e with
  | nil => exact List.forall_mem_nil _
  | cons c cs ih =>
    have hq : e.Quiet { e with questions := e.questions ++ [⟨t.name, s.level, c.origin, s⟩] } :=
      ⟨rfl, rfl, rfl, rfl, fun _ => rfl⟩
    refine List.forall_mem_append.2 ⟨?_, ?_⟩
    · rw [Hook.ask_level]
      exact raised?_of_mem_consult hinner hcalm (h.of_quiet hq) (hc c.origin)
    · exact raised?_of_mem_after h (passage_askHook hinner t hook s c h.sound h.room)
        fun keep e₁ h₁ => ih h₁

theorem raised?_of_mem_settleOffers {t : AdoptingType}
    (offers : List (Signature × List Candidate)) (tally : Tally) (h : e.Calm depth calm)
    (ht : t.Calm calm) :
    ∀ m ∈ Trail.settleOffers depth inner t offers tally e, m.raised? = none := by
  induction offers generalizing tally e with
  | nil => exact List.forall_mem_nil _
  | cons offer offers ih =>
    refine List.forall_mem_append.2 ⟨?_, ?_⟩
    · unfold Trail.resolve
      cases hveto : t.veto with
      | none => exact List.forall_mem_nil _
      | some hook =>
        exact raised?_of_mem_keepCandidates hinner hcalm offer.2 h fun role =>
          ht hook hveto role offer.1
    · exact raised?_of_mem_after h (passage_settleSignature hinner t tally offer h.sound h.room)
        fun tally' e₁ h₁ => ih tally' h₁

theorem raised?_of_mem_mergeTable {t : AdoptingType} (h : e.Calm depth calm) (ht : t.Calm calm) :
    ∀ m ∈ Trail.mergeTable depth inner t e, m.raised? = none := by
  obtain ⟨reg', hfill, hgather, -⟩ :=
    runFrom_mergeTable (EngineM.composeWithin depth) t h.sound.registry
  unfold Trail.mergeTable Trail.after
  rw [hgather]
  cases e.registry.check e.config t with
  | error error => exact List.forall_mem_nil _
  | ok _ =>
    exact raised?_of_mem_settleOffers hinner hcalm _ _
      (h.of_leads (h.sound.of_fills hfill) (Engine.leads_of_fills hfill)) ht

end Steps

/-- No panic is raised while a calm type is composed. -/
theorem raised?_of_calm {calm : String → Prop} (depth : Nat) (name : String) (e : Engine)
    (h : e.Calm depth calm) (hname : calm name) :
    ∀ m ∈ Trail.compose depth name e, m.raised? = none := by
  -- a merge takes up room for one composition, so the room bounds how deep merges are nested
  induction depth generalizing name e with
  | zero => exact List.forall_mem_nil _
  | succ depth ih =>
    cases hanswer : e.answer? name with
    | some outcome =>
      rw [trail_compose_of_answer hanswer]
      exact List.forall_mem_nil _
    | none =>
      obtain ⟨t, ht, hv⟩ := answer?_eq_none.1 hanswer
      rw [trail_compose ht hv]
      exact raised?_of_mem_mergeTable (passage_composeWithin depth) ih (h.enter ht hv)
        (h.hooks name t ht hname)

end RoleComposition
