import RoleComposition.Proofs.Runs

/-!
# What compositions keep

A property of engines that no part of a composition breaks holds at every moment of a run.
`Merging` lists the parts that change no type and ask nothing: filling closures and keeping records.
`Steady` lets records be kept under any types that are being composed, `Lasting` adds starting and
settling types and asking hooks, and `Concerns` does so for a property of one type, whose own
composition is looked at as a whole. Unlike a sound engine, an engine with
such a property may hold any types, so the property can speak of the registry alone. Main
statements: `Lasting.upheld`, `Concerns.upheld`, `kept_step` and `holds_of_mem_history`.
-/

namespace RoleComposition

/-- The consultation may compose a type before it answers. -/
def Consultation.MayCompose (name : String) : Consultation → Prop
  | .answer _ | .panic _ => False
  | .compose name' next => name' = name ∨ ∃ outcome, (next outcome).MayCompose name
  | .attempt name' next => name' = name ∨ ∃ exit, (next exit).MayCompose name
  | .observe _ next => ∃ seen, (next seen).MayCompose name
  | .note _ next => next.MayCompose name
  | .recall next => ∃ notes, (next notes).MayCompose name

/-- A change of entries that keeps their definitions and makes none of them vacant. -/
structure TypeEntry.Advances (f : TypeEntry → TypeEntry) : Prop where
  definition : ∀ t, (f t).definition = t.definition
  started : ∀ t, t.slot ≠ .vacant → (f t).slot ≠ .vacant

/-- A property that filling closures keeps, and so do steps that change nothing but records. -/
structure Engine.Merging (J : Engine → Prop) : Prop where
  sound : ∀ e, J e → e.registry.Sound
  fills : ∀ e reg, J e → e.registry.Fills reg → J { e with registry := reg }
  quiet : ∀ e e', J e → e.Quiet e' → e'.questions = e.questions → J e'

/-- A property that filling closures keeps, and so does whatever leaves the closures, the types and
the questions as they are. -/
structure Engine.Steady (J : Engine → Prop) : Prop where
  sound : ∀ e, J e → e.registry.Sound
  fills : ∀ e reg, J e → e.registry.Fills reg → J { e with registry := reg }
  records : ∀ e e', J e → e'.registry = e.registry → e'.config = e.config → e'.types = e.types →
    e'.questions = e.questions → J e'

/-- A property that each part of a composition keeps. The types whose merges start are such that
`merging` holds of them. -/
structure Engine.Lasting (J : Engine → Prop) (merging : AdoptingType → Prop) : Prop
    extends Steady J where
  starts : ∀ e name t, J e → e.find? name = some t → t.slot = .vacant → merging t.definition
  advances : ∀ e t f, J e → merging t → TypeEntry.Advances f → J (e.updateEntry t.name f)
  asks : ∀ e t role s, J e → merging t → e.slotOf t.name ≠ .vacant →
    J { e with questions := e.questions ++ [⟨t.name, s.level, role, s⟩] }
  declares : ∀ e t, J e → e.find? t.name = none → J (e.adding t)

theorem Engine.Steady.merging {J : Engine → Prop} (h : Steady J) : Merging J :=
  ⟨h.sound, h.fills, fun e e' hJ hq =>
    h.records e e' hJ hq.registry hq.config hq.types⟩

/-- A property holds at the end of a step and at each moment on the way. -/
structure Kept {α : Type} (J : Engine → Prop) (l : List Moment) (run : Except Halt α × Engine) :
    Prop where
  last : J run.2
  moments : ∀ m ∈ l, J m.engine

/-! ## Entries that advance -/

namespace TypeEntry.Advances

theorem setSlot {slot : Slot MethodTable} (h : slot ≠ .vacant) :
    Advances fun t => { t with slot } :=
  ⟨fun _ => rfl, fun _ _ => h⟩

theorem markSettled : Advances fun t => { t with settled := true } :=
  ⟨fun _ => rfl, fun _ h => h⟩

theorem settle (outcome : Outcome) :
    Advances fun t => { t with slot := .settled outcome, settled := true } :=
  ⟨fun _ => rfl, fun _ _ => by simp⟩

/-- A type that has been started stays started. -/
theorem slotOf {f : TypeEntry → TypeEntry} (hf : Advances f) {e : Engine} (name : String)
    {b : String} (h : e.slotOf b ≠ .vacant) : (e.updateEntry name f).slotOf b ≠ .vacant := by
  obtain ⟨t, ht, hslot⟩ := Engine.exists_find?_of_slotOf h
  by_cases hb : b = name
  · subst hb
    rw [Engine.slotOf_updateEntry_self hf.definition ht]
    exact hf.started t (hslot ▸ h)
  · rwa [Engine.slotOf_updateEntry_of_ne hf.definition hb]

end TypeEntry.Advances

theorem Engine.slotOf_congr {e e' : Engine} (h : e'.types = e.types) (name : String) :
    e'.slotOf name = e.slotOf name := by
  unfold slotOf find?
  rw [h]

/-- The type that is being entered is running. -/
theorem Engine.slotOf_enter {e : Engine} {name : String} {t : TypeEntry}
    (ht : e.find? name = some t) : (e.enter t.definition).slotOf t.definition.name = .running := by
  have hname := name_of_find? ht
  subst hname
  exact slotOf_of_find? (find?_enter_self ht)

/-- Together with such a property, a type stays started. -/
theorem Engine.Lasting.started {J : Engine → Prop} {merging : AdoptingType → Prop}
    (h : Lasting J merging) (name : String) :
    Lasting (fun e => J e ∧ e.slotOf name ≠ .vacant) merging where
  sound := fun e hJ => h.sound e hJ.1
  fills := fun e reg hJ hfill => ⟨h.fills e reg hJ.1 hfill, hJ.2⟩
  starts := fun e b t hJ => h.starts e b t hJ.1
  advances := fun e t f hJ hm hf => ⟨h.advances e t f hJ.1 hm hf, hf.slotOf t.name hJ.2⟩
  asks := fun e t role s hJ hm ht => ⟨h.asks e t role s hJ.1 hm ht, hJ.2⟩
  records := fun e e' hJ hreg hconfig htypes hasked => by
    rw [slotOf_congr htypes]
    exact ⟨h.records e e' hJ.1 hreg hconfig htypes hasked, hJ.2⟩
  declares := fun e t hJ ht => by
    rw [slotOf_adding]
    exact ⟨h.declares e t hJ.1 ht, hJ.2⟩

/-! ## Steps one after the other -/

namespace Kept

variable {α β : Type} {J K : Engine → Prop} {e e₁ : Engine} {l : List Moment}

theorem of_last {run : Except Halt α × Engine} (h : J run.2) : Kept J [] run :=
  ⟨h, List.forall_mem_nil _⟩

theorem cons {run : Except Halt α × Engine} {m : Moment} (hm : J m.engine) (h : Kept J l run) :
    Kept J (m :: l) run :=
  ⟨h.last, List.forall_mem_cons.2 ⟨hm, h.moments⟩⟩

theorem mono {run : Except Halt α × Engine} (h : Kept J l run) (hJK : ∀ e, J e → K e) :
    Kept K l run :=
  ⟨hJK _ h.last, fun m hm => hJK _ (h.moments m hm)⟩

theorem bind {step : EngineM α} {next : α → EngineM β} {trail : α → Engine → List Moment}
    (h : Kept J l (runFrom step e))
    (h' : ∀ a e₁, J e₁ → Kept J (trail a e₁) (runFrom (next a) e₁)) :
    Kept J (l ++ Trail.after step trail e) (runFrom (step >>= next) e) := by
  rw [runFrom_bind]
  unfold Trail.after
  rcases hrun : runFrom step e with ⟨halt | a, e₁⟩
  · rw [hrun] at h
    rw [List.append_nil]
    exact ⟨h.last, h.moments⟩
  · rw [hrun] at h
    have h₁ := h' a e₁ h.last
    exact ⟨h₁.last, List.forall_mem_append.2 ⟨h.moments, h₁.moments⟩⟩

theorem bind_silent {step : EngineM α} {next : α → EngineM β} (h : Kept J l (runFrom step e))
    (h' : ∀ a e₁, J e₁ → J (runFrom (next a) e₁).2) : Kept J l (runFrom (step >>= next) e) := by
  refine ⟨?_, h.moments⟩
  have hlast := h.last
  rw [runFrom_bind]
  rcases hrun : runFrom step e with ⟨halt | a, e₁⟩
  · rw [hrun] at hlast
    exact hlast
  · rw [hrun] at hlast
    exact h' a e₁ hlast

theorem shield {step : EngineM α} (h : Kept J l (runFrom step e)) :
    Kept J (l.map Moment.shield) (runFrom (EngineM.attempt step) e) := by
  refine ⟨h.last, fun m hm => ?_⟩
  obtain ⟨m', hm', rfl⟩ := List.mem_map.1 hm
  exact h.moments m' hm'

end Kept

/-! ## Merges -/

section Merges

variable {J : Engine → Prop} {allowed : String → Prop} {depth : Nat}
  {inner : String → Engine → List Moment} {t : AdoptingType} {e : Engine}
  (h : Engine.Merging J)
  (hinner : ∀ name e, allowed name → J e →
    Kept J (inner name e) (runFrom (EngineM.composeWithin depth name) e))
  (hasks : ∀ e role s, J e → J { e with questions := e.questions ++ [⟨t.name, s.level, role, s⟩] })
  (hallowed : ∀ hook, t.veto = some hook → ∀ role s name,
    (hook.opening role s).MayCompose name → allowed name)

include h hinner

theorem kept_consult (c : Consultation) (hc : ∀ name, c.MayCompose name → allowed name)
    (he : J e) :
    Kept J (Trail.consult depth inner c e)
      (runFrom (EngineM.consult (EngineM.composeWithin depth) c) e) := by
  induction c generalizing e with
  | answer keep => exact .cons he (.of_last he)
  | panic payload => exact .cons he (.of_last he)
  | compose name next ih =>
    have hname := hc name (.inl rfl)
    exact .cons he ((hinner name e hname he).bind fun outcome _ h₁ =>
      ih outcome (fun b hb => hc b (.inr ⟨outcome, hb⟩)) h₁)
  | attempt name next ih =>
    rw [Trail.consult, EngineM.consult]
    have hname := hc name (.inl rfl)
    refine .cons he ((hinner name e hname he).shield.bind fun exit e₁ h₁ => ?_)
    rcases exit with (payload | _) | outcome
    · exact ih _ (fun b hb => hc b (.inr ⟨_, hb⟩)) h₁
    · exact .of_last h₁
    · exact ih _ (fun b hb => hc b (.inr ⟨_, hb⟩)) h₁
  | observe name next ih => exact .cons he (ih _ (fun b hb => hc b ⟨_, hb⟩) he)
  | note n next ih =>
    exact .cons he (ih hc (h.quiet e _ he ⟨rfl, rfl, rfl, rfl, fun _ => rfl⟩ rfl))
  | «recall» next ih => exact .cons he (ih _ (fun b hb => hc b ⟨_, hb⟩) he)

include hasks hallowed

theorem kept_askHook {hook : Hook} (hhook : t.veto = some hook) (s : Signature) (c : Candidate)
    (he : J e) :
    Kept J
      (Trail.consult depth inner (hook.ask s.level c.origin s)
        { e with questions := e.questions ++ [⟨t.name, s.level, c.origin, s⟩] })
      (runFrom (EngineM.askHook (EngineM.composeWithin depth) t hook s c) e) := by
  have hmay : ∀ name, (hook.ask s.level c.origin s).MayCompose name → allowed name := by
    rw [Hook.ask_level]
    exact hallowed hook hhook c.origin s
  exact (kept_consult h hinner _ hmay (hasks e c.origin s he)).bind_silent fun keep e₁ h₁ => by
    cases keep with
    | true => exact h₁
    | false => exact h.quiet e₁ _ h₁ ⟨rfl, rfl, rfl, rfl, fun _ => Engine.starts_logged _ _ _⟩ rfl

theorem kept_keepCandidates {hook : Hook} (hhook : t.veto = some hook) (s : Signature)
    (cs : List Candidate) (he : J e) :
    Kept J (Trail.keepCandidates depth inner t hook s cs e)
      (runFrom (EngineM.keepCandidates (EngineM.composeWithin depth) t hook s cs) e) := by
  induction cs generalizing e with
  | nil => exact .of_last he
  | cons c cs ih =>
    refine (kept_askHook h hinner hasks hallowed hhook s c he).bind fun keep e₁ h₁ => ?_
    exact (ih h₁).bind_silent fun kept e₂ h₂ => h₂

theorem kept_settleSignature (tally : Tally) (offer : Signature × List Candidate) (he : J e) :
    Kept J (Trail.resolve depth inner t offer.1 offer.2 e)
      (runFrom (EngineM.settleSignature (EngineM.composeWithin depth) t tally offer) e) := by
  have hresolve : Kept J (Trail.resolve depth inner t offer.1 offer.2 e)
      (runFrom (EngineM.resolve (EngineM.composeWithin depth) t offer.1 offer.2) e) := by
    unfold Trail.resolve EngineM.resolve
    cases hhook : t.veto with
    | none => exact .of_last he
    | some hook =>
      exact (kept_keepCandidates h hinner hasks hallowed hhook offer.1 offer.2 he).bind_silent
        fun kept e₁ h₁ => h₁
  refine hresolve.bind_silent fun decision e₁ h₁ => ?_
  rcases decision with c | _ | cs
  · exact h₁
  · exact h₁
  · exact h.quiet e₁ _ h₁ ⟨rfl, rfl, rfl, rfl, fun _ => Engine.starts_logged _ _ _⟩ rfl

theorem kept_settleOffers (offers : List (Signature × List Candidate)) (tally : Tally)
    (he : J e) :
    Kept J (Trail.settleOffers depth inner t offers tally e)
      (runFrom
        (offers.foldlM (EngineM.settleSignature (EngineM.composeWithin depth) t) tally) e) := by
  induction offers generalizing tally e with
  | nil => exact .of_last he
  | cons offer offers ih =>
    rw [List.foldlM_cons]
    exact (kept_settleSignature h hinner hasks hallowed tally offer he).bind fun tally' e₁ h₁ =>
      ih tally' h₁

theorem kept_mergeTable (he : J e) :
    Kept J (Trail.mergeTable depth inner t e)
      (runFrom (EngineM.mergeTable (EngineM.composeWithin depth) t).run e) := by
  obtain ⟨reg', hfill, hgather, hrun⟩ :=
    runFrom_mergeTable (EngineM.composeWithin depth) t (h.sound e he)
  have h₁ := h.fills e reg' he hfill
  unfold Trail.mergeTable Trail.after
  rw [hgather, hrun]
  cases e.registry.check e.config t with
  | error error => exact .of_last h₁
  | ok _ =>
    have hsettle : Kept J _ (runFrom (EngineM.settleAll (EngineM.composeWithin depth) t
        (e.registry.offersTo t)) { e with registry := reg' }) :=
      kept_settleOffers h hinner hasks hallowed (e.registry.offersTo t).toList (Tally.ofOwn t) h₁
    exact hsettle.bind_silent fun tally e₂ h₂ =>
      h.quiet e₂ _ h₂ ⟨rfl, rfl, rfl, rfl, fun _ => rfl⟩ rfl

end Merges

/-! ## Compositions -/

section Compositions

variable {J : Engine → Prop} {merging : AdoptingType → Prop} {e : Engine} {name : String}

/-- How a composition of a vacant type goes on from the merge of its table, from any engine. -/
theorem runFrom_composeWithin_vacant {depth : Nat} {t : TypeEntry} (ht : e.find? name = some t)
    (hv : t.slot = .vacant) :
    runFrom (EngineM.composeWithin (depth + 1) name) e =
      match runFrom (EngineM.merge (EngineM.composeWithin depth) t.definition)
          (e.updateEntry name fun entry => { entry with slot := .running }) with
      | (.ok outcome, e₁) =>
        (.ok outcome, e₁.updateEntry name fun entry => { entry with slot := .settled outcome })
      | (.error (.panic payload), e₁) =>
        (.error (.panic payload), (e₁.fail name (Engine.panicError payload name)).settle name
          (.error (Engine.panicError payload name)))
      | (.error .abort, e₁) => (.error .abort, e₁) := by
  unfold EngineM.composeWithin EngineM.attempt
  rw [runFrom_bind_ok (runFrom_get e), ht]
  simp only [hv]
  rw [runFrom_bind_ok (runFrom_setSlot _ _ _), runFrom_bind_ok (runFrom_lift_run _ _)]
  rcases runFrom (EngineM.merge (EngineM.composeWithin depth) t.definition)
    (e.updateEntry name fun entry => { entry with slot := .running }) with
      ⟨(payload | _) | outcome, e₁⟩
  · show runFrom (EngineM.settlePanic name payload >>= fun _ => throw (.panic payload)) e₁ = _
    rw [runFrom_bind_ok (runFrom_settlePanic _ _ _), runFrom_throw]
  · rfl
  · rfl

/-- A composition of a vacant type keeps what its merge keeps, if leaving the merge keeps it. -/
theorem kept_of_afterMerge (h : Engine.Steady J) {depth : Nat} {t : TypeEntry}
    (ht : e.find? name = some t) (hv : t.slot = .vacant)
    (hmoments : ∀ m ∈ Trail.mergeTable depth (Trail.compose depth) t.definition
      (e.enter t.definition), J m.engine)
    (hend : J (Engine.afterMerge name (runFrom
      (EngineM.mergeTable (EngineM.composeWithin depth) t.definition).run
      (e.enter t.definition))).2) :
    Kept J (Trail.compose (depth + 1) name e)
      (runFrom (EngineM.composeWithin (depth + 1) name) e) := by
  rw [trail_compose ht hv]
  refine ⟨?_, hmoments⟩
  have hname := Engine.name_of_find? ht
  subst hname
  rw [runFrom_composeWithin_vacant ht hv, runFrom_merge]
  rw [show (e.updateEntry t.definition.name fun entry => { entry with slot := .running }).start
    t.definition = e.enter t.definition from rfl]
  generalize runFrom (EngineM.mergeTable (EngineM.composeWithin depth) t.definition).run
    (e.enter t.definition) = run at hend ⊢
  -- up to what is logged and counted, this is how the merge is left
  have hsettle (e₁ : Engine) (outcome : Outcome) := congrArg Engine.types
    (Engine.settle_eq (e₁.logOutcome t.definition.name outcome) t.definition.name outcome)
  rcases run with ⟨(payload | _) | (error | table), e₁⟩
  · exact h.records _ _ hend rfl rfl rfl rfl
  · exact h.records _ _ hend rfl rfl rfl rfl
  · exact h.records _ _ hend rfl rfl (hsettle e₁ _) rfl
  · exact h.records _ _ hend rfl rfl (hsettle e₁ _) rfl

/-- Leaving a merge settles the type, unless the process has ended. -/
theorem Engine.Steady.afterMerge (h : Engine.Steady J) {run : Except Halt Outcome × Engine}
    (hpanic : ∀ payload, run.1 = .error (.panic payload) →
      J (run.2.settle name (.error (Engine.panicError payload name))))
    (habort : run.1 = .error .abort → J run.2)
    (hok : ∀ outcome, run.1 = .ok outcome → J (run.2.settle name outcome)) :
    J (Engine.afterMerge name run).2 := by
  rcases run with ⟨(payload | _) | (error | table), e₁⟩
  · exact h.records _ _ (hpanic payload rfl) rfl rfl rfl rfl
  · exact h.records _ _ (habort rfl) rfl rfl rfl rfl
  · exact h.records _ _ (hok _ rfl) rfl rfl rfl rfl
  · exact h.records _ _ (hok _ rfl) rfl rfl rfl rfl

/-- A composition without a merge keeps everything. -/
theorem kept_of_answer {depth : Nat} {outcome : Outcome} (hanswer : e.answer? name = some outcome)
    (he : J e) :
    Kept J (Trail.compose depth name e) (runFrom (EngineM.composeWithin depth name) e) := by
  rw [trail_compose_of_answer hanswer, runFrom_composeWithin_of_answer hanswer]
  exact .of_last he

/-- A composition that has no room for a merge keeps everything. -/
theorem kept_composeWithin_zero (name : String) (he : J e) :
    Kept J (Trail.compose 0 name e) (runFrom (EngineM.composeWithin 0 name) e) := by
  unfold EngineM.composeWithin
  rw [runFrom_bind_ok (runFrom_get e)]
  refine .of_last ?_
  cases e.find? name with
  | none => exact he
  | some t => cases hslot : t.slot <;> (simp only [hslot]; exact he)

/-- A composition keeps such a property, and so does whatever its hooks compose. -/
theorem kept_composeWithin (depth : Nat) (h : Engine.Lasting J merging) (name : String)
    (he : J e) :
    Kept J (Trail.compose depth name e) (runFrom (EngineM.composeWithin depth name) e) := by
  induction depth generalizing J name e with
  | zero => exact kept_composeWithin_zero name he
  | succ depth ih =>
    cases hanswer : e.answer? name with
    | some outcome => exact kept_of_answer hanswer he
    | none =>
      obtain ⟨t, ht, hv⟩ := answer?_eq_none.1 hanswer
      have hname := Engine.name_of_find? ht
      have hmerging := h.starts e name t he ht hv
      have henter : J (e.enter t.definition) :=
        h.records _ _ (h.advances e t.definition _ he hmerging (.setSlot (by simp))) rfl rfl rfl rfl
      have hstarted : (e.enter t.definition).slotOf t.definition.name ≠ .vacant := by
        rw [Engine.slotOf_enter ht]
        simp
      -- while the type is merged it stays started, which is what asking its hook depends on
      have hmerge := (kept_mergeTable (h.started t.definition.name).merging
        (fun b e _ hJ => ih (h.started t.definition.name) b hJ)
        (fun e role s hJ => ⟨h.asks e t.definition role s hJ.1 hmerging hJ.2, hJ.2⟩)
        (fun _ _ _ _ _ _ => trivial) ⟨henter, hstarted⟩).mono fun _ hJ => hJ.1
      have hsettle (outcome : Outcome) := h.advances _ _ _ hmerge.last hmerging (.settle outcome)
      rw [hname] at hsettle
      exact kept_of_afterMerge h.toSteady ht hv hmerge.moments (h.toSteady.afterMerge
        (fun _ _ => hsettle _) (fun _ => hmerge.last) fun outcome _ => hsettle outcome)

/-- A property that compositions and declarations keep. -/
structure Engine.Upheld (J : Engine → Prop) : Prop extends Steady J where
  composes : ∀ depth name e, J e →
    Kept J (Trail.compose depth name e) (runFrom (EngineM.composeWithin depth name) e)
  declares : ∀ e t, J e → e.find? t.name = none → J (e.adding t)

theorem Engine.Lasting.upheld (h : Engine.Lasting J merging) : Engine.Upheld J :=
  ⟨h.toSteady, fun depth name _ he => kept_composeWithin depth h name he, h.declares⟩

/-- A property of what becomes of one type: each part of a composition of another type keeps it, and
so does the composition of the type itself. -/
structure Engine.Concerns (J : Engine → Prop) (own : String) : Prop extends Steady J where
  advances : ∀ e name f, J e → name ≠ own → TypeEntry.Advances f → J (e.updateEntry name f)
  asks : ∀ e (t : AdoptingType) role (s : Signature), J e → t.name ≠ own →
    J { e with questions := e.questions ++ [⟨t.name, s.level, role, s⟩] }
  composes : ∀ depth e t, J e → e.find? own = some t → t.slot = .vacant →
    Kept J (Trail.compose (depth + 1) own e) (runFrom (EngineM.composeWithin (depth + 1) own) e)
  declares : ∀ e t, J e → e.find? t.name = none → J (e.adding t)

/-- A composition keeps a property of one type, whatever is composed on the way. -/
theorem Engine.Concerns.upheld {own : String} (h : Engine.Concerns J own) : Engine.Upheld J := by
  refine ⟨h.toSteady, fun depth => ?_, h.declares⟩
  induction depth with
  | zero => exact fun name e he => kept_composeWithin_zero name he
  | succ depth ih =>
    intro name e he
    cases hanswer : e.answer? name with
    | some outcome => exact kept_of_answer hanswer he
    | none =>
      obtain ⟨t, ht, hv⟩ := answer?_eq_none.1 hanswer
      by_cases hown : name = own
      · subst hown
        exact h.composes depth e t he ht hv
      · have hname := Engine.name_of_find? ht
        have hother : t.definition.name ≠ own := hname ▸ hown
        have henter : J (e.enter t.definition) :=
          h.records _ _ (h.advances e _ _ he hother (.setSlot (by simp))) rfl rfl rfl rfl
        have hmerge := kept_mergeTable h.merging (fun b e _ hJ => ih b e hJ)
          (fun e role s hJ => h.asks e t.definition role s hJ hother)
          (fun _ _ _ _ _ _ => trivial) henter
        have hsettle (outcome : Outcome) := h.advances _ name _ hmerge.last hown (.settle outcome)
        exact kept_of_afterMerge h.toSteady ht hv hmerge.moments (h.toSteady.afterMerge
          (fun _ _ => hsettle _) (fun _ => hmerge.last) fun outcome _ => hsettle outcome)

/-! ## Calls -/

theorem kept_firstUse (h : Engine.Upheld J) (policy : FailurePolicy) (name : String)
    (he : J e) :
    Kept J (Trail.compose e.vacantTypes name e) (runFrom (EngineM.firstUse policy name) e) := by
  have hcompose := h.composes e.vacantTypes name e he
  refine ⟨?_, hcompose.moments⟩
  have hlast : J (runFrom (EngineM.compose name) e).2 := hcompose.last
  rw [runFrom_firstUse]
  generalize runFrom (EngineM.compose name) e = run at hlast ⊢
  rcases run with ⟨halt | cause | table, e₁⟩
  · exact hlast
  · exact h.records e₁ _ hlast rfl rfl rfl rfl
  · exact hlast

theorem kept_firstUses (h : Engine.Upheld J) (policy : FailurePolicy)
    (names : List String) (he : J e) :
    Kept J (Trail.firstUses policy names e) (runFrom (EngineM.firstUses policy names) e) := by
  induction names generalizing e with
  | nil => exact .of_last he
  | cons name names ih =>
    refine .cons he ((kept_firstUse h policy name he).bind fun used e₁ h₁ => ?_)
    exact (ih h₁).bind_silent fun fatals e₂ h₂ => h₂

/-- Each call keeps such a property. -/
theorem kept_step (h : Engine.Upheld J) (r : Request) (he : J e) :
    Kept J (r.trail e) (runFrom r.step e) := by
  cases r with
  | declare t =>
    refine .of_last ?_
    unfold Request.step
    rw [runFrom_modify]
    unfold Engine.declare
    split_ifs with hsome
    · exact he
    · exact h.declares e t he (by simpa using hsome)
  | compose name =>
    unfold Request.step
    rw [runFrom_discard]
    have hcompose := h.composes e.vacantTypes name e he
    exact ⟨hcompose.last, hcompose.moments⟩
  | firstUse policy name =>
    unfold Request.step
    rw [runFrom_discard]
    have hused := kept_firstUse h policy name he
    exact ⟨hused.last, hused.moments⟩
  | ensureAll policy =>
    unfold Request.step
    rw [runFrom_discard]
    have hused := kept_firstUses h policy (e.handles.map Handle.name) he
    exact ⟨hused.last, hused.moments⟩
  | closure role =>
    refine .of_last ?_
    obtain ⟨reg', hrun, hfill⟩ := Registry.runFrom_closure (h.sound e he) role
    unfold Request.step
    rw [runFrom_discard]
    show J { e with registry := (runFrom (Registry.closure role) e.registry).2 }
    rw [hrun]
    exact h.fills e reg' he hfill
  | state name => exact .of_last he
  | outcome name => exact .of_last he
  | effectiveMethods name => exact .of_last he
  | report name => exact .of_last he
  | dispatch depth name s receiver args => exact .of_last he

/-- A property that lasts holds at every moment of a run. -/
theorem holds_of_mem_history (h : Engine.Upheld J) (rs : List Request) (he : J e) :
    ∀ m ∈ history e rs, J m.engine := by
  induction rs generalizing e with
  | nil =>
    intro m hm
    rw [List.mem_singleton.1 hm]
    exact he
  | cons r rs ih =>
    have hstep := kept_step h r he
    refine List.forall_mem_cons.2 ⟨he, List.forall_mem_append.2 ⟨hstep.moments, ?_⟩⟩
    have hlast := hstep.last
    generalize runFrom r.step e = run at hlast ⊢
    rcases run with ⟨(payload | _) | _, e₁⟩
    · exact ih hlast
    · exact List.forall_mem_nil _
    · exact ih hlast

end Compositions

end RoleComposition
