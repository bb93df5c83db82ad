import RoleComposition.Proofs.Deciding
import RoleComposition.Proofs.Gathering

/-!
# Merges

A merge that comes to an end comes to what the definitions decide: the slots of the closures do not
show, and neither does what a hook does on the way to its answers, so long as it answers by a fixed
rule. Main statements: `runFrom_mergeTable` and `outcome_of_mergeTable`.
-/

namespace RoleComposition

/-! ## Hooks that answer by a rule -/

/-- What a hook does first about a method: of its two entry points, the one for the level of the
method gets control. -/
def Hook.opening (h : Hook) (role : RoleId) (s : Signature) : Consultation :=
  match s.level with
  | .onInstance => h.includeInstanceMethod role s
  | .onType => h.includeTypeMethod role s

theorem Hook.ask_level (h : Hook) (role : RoleId) (s : Signature) :
    h.ask s.level role s = h.opening role s := by
  unfold ask opening
  cases s.level <;> rfl

/-- Each answer that a consultation can come to is the given one. -/
def Consultation.AnswersBy (keep : Bool) : Consultation → Prop
  | .answer b => b = keep
  | .panic _ => True
  | .compose _ next => ∀ outcome, (next outcome).AnswersBy keep
  | .attempt _ next => ∀ exit, (next exit).AnswersBy keep
  | .observe _ next => ∀ seen, (next seen).AnswersBy keep
  | .note _ next => next.AnswersBy keep
  | .recall next => ∀ notes, (next notes).AnswersBy keep

/-- The hook of a type, if it has one, answers by a fixed rule about roles and signatures, at the
entry point for the level of each signature. -/
def AdoptingType.AnswersBy (t : AdoptingType) (keep : RoleId → Signature → Bool) : Prop :=
  match t.veto with
  | none => ∀ role s, keep role s = true
  | some hook => ∀ role s, (hook.opening role s).AnswersBy (keep role s)

/-- An error that a merge finds out by itself. -/
def CompositionError.IsFound : CompositionError → Prop
  | unknownRole _ | roleCycle _ | storageExtension _ _ | missingCapability _ _
  | roleConflict _ _ => True
  | _ => False

/-! ## Steps of merges -/

section Steps

variable {α β : Type}

/-- A step of a merge goes on unless the step before it has failed or halted. -/
theorem runFrom_run_bind (step : MergeM α) (next : α → MergeM β) (e : Engine) :
    runFrom (step >>= next).run e =
      match runFrom step.run e with
      | (.ok (.ok a), e') => runFrom (next a).run e'
      | (.ok (.error error), e') => (.ok (.error error), e')
      | (.error halt, e') => (.error halt, e') := by
  rw [ExceptT.run_bind, runFrom_bind]
  rcases runFrom step.run e with ⟨_ | result, e'⟩
  · rfl
  · cases result <;> rfl

theorem runFrom_run_bind_ok {step : MergeM α} {next : α → MergeM β} {e e' : Engine} {a : α}
    (h : runFrom step.run e = (.ok (.ok a), e')) :
    runFrom (step >>= next).run e = runFrom (next a).run e' := by
  rw [runFrom_run_bind, h]

theorem runFrom_run_bind_error {step : MergeM α} {next : α → MergeM β} {e e' : Engine}
    {error : CompositionError} (h : runFrom step.run e = (.ok (.error error), e')) :
    runFrom (step >>= next).run e = (.ok (.error error), e') := by
  rw [runFrom_run_bind, h]

theorem runFrom_ofExcept (result : Except CompositionError α) (e : Engine) :
    runFrom (MergeM.ofExcept result).run e = (.ok result, e) := rfl

/-- A step of an engine as a step of a merge does not fail; it may halt. -/
theorem runFrom_run_lift (step : EngineM α) (e : Engine) :
    runFrom (ExceptT.lift step : MergeM α).run e =
      match runFrom step e with
      | (.ok a, e') => (.ok (.ok a), e')
      | (.error halt, e') => (.error halt, e') := by
  have hmap : (ExceptT.lift step : MergeM α).run = step >>= fun a => pure (.ok a) := by
    rw [ExceptT.run_lift, map_eq_pure_bind]
  rw [hmap, runFrom_bind]
  rcases runFrom step e with ⟨_ | a, e'⟩ <;> rfl

/-- A step on the registry leaves the rest of the engine as it is. -/
theorem runFrom_ofClosure {step : ClosureM α} {e : Engine} {result : Except CompositionError α}
    {reg' : Registry} (h : runFrom step e.registry = (result, reg')) :
    runFrom (MergeM.ofClosure step).run e = (.ok result, { e with registry := reg' }) := by
  have hrun : runFrom (MergeM.ofClosure step).run e =
      (.ok (runFrom step e.registry).1, { e with registry := (runFrom step e.registry).2 }) := rfl
  rw [hrun, h]

end Steps

/-! ## Gathering the offers -/

/-- The closure of a role that resolves, asked for during a merge that has filled some slots. -/
theorem runFrom_ofClosure_of_fills {e : Engine} {reg : Registry} {id : RoleId} (hreg : reg.Sound)
    (he : reg.Fills e.registry) (hr : reg.ResolvesWithin reg.size id) :
    ∃ reg', e.registry.Fills reg' ∧
      runFrom (MergeM.ofClosure (Registry.closureResolved id)).run e =
        (.ok (.ok (reg.closureOf id)), { e with registry := reg' }) := by
  have hd := he.definitions
  have hres : e.registry.ResolvesWithin e.registry.size id := by
    rw [Registry.resolvesWithin_congr hd, Registry.size_congr hd]
    exact hr
  obtain ⟨reg₁, hrun, hfill⟩ := Registry.runFrom_closureResolved (he.sound hreg) hres
  rw [Registry.closureOf_congr hd] at hrun
  exact ⟨reg₁, hfill, runFrom_ofClosure hrun⟩

/-- Filling the closures of roles that resolve leaves them filled. -/
theorem runFrom_forM_closureResolved {e : Engine} {reg : Registry} {order : List RoleDefinition}
    (hreg : reg.Sound) (he : reg.Fills e.registry)
    (hr : ∀ r ∈ order, reg.ResolvesWithin reg.size r.id) :
    ∃ reg', e.registry.Fills reg' ∧
      runFrom (order.forM fun role =>
          discard <| MergeM.ofClosure (Registry.closureResolved role.id) : MergeM Unit).run e =
        (.ok (.ok ()), { e with registry := reg' }) := by
  induction order generalizing e with
  | nil => exact ⟨e.registry, .refl he.kept, rfl⟩
  | cons r order ih =>
    obtain ⟨reg₁, hfill, hrun⟩ := runFrom_ofClosure_of_fills hreg he (hr r List.mem_cons_self)
    obtain ⟨reg₂, hfill', hrun'⟩ := ih (e := { e with registry := reg₁ }) (he.trans hfill)
      fun r hmem => hr r (List.mem_cons_of_mem _ hmem)
    refine ⟨reg₂, hfill.trans hfill', ?_⟩
    have hstep : runFrom (discard <| MergeM.ofClosure (Registry.closureResolved r.id)).run e =
        (.ok (.ok ()), { e with registry := reg₁ }) := by
      rw [show (discard <| MergeM.ofClosure (Registry.closureResolved r.id) : MergeM Unit) =
        (MergeM.ofClosure (Registry.closureResolved r.id) >>= fun _ => pure ()) from rfl]
      rw [runFrom_run_bind_ok hrun]
      rfl
    rw [forM_cons, runFrom_run_bind_ok hstep]
    exact hrun'

/-- The closures of the declared roles offer what they would offer if gathered anew. -/
theorem runFrom_foldlM_add {e : Engine} {reg : Registry} {t : AdoptingType}
    {declared : List RoleId} (hreg : reg.Sound) (he : reg.Fills e.registry)
    (hr : ∀ via ∈ declared, reg.ResolvesWithin reg.size via) (offers : Offers) :
    ∃ reg', e.registry.Fills reg' ∧
      runFrom (declared.foldlM (fun offers via => do
          return Offers.add t offers (← MergeM.ofClosure (Registry.closureResolved via)))
          offers : MergeM Offers).run e =
        (.ok (.ok (declared.foldl
          (fun offers via => Offers.add t offers (reg.closureOf via)) offers)),
          { e with registry := reg' }) := by
  induction declared generalizing e offers with
  | nil => exact ⟨e.registry, .refl he.kept, rfl⟩
  | cons via declared ih =>
    obtain ⟨reg₁, hfill, hrun⟩ := runFrom_ofClosure_of_fills hreg he (hr via List.mem_cons_self)
    obtain ⟨reg₂, hfill', hrun'⟩ := ih (e := { e with registry := reg₁ }) (he.trans hfill)
      (fun b hb => hr b (List.mem_cons_of_mem _ hb)) (Offers.add t offers (reg.closureOf via))
    refine ⟨reg₂, hfill.trans hfill', ?_⟩
    have hstep : runFrom (do
          return Offers.add t offers (← MergeM.ofClosure (Registry.closureResolved via)) :
          MergeM Offers).run e =
        (.ok (.ok (Offers.add t offers (reg.closureOf via))), { e with registry := reg₁ }) := by
      rw [runFrom_run_bind_ok hrun]
      rfl
    rw [List.foldlM_cons, runFrom_run_bind_ok hstep]
    exact hrun'

/-- The offers to a type, whatever the slots hold: the checks decide whether there are any. -/
theorem runFrom_gatherOffers {e : Engine} (t : AdoptingType) (hs : e.registry.Sound) :
    ∃ reg', e.registry.Fills reg' ∧
      runFrom (EngineM.gatherOffers t).run e =
        (.ok ((e.registry.check e.config t).map fun _ => e.registry.offersTo t),
          { e with registry := reg' }) := by
  unfold EngineM.gatherOffers
  rw [runFrom_run_bind_ok (show runFrom (get : MergeM Engine).run e = (.ok (.ok e), e) from rfl)]
  cases hcheck : e.registry.check e.config t with
  | error error =>
    refine ⟨e.registry, .refl hs.kept, ?_⟩
    rcases Registry.check_eq_error hcheck with
      horder | ⟨order, horder, hstorage | ⟨hstorage, hvalidate⟩⟩
    · rw [horder, runFrom_run_bind_error (runFrom_ofExcept _ e)]
      rfl
    · rw [horder, runFrom_run_bind_ok (runFrom_ofExcept _ e), hstorage,
        runFrom_run_bind_error (runFrom_ofExcept _ e)]
      rfl
    · rw [horder, runFrom_run_bind_ok (runFrom_ofExcept _ e), hstorage,
        runFrom_run_bind_ok (runFrom_ofExcept _ e), hvalidate,
        runFrom_run_bind_error (runFrom_ofExcept _ e)]
      rfl
  | ok _ =>
    obtain ⟨order, horder, hstorage, hvalidate⟩ := Registry.check_eq_ok.1 hcheck
    rw [horder, runFrom_run_bind_ok (runFrom_ofExcept _ e), hstorage,
      runFrom_run_bind_ok (runFrom_ofExcept _ e), hvalidate,
      runFrom_run_bind_ok (runFrom_ofExcept _ e)]
    have hr {b : RoleId} (hb : e.registry.ReachedFrom t.declaredRoles b) :=
      Registry.resolvesWithin_of_reachedFrom horder hb
    obtain ⟨reg₁, hfill, hrun⟩ := runFrom_forM_closureResolved hs (.refl hs.kept)
      fun r hmem => hr ((Registry.mem_resolutionOrder horder).1 hmem).1
    obtain ⟨reg₂, hfill', hrun'⟩ := runFrom_foldlM_add (t := t)
      (e := { e with registry := reg₁ }) hs hfill (fun via hvia => hr ⟨via, hvia, .refl⟩) ∅
    rw [runFrom_run_bind_ok hrun]
    exact ⟨reg₂, hfill.trans hfill', hrun'⟩

/-! ## Answers -/

section Answers

variable {compose : String → EngineM Outcome} {keep : RoleId → Signature → Bool}

/-- A step that comes to a result has first come to the result that it goes on with. -/
theorem runFrom_bind_eq_ok {ε σ α β : Type} {step : ExceptT ε (StateM σ) α}
    {next : α → ExceptT ε (StateM σ) β} {s s' : σ} {b : β}
    (h : runFrom (step >>= next) s = (.ok b, s')) :
    ∃ a s₁, runFrom step s = (.ok a, s₁) ∧ runFrom (next a) s₁ = (.ok b, s') := by
  rw [runFrom_bind] at h
  rcases hstep : runFrom step s with ⟨_ | a, s₁⟩
  · rw [hstep] at h
    cases h
  · rw [hstep] at h
    exact ⟨a, s₁, rfl, h⟩

theorem answer_of_consult {c : Consultation} {b answer : Bool} {e e' : Engine}
    (hc : c.AnswersBy b) (h : runFrom (EngineM.consult compose c) e = (.ok answer, e')) :
    answer = b := by
  induction c generalizing e with
  | answer keep =>
    cases h
    exact hc
  | panic payload => cases h
  | compose name next ih =>
    obtain ⟨outcome, e₁, -, h⟩ := runFrom_bind_eq_ok h
    exact ih outcome (hc outcome) h
  | attempt name next ih =>
    rw [EngineM.consult] at h
    obtain ⟨exit, e₁, -, h⟩ := runFrom_bind_eq_ok h
    rcases exit with (payload | _) | outcome
    · exact ih _ (hc _) h
    · cases h
    · exact ih _ (hc _) h
  | observe name next ih =>
    obtain ⟨e₀, e₁, -, h⟩ := runFrom_bind_eq_ok h
    exact ih _ (hc _) h
  | note n next ih =>
    obtain ⟨_, e₁, -, h⟩ := runFrom_bind_eq_ok h
    exact ih hc h
  | «recall» next ih =>
    obtain ⟨e₀, e₁, -, h⟩ := runFrom_bind_eq_ok h
    exact ih _ (hc _) h

theorem answer_of_askHook {t : AdoptingType} {hook : Hook} {s : Signature} {c : Candidate}
    {b answer : Bool} {e e' : Engine} (hc : (hook.opening c.origin s).AnswersBy b)
    (h : runFrom (EngineM.askHook compose t hook s c) e = (.ok answer, e')) : answer = b := by
  obtain ⟨_, e₁, -, h⟩ := runFrom_bind_eq_ok h
  obtain ⟨answer', e₂, hconsult, h⟩ := runFrom_bind_eq_ok h
  rw [Hook.ask_level] at hconsult
  rw [← answer_of_consult hc hconsult]
  cases answer' <;> cases h <;> rfl

theorem kept_of_keepCandidates {t : AdoptingType} {hook : Hook} {s : Signature}
    {cs kept : List Candidate} {e e' : Engine}
    (hc : ∀ role, (hook.opening role s).AnswersBy (keep role s))
    (h : runFrom (EngineM.keepCandidates compose t hook s cs) e = (.ok kept, e')) :
    kept = Candidate.keptBy keep s cs := by
  induction cs generalizing e e' kept with
  | nil =>
    cases h
    rfl
  | cons c cs ih =>
    obtain ⟨answer, e₁, hask, h⟩ := runFrom_bind_eq_ok h
    obtain ⟨rest, e₂, hrest, h⟩ := runFrom_bind_eq_ok h
    have hanswer := answer_of_askHook (hc c.origin) hask
    have hkept := ih hrest
    cases h
    rw [hanswer, hkept]
    unfold Candidate.keptBy
    rw [List.filter_cons]

theorem decision_of_resolve {t : AdoptingType} {s : Signature} {cs : List Candidate}
    {decision : Decision} {e e' : Engine} (ht : t.AnswersBy keep)
    (h : runFrom (EngineM.resolve compose t s cs) e = (.ok decision, e')) :
    decision = .ofSurvivors (Candidate.keptBy keep s cs) := by
  unfold EngineM.resolve at h
  unfold AdoptingType.AnswersBy at ht
  cases hveto : t.veto with
  | none =>
    rw [hveto] at h ht
    cases h
    have hall : Candidate.keptBy keep s cs = cs :=
      List.filter_eq_self.2 fun c _ => ht c.origin s
    rw [hall]
  | some hook =>
    rw [hveto] at h ht
    obtain ⟨kept, e₁, hkept, h⟩ := runFrom_bind_eq_ok h
    cases h
    rw [kept_of_keepCandidates (fun role => ht role s) hkept]

theorem tally_of_settleSignature {t : AdoptingType} {tally tally' : Tally}
    {offer : Signature × List Candidate} {e e' : Engine} (ht : t.AnswersBy keep)
    (h : runFrom (EngineM.settleSignature compose t tally offer) e = (.ok tally', e')) :
    tally' = Tally.settle keep tally offer := by
  obtain ⟨decision, e₁, hresolve, h⟩ := runFrom_bind_eq_ok h
  rw [Tally.settle, ← decision_of_resolve ht hresolve]
  cases decision <;> cases h <;> rfl

theorem tally_of_foldlM {t : AdoptingType} {offers : List (Signature × List Candidate)}
    {tally tally' : Tally} {e e' : Engine} (ht : t.AnswersBy keep)
    (h : runFrom (offers.foldlM (EngineM.settleSignature compose t) tally) e = (.ok tally', e')) :
    tally' = offers.foldl (Tally.settle keep) tally := by
  induction offers generalizing tally e with
  | nil =>
    cases h
    rfl
  | cons offer offers ih =>
    rw [List.foldlM_cons] at h
    obtain ⟨tally₁, e₁, hstep, h⟩ := runFrom_bind_eq_ok h
    rw [List.foldl_cons, ← tally_of_settleSignature ht hstep]
    exact ih h

end Answers

/-! ## Whole merges -/

/-- The engine with the rejected candidates and the conflicts of a tally counted. -/
def Engine.countTally (e : Engine) (tally : Tally) : Engine :=
  { e with
    metrics :=
      { e.metrics with
        candidatesVetoed := e.metrics.candidatesVetoed + tally.vetoed
        conflictsDetected := e.metrics.conflictsDetected + tally.conflicts.length } }

/-- Settling all offers to a type, with a way to compose other types from its hook. -/
def EngineM.settleAll (compose : String → EngineM Outcome) (t : AdoptingType) (offers : Offers) :
    EngineM Tally :=
  offers.toList.foldlM (settleSignature compose t) (Tally.ofOwn t)

/-- The end of a merge: the tally is counted and comes to an outcome. -/
def EngineM.conclude (t : AdoptingType) (tally : Tally) : EngineM Outcome := do
  modify fun e => e.countTally tally
  return t.outcomeOfTally tally

/-- A merge is the checks, the settling of the offers, and the outcome that the tally comes to. -/
theorem runFrom_mergeTable (compose : String → EngineM Outcome) {e : Engine} (t : AdoptingType)
    (hs : e.registry.Sound) :
    ∃ reg', e.registry.Fills reg' ∧
      runFrom (EngineM.gatherOffers t).run e =
        (.ok ((e.registry.check e.config t).map fun _ => e.registry.offersTo t),
          { e with registry := reg' }) ∧
      runFrom (EngineM.mergeTable compose t).run e =
        match e.registry.check e.config t with
        | .error error => (.ok (.error error), { e with registry := reg' })
        | .ok _ =>
          runFrom (EngineM.settleAll compose t (e.registry.offersTo t) >>= EngineM.conclude t)
            { e with registry := reg' } := by
  obtain ⟨reg', hfill, hrun⟩ := runFrom_gatherOffers t hs
  refine ⟨reg', hfill, hrun, ?_⟩
  unfold EngineM.mergeTable
  cases hcheck : e.registry.check e.config t with
  | error error =>
    rw [hcheck] at hrun
    rw [runFrom_run_bind_error hrun]
  | ok _ =>
    rw [hcheck] at hrun
    rw [runFrom_run_bind_ok hrun, runFrom_run_bind, runFrom_run_lift]
    rw [runFrom_bind]
    unfold EngineM.settleAll
    rcases runFrom (List.foldlM (EngineM.settleSignature compose t) (Tally.ofOwn t)
      (e.registry.offersTo t).toList) { e with registry := reg' } with ⟨halt | tally, e₁⟩
    · rfl
    · obtain ⟨entries, vetoed, _ | ⟨c, cs⟩⟩ := tally
      · rfl
      · rfl

/-- What a merge that comes to an end comes to: it has failed a check, or settled all offers. -/
theorem mergeTable_eq_ok {compose : String → EngineM Outcome} {e e' : Engine} {t : AdoptingType}
    {outcome : Outcome} (hs : e.registry.Sound)
    (h : runFrom (EngineM.mergeTable compose t).run e = (.ok outcome, e')) :
    (∃ error, e.registry.check e.config t = .error error ∧ outcome = .error error) ∨
      e.registry.check e.config t = .ok () ∧ ∃ tally e₁ e₂,
        runFrom (EngineM.settleAll compose t (e.registry.offersTo t)) e₁ = (.ok tally, e₂) ∧
        outcome = t.outcomeOfTally tally := by
  obtain ⟨reg', -, -, hrun⟩ := runFrom_mergeTable compose t hs
  rw [hrun] at h
  cases hcheck : e.registry.check e.config t with
  | error error =>
    rw [hcheck] at h
    cases h
    exact .inl ⟨error, rfl, rfl⟩
  | ok _ =>
    rw [hcheck] at h
    obtain ⟨tally, e₂, hsettle, h⟩ := runFrom_bind_eq_ok h
    cases h
    exact .inr ⟨rfl, tally, _, e₂, hsettle, rfl⟩

/-- A merge that comes to an end under a hook that answers by a rule comes to what the definitions
decide. -/
theorem outcome_of_mergeTable {compose : String → EngineM Outcome} {e e' : Engine}
    {t : AdoptingType} {keep : RoleId → Signature → Bool} {outcome : Outcome}
    (hs : e.registry.Sound) (ht : t.AnswersBy keep)
    (h : runFrom (EngineM.mergeTable compose t).run e = (.ok outcome, e')) :
    outcome = e.registry.outcomeOf e.config t keep := by
  unfold Registry.outcomeOf
  rcases mergeTable_eq_ok hs h with ⟨error, hcheck, rfl⟩ | ⟨hcheck, tally, e₁, e₂, hsettle, rfl⟩
  · rw [hcheck]
    rfl
  · rw [hcheck, tally_of_foldlM ht hsettle]
    rfl

/-! ## Errors that merges find -/

theorem Registry.isFound_of_check {reg : Registry} {config : Config} {t : AdoptingType}
    {error : CompositionError} (h : reg.check config t = .error error) : error.IsFound := by
  rcases check_eq_error h with horder | ⟨order, -, hstorage | ⟨-, hvalidate⟩⟩
  · obtain ⟨b, -, ⟨-, rfl⟩ | ⟨-, cycle, rfl⟩⟩ := faulty_of_resolutionOrder horder
    · trivial
    · trivial
  · obtain ⟨role, fields, rfl⟩ := Engine.checkStorage_eq_error hstorage
    trivial
  · rw [AdoptingType.validate_eq_error hvalidate]
    trivial

theorem AdoptingType.isFound_of_outcomeOfTally {t : AdoptingType} {tally : Tally}
    {error : CompositionError} (h : t.outcomeOfTally tally = .error error) : error.IsFound := by
  unfold outcomeOfTally at h
  split_ifs at h
  cases h
  trivial

theorem Registry.isFound_of_outcomeOf {reg : Registry} {config : Config} {t : AdoptingType}
    {keep : RoleId → Signature → Bool} {error : CompositionError}
    (h : reg.outcomeOf config t keep = .error error) : error.IsFound := by
  cases hcheck : reg.check config t with
  | error error' =>
    rw [outcomeOf_of_check_eq_error hcheck] at h
    cases h
    exact isFound_of_check hcheck
  | ok _ =>
    rw [outcomeOf_of_check_eq_ok hcheck] at h
    exact AdoptingType.isFound_of_outcomeOfTally h

/-- An error that a merge ends with is one that it has found itself. -/
theorem isFound_of_mergeTable {compose : String → EngineM Outcome} {e e' : Engine}
    {t : AdoptingType} {error : CompositionError} (hs : e.registry.Sound)
    (h : runFrom (EngineM.mergeTable compose t).run e = (.ok (.error error), e')) :
    error.IsFound := by
  rcases mergeTable_eq_ok hs h with ⟨error', hcheck, herror⟩ | ⟨-, tally, -, -, -, herror⟩
  · cases herror
    exact Registry.isFound_of_check hcheck
  · exact AdoptingType.isFound_of_outcomeOfTally herror.symm

end RoleComposition
