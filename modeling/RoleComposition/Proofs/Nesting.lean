import RoleComposition.Proofs.Soundness

/-!
# Entering and leaving a merge

A composition of a vacant type takes the slot, merges, and fills the slot, be it with what the
merge has come to or with the panic that has left it. Here are the engines at these moments, how
the step and its trail go from one to the next, and that an engine stays sound in each of them.
-/

namespace RoleComposition

namespace Engine

/-- The engine with an event logged under the types that are being composed. -/
def logged (e : Engine) (event : Event) : Engine :=
  { e with log := e.log ++ [⟨event, e.spans⟩] }

/-- The engine with one more merge begun, within those under way. -/
def start (e : Engine) (t : AdoptingType) : Engine :=
  ({ e with
      spans := e.spans ++ [t.name]
      metrics := { e.metrics with mergesExecuted := e.metrics.mergesExecuted + 1 } }.logged
    (.counted .mergesExecuted)).logged (.compositionStarted t.name t.declaredRoles.length)

/-- The engine in which the merge of a vacant type begins. -/
def enter (e : Engine) (t : AdoptingType) : Engine :=
  (e.updateEntry t.name fun entry => { entry with slot := .running }).start t

/-- The engine with the outcome of a type. -/
def settle (e : Engine) (name : String) (outcome : Outcome) : Engine :=
  e.updateEntry name fun entry => { entry with slot := .settled outcome, settled := true }

/-- The engine that has left the innermost merge with an outcome. -/
def close (e : Engine) (name : String) (outcome : Outcome) : Engine :=
  { e with spans := e.spans.dropLast }.settle name outcome

/-- The engine with a failure counted and logged. -/
def fail (e : Engine) (name : String) (error : CompositionError) : Engine :=
  ({ e with
      metrics := { e.metrics with
        compositionsFailed := e.metrics.compositionsFailed + 1 } }.logged
    (.counted .compositionsFailed)).logged (.compositionFailed name error)

/-- The engine with an outcome logged. -/
def logOutcome (e : Engine) (name : String) : Outcome → Engine
  | .ok table => e.logged (.compositionFinished name table.entries.size table.digest)
  | .error error => e.fail name error

/-- The engine after the innermost merge has come to an outcome. -/
def leave (e : Engine) (name : String) (outcome : Outcome) : Engine :=
  (e.logOutcome name outcome).close name outcome

/-- The error of a type whose merge has panicked. -/
def panicError (payload : Panic) (name : String) : CompositionError :=
  .compositionPanicked (.type name) payload.message

/-- The engine after a panic has left the innermost merge. -/
def unwind (e : Engine) (payload : Panic) (name : String) : Engine :=
  ({ e with spans := e.spans.dropLast }.fail name (panicError payload name)).settle name
    (.error (panicError payload name))

/-- How a composition ends, by how its merge has ended. -/
def afterMerge (name : String) : Except Halt Outcome × Engine → Except Halt Outcome × Engine
  | (.ok outcome, e) => (.ok outcome, e.leave name outcome)
  | (.error (.panic payload), e) => (.error (.panic payload), e.unwind payload name)
  | (.error .abort, e) => (.error .abort, { e with spans := e.spans.dropLast })

/-- The answer to a composition that starts no merge. -/
def answer? (e : Engine) (name : String) : Option Outcome :=
  match e.find? name with
  | none => some (.error (.unknownType name))
  | some t =>
    match t.slot with
    | .settled outcome => some outcome
    | .running => some (.error (.reentrantComposition name))
    | .vacant => none

end Engine

/-! ## Steps -/

/-- Marking a type as settled and filling its slot. -/
theorem Engine.settle_eq (e : Engine) (name : String) (outcome : Outcome) :
    ((e.updateEntry name fun entry => { entry with settled := true }).updateEntry name
      fun entry => { entry with slot := .settled outcome }) = e.settle name outcome := by
  unfold settle updateEntry
  simp only [List.map_map]
  congr 1
  refine List.map_congr_left fun t _ => ?_
  simp only [Function.comp]
  split_ifs with h
  · rfl
  · rfl

section Steps

variable {e e₁ : Engine} {name : String} {t : TypeEntry}

theorem runFrom_inSpan {α : Type} (typeName : String) (step : EngineM α) (e : Engine) :
    runFrom (EngineM.inSpan typeName step) e =
      ((runFrom step { e with spans := e.spans ++ [typeName] }).1,
        { (runFrom step { e with spans := e.spans ++ [typeName] }).2 with spans := e.spans }) := by
  unfold EngineM.inSpan EngineM.attempt EngineM.resume
  rw [runFrom_bind_ok (runFrom_get e), runFrom_bind_ok (runFrom_modify _ _),
    runFrom_bind_ok (runFrom_lift_run _ _), runFrom_bind_ok (runFrom_modify _ _),
    runFrom_mk_pure]

theorem runFrom_setSlot (name : String) (slot : Slot MethodTable) (e : Engine) :
    runFrom (EngineM.setSlot name slot) e =
      (.ok (), e.updateEntry name fun entry => { entry with slot }) := rfl

theorem runFrom_settlePanic (name : String) (payload : Panic) (e : Engine) :
    runFrom (EngineM.settlePanic name payload) e =
      (.ok (), (e.fail name (Engine.panicError payload name)).settle name
        (.error (Engine.panicError payload name))) := by
  rw [← Engine.settle_eq]
  rfl

/-- A merge within its type, by how the merge of the table ends. -/
theorem runFrom_merge (compose : String → EngineM Outcome) (t : AdoptingType) (e : Engine) :
    runFrom (EngineM.merge compose t) e =
      match runFrom (EngineM.mergeTable compose t).run (e.start t) with
      | (.ok outcome, e₁) =>
        (.ok outcome, { (e₁.logOutcome t.name outcome).updateEntry t.name
          (fun entry => { entry with settled := true }) with spans := e.spans })
      | (.error halt, e₁) => (.error halt, { e₁ with spans := e.spans }) := by
  have hstart (next : EngineM Outcome) :
      runFrom (do
        EngineM.count .mergesExecuted
        EngineM.emit (.compositionStarted t.name t.declaredRoles.length)
        next) { e with spans := e.spans ++ [t.name] } = runFrom next (e.start t) := rfl
  unfold EngineM.merge
  rw [runFrom_inSpan, hstart, runFrom_bind]
  rcases runFrom (EngineM.mergeTable compose t).run (e.start t) with ⟨halt | error | table, e₁⟩
  · rfl
  · rfl
  · rfl

theorem spans_logOutcome (e : Engine) (name : String) (outcome : Outcome) :
    (e.logOutcome name outcome).spans = e.spans := by
  cases outcome <;> rfl

/-- How a composition of a vacant type ends, by how the merge of its table ends. -/
theorem runFrom_composeWithin {depth : Nat} (ht : e.find? name = some t) (hv : t.slot = .vacant)
    (hspans : (runFrom (EngineM.mergeTable (EngineM.composeWithin depth) t.definition).run
      (e.enter t.definition)).2.spans = e.spans ++ [name]) :
    runFrom (EngineM.composeWithin (depth + 1) name) e =
      Engine.afterMerge name (runFrom
        (EngineM.mergeTable (EngineM.composeWithin depth) t.definition).run
        (e.enter t.definition)) := by
  have hname := Engine.name_of_find? ht
  unfold EngineM.composeWithin EngineM.attempt
  rw [runFrom_bind_ok (runFrom_get e), ht]
  simp only [hv]
  rw [← hname, runFrom_bind_ok (runFrom_setSlot _ _ _), runFrom_bind_ok (runFrom_lift_run _ _),
    runFrom_merge]
  rw [show (e.updateEntry t.definition.name fun entry => { entry with slot := .running }).start
    t.definition = e.enter t.definition from rfl]
  generalize runFrom (EngineM.mergeTable (EngineM.composeWithin depth) t.definition).run
    (e.enter t.definition) = run at hspans ⊢
  obtain ⟨exit, e₁⟩ := run
  -- the span that is left is the one that was entered
  have hdrop : e₁.spans.dropLast = e.spans := by
    rw [show e₁.spans = e.spans ++ [name] from hspans, List.dropLast_concat]
  rcases exit with (payload | _) | outcome
  · show runFrom (EngineM.settlePanic t.definition.name payload >>= fun _ =>
      throw (.panic payload)) _ = _
    rw [runFrom_bind_ok (runFrom_settlePanic _ _ _), runFrom_throw]
    show _ = (Except.error (Halt.panic payload), e₁.unwind payload t.definition.name)
    rw [Engine.unwind, hdrop]
    rfl
  · show _ = (Except.error Halt.abort, { e₁ with spans := e₁.spans.dropLast })
    rw [hdrop]
    rfl
  · show runFrom (EngineM.setSlot t.definition.name (.settled outcome) >>= fun _ =>
      pure outcome) _ = _
    rw [runFrom_bind_ok (runFrom_setSlot _ _ _), runFrom_pure]
    show _ = (Except.ok outcome, e₁.leave t.definition.name outcome)
    rw [Engine.leave, Engine.close, spans_logOutcome, hdrop, ← Engine.settle_eq]
    rfl

/-- Without a merge a composition changes nothing. -/
theorem runFrom_composeWithin_of_answer {outcome : Outcome} (h : e.answer? name = some outcome)
    (depth : Nat) : runFrom (EngineM.composeWithin depth name) e = (.ok outcome, e) := by
  unfold Engine.answer? at h
  unfold EngineM.composeWithin
  rw [runFrom_bind_ok (runFrom_get e)]
  cases ht : e.find? name with
  | none =>
    rw [ht] at h
    cases h
    rfl
  | some t =>
    rw [ht] at h
    cases hslot : t.slot with
    | vacant =>
      simp only [hslot] at h
      cases h
    | running =>
      simp only [hslot] at h ⊢
      cases h
      rfl
    | settled outcome' =>
      simp only [hslot] at h ⊢
      cases h
      rfl

/-- Without a merge no hook gets control. -/
theorem trail_compose_of_answer {outcome : Outcome} (h : e.answer? name = some outcome)
    (depth : Nat) : Trail.compose depth name e = [] := by
  cases depth with
  | zero => rfl
  | succ depth =>
    unfold Engine.answer? at h
    unfold Trail.compose
    cases ht : e.find? name with
    | none => rfl
    | some t =>
      cases hslot : t.slot with
      | vacant =>
        simp only [ht, hslot] at h
        cases h
      | running => simp only [hslot]
      | settled outcome' => simp only [hslot]

theorem answer?_eq_none :
    e.answer? name = none ↔ ∃ t, e.find? name = some t ∧ t.slot = .vacant := by
  unfold Engine.answer?
  cases ht : e.find? name with
  | none => simp
  | some t => cases hslot : t.slot <;> simp [hslot]

theorem trail_compose {depth : Nat} (ht : e.find? name = some t) (hv : t.slot = .vacant) :
    Trail.compose (depth + 1) name e =
      Trail.mergeTable depth (Trail.compose depth) t.definition (e.enter t.definition) := by
  rw [Trail.compose, ht]
  simp only [hv]
  rw [← Engine.name_of_find? ht]
  rfl

end Steps

namespace Engine

/-! ## Soundness -/

section Soundness

variable {e e₁ : Engine} {name : String} {t : TypeEntry}

theorem slotOf_updateEntry_self {f : TypeEntry → TypeEntry}
    (hf : ∀ t, (f t).definition = t.definition) (ht : e.find? name = some t) :
    (e.updateEntry name f).slotOf name = (f t).slot := by
  unfold slotOf
  rw [find?_updateEntry hf, ht]
  simp

theorem slotOf_updateEntry_of_ne {f : TypeEntry → TypeEntry}
    (hf : ∀ t, (f t).definition = t.definition) {b : String} (hb : b ≠ name) :
    (e.updateEntry name f).slotOf b = e.slotOf b := by
  unfold slotOf
  rw [find?_updateEntry hf]
  simp [hb]

/-- The entries once a merge has begun. -/
theorem find?_enter (e : Engine) (t : AdoptingType) (b : String) :
    (e.enter t).find? b = (e.find? b).map fun entry =>
      if b = t.name then { entry with slot := .running } else entry :=
  find?_updateEntry (e := e) (f := fun entry => { entry with slot := .running }) (fun _ => rfl) b

theorem find?_enter_self (ht : e.find? t.definition.name = some t) :
    (e.enter t.definition).find? t.definition.name = some { t with slot := .running } := by
  rw [find?_enter, ht, Option.map_some, if_pos rfl]

/-- The one entry of a name. -/
theorem Sound.eq_of_name (hs : e.Sound) (ht : e.find? name = some t) {t' : TypeEntry}
    (ht' : t' ∈ e.types) (hname : t'.definition.name = name) : t' = t := by
  have hfind := find?_of_mem hs.distinct ht'
  rw [hname, ht] at hfind
  exact (Option.some.inj hfind).symm

theorem starts_logged (e : Engine) (event : Event) (name : String) :
    (e.logged event).starts name = e.starts name +
      match event with
      | .compositionStarted typeName _ => if typeName = name then 1 else 0
      | _ => 0 := by
  unfold starts logged
  rw [List.countP_append, List.countP_singleton]
  cases event <;> simp

/-- An engine stays sound when the entry of one type is changed together with what else there is
to say of that type. -/
theorem Sound.update {f : TypeEntry → TypeEntry} (hs : e.Sound) (ht : e.find? name = some t)
    (hf : ∀ t, (f t).definition = t.definition)
    (hmarked : (f t).settled = (f t).slot.state.isTerminal)
    (hsettles : ∀ outcome, (f t).slot = .settled outcome →
      e.registry.Settles e.config t.definition outcome)
    (hregistry : e₁.registry = e.registry) (hconfig : e₁.config = e.config)
    (htypes : e₁.types = (e.updateEntry name f).types) (hnested : e₁.spans.Nodup)
    (hself : name ∈ e₁.spans ↔ (f t).slot = .running)
    (hother : ∀ b, b ≠ name → (b ∈ e₁.spans ↔ b ∈ e.spans))
    (hstarts : ∀ b, e₁.starts b =
      if b = name then if (f t).slot.isVacant then 0 else 1 else e.starts b) : e₁.Sound := by
  have hslot (b : String) : e₁.slotOf b = (e.updateEntry name f).slotOf b := by
    unfold slotOf find?
    rw [htypes]
  refine ⟨hregistry ▸ hs.registry, ?_, fun t' ht' => ?_, fun t' ht' outcome ho => ?_, hnested,
    fun b => ?_, fun b => ?_⟩
  · rw [htypes, names_updateEntry hf]
    exact hs.distinct
  · rw [htypes] at ht'
    obtain ⟨t₀, ht₀, ⟨hname, rfl⟩ | ⟨-, rfl⟩⟩ := mem_updateEntry ht'
    · rw [hs.eq_of_name ht ht₀ hname]
      exact hmarked
    · exact hs.marked _ ht₀
  · rw [hregistry, hconfig]
    rw [htypes] at ht'
    obtain ⟨t₀, ht₀, ⟨hname, rfl⟩ | ⟨-, rfl⟩⟩ := mem_updateEntry ht'
    · rw [hs.eq_of_name ht ht₀ hname] at ho ⊢
      rw [hf]
      exact hsettles outcome ho
    · exact hs.settles _ ht₀ outcome ho
  · rw [hslot]
    by_cases hb : b = name
    · rw [hb, slotOf_updateEntry_self hf ht]
      exact hself
    · rw [slotOf_updateEntry_of_ne hf hb, hother b hb]
      exact hs.running b
  · rw [hslot, hstarts]
    by_cases hb : b = name
    · rw [if_pos hb, hb, slotOf_updateEntry_self hf ht]
    · rw [if_neg hb, slotOf_updateEntry_of_ne hf hb]
      exact hs.started b

/-- A vacant type whose merge begins is running from then on. -/
theorem Sound.enter (hs : e.Sound) (ht : e.find? name = some t) (hv : t.slot = .vacant) :
    (e.enter t.definition).Sound := by
  have hname := name_of_find? ht
  have hslot : e.slotOf name = .vacant := (slotOf_of_find? ht).trans hv
  have hfree : name ∉ e.spans := by
    rw [hs.running, hslot]
    simp
  have hspans : (e.enter t.definition).spans = e.spans ++ [name] := by
    rw [← hname]
    rfl
  have htypes : (e.enter t.definition).types =
      (e.updateEntry name fun entry => { entry with slot := .running }).types := by
    rw [← hname]
    rfl
  refine hs.update (f := fun entry => { entry with slot := .running }) ht (fun _ => rfl) ?_
    (fun outcome ho => by cases ho) rfl rfl htypes ?_ ?_ (fun b hb => ?_) fun b => ?_
  · rw [hs.marked t (mem_of_find? ht), hv]
    rfl
  · rw [hspans]
    exact List.nodup_append.2 ⟨hs.nested, List.nodup_singleton _, by
      rintro a ha b hb rfl
      rw [List.mem_singleton.1 hb] at ha
      exact hfree ha⟩
  · simp [hspans]
  · simp [hspans, hb]
  · have hstarts : (e.enter t.definition).starts b = e.starts b + if name = b then 1 else 0 := by
      unfold Engine.enter start
      rw [starts_logged, starts_logged, ← hname]
      rfl
    rw [hstarts]
    by_cases hb : b = name
    · rw [if_pos hb, if_pos hb.symm, hb, hs.started, hslot]
      rfl
    · rw [if_neg hb, if_neg (Ne.symm hb), Nat.add_zero]

/-- Fewer types are vacant once a merge has begun. -/
theorem vacantTypes_enter (ht : e.find? name = some t) (hv : t.slot = .vacant) :
    (e.enter t.definition).vacantTypes < e.vacantTypes := by
  let f : TypeEntry → TypeEntry := fun entry =>
    if entry.definition.name = t.definition.name then { entry with slot := .running } else entry
  have htypes : (e.enter t.definition).types = e.types.map f := rfl
  have hf : (f t).slot = .running := by simp [f]
  have hle (l : List TypeEntry) : l.countP ((fun t => t.slot.isVacant) ∘ f) ≤
      l.countP fun t => t.slot.isVacant := by
    refine List.countP_mono_left fun entry _ h => ?_
    simp only [Function.comp, f] at h
    split_ifs at h
    · cases h
    · exact h
  obtain ⟨before, after, hl⟩ := List.append_of_mem (mem_of_find? ht)
  have hbefore := hle before
  have hafter := hle after
  unfold vacantTypes
  rw [htypes, List.countP_map, hl, List.countP_append, List.countP_append, List.countP_cons,
    List.countP_cons, Function.comp_apply, hf, hv]
  show _ + (_ + 0) < _ + (_ + 1)
  omega

theorem progress_enter (ht : e.find? name = some t) (hv : t.slot = .vacant) :
    e.Progress (e.enter t.definition) := by
  have hname := name_of_find? ht
  refine ⟨rfl, rfl, fun b t' ht' => ?_⟩
  have hfind := find?_enter e t.definition b
  rw [ht', hname] at hfind
  refine ⟨_, hfind, ?_⟩
  split_ifs with hb
  · rw [hb, ht] at ht'
    cases ht'
    rw [hv]
    exact ⟨rfl, .start⟩
  · exact ⟨rfl, .same _⟩

/-- The innermost of the types that are running is left with an outcome. -/
theorem Sound.close (hs : e.Sound) {outer : List String} (hspans : e.spans = outer ++ [name])
    {outcome : Outcome} (ht : e.find? name = some t)
    (ho : e.registry.Settles e.config t.definition outcome) : (e.close name outcome).Sound := by
  have hspans' : (e.close name outcome).spans = outer := by
    show e.spans.dropLast = outer
    rw [hspans, List.dropLast_concat]
  have hnested := hs.nested
  rw [hspans] at hnested
  have hfree : name ∉ outer := fun h =>
    (List.nodup_append.1 hnested).2.2 name h name (List.mem_singleton_self _) rfl
  have hrunning : e.slotOf name = .running := by
    rw [← hs.running, hspans]
    simp
  refine hs.update (f := fun entry => { entry with slot := .settled outcome, settled := true }) ht
    (fun _ => rfl) ?_ (fun outcome' ho' => ?_) rfl rfl rfl ?_ ?_ (fun b hb => ?_) fun b => ?_
  · cases outcome <;> rfl
  · cases ho'
    exact ho
  · rw [hspans']
    exact (List.nodup_append.1 hnested).1
  · simp [hspans', hfree]
  · simp [hspans', hspans, hb]
  · show e.starts b = _
    by_cases hb : b = name
    · rw [if_pos hb, hb, hs.started, hrunning]
      rfl
    · rw [if_neg hb]

/-- Entering a merge and leaving it leads from a vacant type to a settled one. -/
theorem leads_close (ht : e.find? name = some t) (hv : t.slot = .vacant) (hs : e.Sound)
    (h : (e.enter t.definition).Leads e₁) (outcome : Outcome) :
    e.Leads (e₁.close name outcome) := by
  have hname := name_of_find? ht
  refine ⟨h.definitions, h.config, ?_, ?_⟩
  · show e₁.spans.dropLast = e.spans
    rw [h.spans, show (e.enter t.definition).spans = e.spans ++ [t.definition.name] from rfl,
      List.dropLast_concat]
  · have hvacant : ∀ entry ∈ e.types, entry.definition.name = name → entry.slot = .vacant := by
      intro entry hmem hentry
      rw [hs.eq_of_name ht hmem hentry, hv]
    have htypes := h.types
    rw [show (e.enter t.definition).types = e.types.map fun entry =>
      if entry.definition.name = name then { entry with slot := .running } else entry from
        hname ▸ rfl, List.forall₂_map_left_iff] at htypes
    refine List.forall₂_map_right_iff.2
      (((List.forall₂_and_left _ _).2 ⟨hvacant, htypes⟩).imp fun a b hab => ?_)
    obtain ⟨ha, hlead⟩ := hab
    by_cases hname' : a.definition.name = name
    · rw [if_pos hname'] at hlead
      -- the entry has been running since the merge was entered, and a step leaves it so
      have heq := hlead.eq_of_not_vacant (by simp)
      rw [heq]
      rw [if_pos hname']
      exact .inr ⟨ha hname', rfl, outcome, rfl⟩
    · rw [if_neg hname'] at hlead
      rw [if_neg (by rw [hlead.definition]; exact hname')]
      exact hlead

theorem quiet_leave (e : Engine) (name : String) (outcome : Outcome) :
    (e.close name outcome).Quiet (e.leave name outcome) := by
  cases outcome with
  | ok table =>
    refine ⟨rfl, rfl, rfl, rfl, fun b => ?_⟩
    exact starts_logged _ _ _
  | error error =>
    refine ⟨rfl, rfl, rfl, rfl, fun b => ?_⟩
    exact (starts_logged _ _ _).trans (starts_logged _ _ _)

theorem quiet_unwind (e : Engine) (payload : Panic) (name : String) :
    (e.close name (.error (panicError payload name))).Quiet (e.unwind payload name) := by
  refine ⟨rfl, rfl, rfl, rfl, fun b => ?_⟩
  exact (starts_logged _ _ _).trans (starts_logged _ _ _)

/-! ## Entries after leaving -/

theorem find?_settle (e : Engine) (name : String) (outcome : Outcome) (b : String) :
    (e.settle name outcome).find? b = (e.find? b).map fun t =>
      if b = name then { t with slot := .settled outcome, settled := true } else t :=
  find?_updateEntry (e := e)
    (f := fun entry => { entry with slot := .settled outcome, settled := true }) (fun _ => rfl) b

theorem find?_close (e : Engine) (name : String) (outcome : Outcome) (b : String) :
    (e.close name outcome).find? b = (e.find? b).map fun t =>
      if b = name then { t with slot := .settled outcome, settled := true } else t :=
  find?_settle { e with spans := e.spans.dropLast } name outcome b

theorem find?_leave (e : Engine) (name : String) (outcome : Outcome) (b : String) :
    (e.leave name outcome).find? b = (e.find? b).map fun t =>
      if b = name then { t with slot := .settled outcome, settled := true } else t :=
  ((quiet_leave e name outcome).find? b).trans (find?_close e name outcome b)

theorem find?_unwind (e : Engine) (payload : Panic) (name b : String) :
    (e.unwind payload name).find? b = (e.find? b).map fun t =>
      if b = name then
        { t with slot := .settled (.error (panicError payload name)), settled := true }
      else t :=
  ((quiet_unwind e payload name).find? b).trans (find?_close e name _ b)

end Soundness

end Engine

end RoleComposition
