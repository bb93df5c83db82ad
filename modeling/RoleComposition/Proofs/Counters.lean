import Mathlib.Algebra.GroupWithZero.Nat
import RoleComposition.Proofs.Log.RunSteps

/-!
# What the counters say

The counters of an engine are told apart from its types only by how they are kept: step by step,
each at another place. Here they are compared with the slots. A merge counts when it begins, a
failure when it is stored, conflicts as far as the stored errors list them, and rejections once
their merge has ended without a panic. Main statements: `telling_accounted` (this holds at every
moment, also while merges are under way) and `counters_of_idle`.
-/

namespace RoleComposition

namespace Slot

/-- One for a composition that has been started. -/
def starts (slot : Slot MethodTable) : Nat := if slot.isVacant then 0 else 1

/-- One for a composition that has failed. -/
def failures : Slot MethodTable → Nat
  | settled (.error _) => 1
  | _ => 0

/-- The number of signatures that a stored conflict lists. -/
def conflicts : Slot MethodTable → Nat
  | settled (.error (.roleConflict _ conflicts)) => conflicts.length
  | _ => 0

/-- The composition has been ended by a panic. -/
def panicked : Slot MethodTable → Bool
  | settled (.error (.compositionPanicked _ _)) => true
  | _ => false

/-- The composition has come to an end by itself. -/
def concluded (slot : Slot MethodTable) : Bool := slot.state.isTerminal && !slot.panicked

end Slot

/-- The sum of a number for each type, by its slot. -/
def Engine.total (e : Engine) (weight : Slot MethodTable → Nat) : Nat :=
  (e.types.map fun t => weight t.slot).sum

/-- The counters are what the slots and the rejections so far come to. -/
structure Engine.Accounted (past : List Question) (e : Engine) : Prop where
  merges : e.metrics.mergesExecuted = e.total Slot.starts
  failures : e.metrics.compositionsFailed = e.total Slot.failures
  conflicts : e.metrics.conflictsDetected = e.total Slot.conflicts
  vetoes : e.metrics.candidatesVetoed = past.countP fun q => (e.slotOf q.typeName).concluded

/-! ## Sums over types -/

/-- Changing the one entry of a name changes a sum by what the entry contributes. -/
theorem Engine.total_updateEntry {e : Engine} (hs : e.Sound) {name : String} {t : TypeEntry}
    (ht : e.find? name = some t) (f : TypeEntry → TypeEntry) (weight : Slot MethodTable → Nat) :
    (e.updateEntry name f).total weight + weight t.slot = e.total weight + weight (f t).slot := by
  have hname := name_of_find? ht
  obtain ⟨before, after, hl⟩ := List.append_of_mem (mem_of_find? ht)
  have hdistinct := hs.distinct
  rw [hl, List.map_append, List.map_cons, List.nodup_append] at hdistinct
  have hsame (l : List TypeEntry) (h : ∀ t' ∈ l, t'.definition.name ≠ name) :
      (l.map fun t' => if t'.definition.name = name then f t' else t') = l :=
    (List.map_congr_left fun t' ht' => if_neg (h t' ht')).trans (List.map_id' l)
  have hbefore : ∀ t' ∈ before, t'.definition.name ≠ name := by
    rintro t' ht' rfl
    exact hdistinct.2.2 _ (List.mem_map_of_mem ht') _ (by rw [hname]; exact List.mem_cons_self) rfl
  have hafter : ∀ t' ∈ after, t'.definition.name ≠ name := by
    rintro t' ht' rfl
    exact (List.nodup_cons.1 hdistinct.2.1).1 (by rw [hname]; exact List.mem_map_of_mem ht')
  unfold total updateEntry
  rw [hl, List.map_append, List.map_cons, hsame before hbefore, hsame after hafter, if_pos hname]
  simp only [List.map_append, List.map_cons, List.sum_append, List.sum_cons]
  omega

theorem Engine.total_adding (e : Engine) (t : AdoptingType) (weight : Slot MethodTable → Nat) :
    (e.adding t).total weight = e.total weight + weight .vacant := by
  unfold total adding
  simp

/-- When one more slot is concluded, what has been rejected in its name counts as well. -/
theorem countP_concluded (slotOf slotOf' : String → Slot MethodTable) {name : String}
    (hother : ∀ b, b ≠ name → slotOf' b = slotOf b) (hopen : (slotOf name).concluded = false)
    (past : List Question) :
    (past.countP fun q => (slotOf' q.typeName).concluded) =
      (past.countP fun q => (slotOf q.typeName).concluded) +
        if (slotOf' name).concluded then (about name past).length else 0 := by
  induction past with
  | nil => simp [about]
  | cons q past ih =>
    unfold about at ih ⊢
    rw [List.countP_cons, List.countP_cons, ih, List.filter_cons]
    by_cases hq : q.typeName = name
    · subst hq
      split_ifs <;> simp_all
      omega
    · rw [hother _ hq]
      simp only [hq, beq_iff_eq, if_false]
      omega

/-! ## Steps -/

section Steps

variable {reg : Registry} {config : Config} {past : List Question} {e e' : Engine}

theorem Engine.Accounted.of_eq (h : e.Accounted past) (htypes : e'.types = e.types)
    (hmetrics : e'.metrics = e.metrics) : e'.Accounted past := by
  have hslot (b : String) : e'.slotOf b = e.slotOf b := by
    unfold slotOf find?
    rw [htypes]
  have htotal (weight : Slot MethodTable → Nat) : e'.total weight = e.total weight := by
    unfold total
    rw [htypes]
  refine ⟨?_, ?_, ?_, ?_⟩
  · rw [hmetrics, htotal, h.merges]
  · rw [hmetrics, htotal, h.failures]
  · rw [hmetrics, htotal, h.conflicts]
  · rw [hmetrics, h.vetoes]
    simp only [hslot]

/-- The slot of one type changes, and the counters go along. -/
theorem Engine.Accounted.of_updateEntry (h : e.Accounted past) (hs : e.Sound) {name : String}
    {t : TypeEntry} (ht : e.find? name = some t) {f : TypeEntry → TypeEntry}
    (hf : ∀ t, (f t).definition = t.definition) (htypes : e'.types = (e.updateEntry name f).types)
    (hopen : t.slot.concluded = false)
    (hmerges : e'.metrics.mergesExecuted + t.slot.starts =
      e.metrics.mergesExecuted + (f t).slot.starts)
    (hfailures : e'.metrics.compositionsFailed + t.slot.failures =
      e.metrics.compositionsFailed + (f t).slot.failures)
    (hconflicts : e'.metrics.conflictsDetected + t.slot.conflicts =
      e.metrics.conflictsDetected + (f t).slot.conflicts)
    (hvetoes : e'.metrics.candidatesVetoed =
      e.metrics.candidatesVetoed + if (f t).slot.concluded then (about name past).length else 0) :
    e'.Accounted past := by
  have htotal (weight : Slot MethodTable → Nat) :
      e'.total weight + weight t.slot = e.total weight + weight (f t).slot := by
    have htotal := total_updateEntry hs ht f weight
    unfold total at htotal ⊢
    rwa [htypes]
  have hslot (b : String) : e'.slotOf b = (e.updateEntry name f).slotOf b := by
    unfold slotOf find?
    rw [htypes]
  have hcount := countP_concluded e.slotOf e'.slotOf
    (fun b hb => (hslot b).trans (slotOf_updateEntry_of_ne hf hb))
    ((congrArg Slot.concluded (slotOf_of_find? ht)).trans hopen) past
  rw [hslot name, slotOf_updateEntry_self hf ht, ← h.vetoes, ← hvetoes] at hcount
  refine ⟨?_, ?_, ?_, hcount.symm⟩
  · have hsum := htotal Slot.starts
    rw [← h.merges] at hsum
    omega
  · have hsum := htotal Slot.failures
    rw [← h.failures] at hsum
    omega
  · have hsum := htotal Slot.conflicts
    rw [← h.conflicts] at hsum
    omega

theorem Engine.metrics_leave (e : Engine) (name : String) (outcome : Outcome) :
    (e.leave name outcome).metrics = { e.metrics with
      compositionsFailed := e.metrics.compositionsFailed + (Slot.settled outcome).failures } := by
  cases outcome <;> rfl

theorem Engine.types_leave (e : Engine) (name : String) (outcome : Outcome) :
    (e.leave name outcome).types = (e.settle name outcome).types := by
  cases outcome <;> rfl

/-- The checks that come before the offers find no conflict. -/
theorem Registry.conflicts_of_check {t : AdoptingType} {error : CompositionError}
    (h : reg.check config t = .error error) :
    (Slot.settled (.error error) : Slot MethodTable).conflicts = 0 := by
  rcases check_eq_error h with horder | ⟨order, -, hstorage | ⟨-, hvalidate⟩⟩
  · obtain ⟨b, -, ⟨-, rfl⟩ | ⟨-, cycle, rfl⟩⟩ := faulty_of_resolutionOrder horder
    · rfl
    · rfl
  · obtain ⟨role, fields, rfl⟩ := Engine.checkStorage_eq_error hstorage
    rfl
  · rw [AdoptingType.validate_eq_error hvalidate]
    rfl

/-- An error that a merge has found is no panic. -/
theorem CompositionError.IsFound.concluded {error : CompositionError} (h : error.IsFound) :
    (Slot.settled (.error error) : Slot MethodTable).concluded = true := by
  cases error <;> first | rfl | exact h.elim

/-- The end of a merge under way, with the counters that its outcome adds to. -/
theorem Engine.Accounted.leave {t : AdoptingType} {outer : List String} {events : List Event}
    (h : e.Accounted past) (hwithin : Within reg config t outer events past e) (tally : Tally)
    (outcome : Outcome) (hconflicts : tally.conflicts.length = (Slot.settled outcome).conflicts)
    (hconcluded : (Slot.settled outcome).concluded = true)
    (hvetoed : tally.vetoed = (about t.name past).length) :
    ((e.countTally tally).leave t.name outcome).Accounted past := by
  obtain ⟨entry, hentry, -⟩ := hwithin.entry
  have hslot : entry.slot = .running := (slotOf_of_find? hentry).symm.trans hwithin.running
  refine h.of_updateEntry hwithin.upon.sound hentry
    (f := fun entry => { entry with slot := .settled outcome, settled := true }) (fun _ => rfl)
    (types_leave _ _ _) ?_ ?_ ?_ ?_ ?_
  · rw [hslot]
    rfl
  · rw [metrics_leave, hslot]
    rfl
  · rw [metrics_leave, hslot]
    rfl
  · rw [metrics_leave, hslot]
    exact congrArg _ hconflicts
  · rw [metrics_leave, if_pos hconcluded, ← hvetoed]
    rfl

theorem telling_accounted (reg : Registry) (config : Config) :
    Telling reg config (fun past e => e.Accounted past) (fun _ past e => e.Accounted past) where
  enters := fun {past e name t} hM hover ht hv => by
    rw [← Engine.name_of_find? ht] at ht
    refine hM.of_updateEntry hover.sound ht (f := fun entry => { entry with slot := .running })
      (fun _ => rfl) rfl ?_ ?_ ?_ ?_ rfl
    all_goals
      rw [hv]
      rfl
  fills := fun hN _ => hN.of_eq rfl rfl
  asks := fun hN _ => hN.of_eq rfl rfl
  notes := fun hN => hN.of_eq rfl rfl
  pauses := fun hN _ _ => hN
  resumes := fun _ hM _ => hM
  rejects := fun {t outer events past e o s} hN hwithin => by
    refine ⟨hN.merges, hN.failures, hN.conflicts, ?_⟩
    -- the merge that rejects is still under way
    have hopen : (e.slotOf t.name).concluded = false := by
      rw [hwithin.running]
      rfl
    rw [List.countP_append, List.countP_singleton]
    show _ = (past.countP fun q => (e.slotOf q.typeName).concluded) +
      if (e.slotOf t.name).concluded = true then 1 else 0
    rw [hopen]
    exact hN.vetoes
  conflicts := fun hN _ => hN.of_eq rfl rfl
  concludes := fun {t outer past e} hN hwithin hcheck => by
    have houtcome := Registry.outcomeOf_of_check_eq_ok hcheck (ruleOf past t.name)
    refine hN.leave hwithin _ _ ?_ ?_ ?_
    · rw [houtcome, AdoptingType.outcomeOfTally]
      cases (t.tally (ruleOf past t.name) (reg.offersTo t)).conflicts <;> rfl
    · cases hend : reg.outcomeOf config t (ruleOf past t.name) with
      | ok table => rfl
      | error error => exact (Registry.isFound_of_outcomeOf hend).concluded
    · rw [vetoed_tally, hwithin.rejected]
      unfold Registry.minutes
      rw [hcheck]
  refuses := fun {t outer past e error} hN hwithin hcheck => by
    have hleft := hN.leave hwithin (Tally.ofOwn t) (.error error)
      (Registry.conflicts_of_check hcheck).symm (Registry.isFound_of_check hcheck).concluded
      (by rw [hwithin.rejected]; rfl)
    exact hleft.of_eq rfl rfl
  unwinds := fun {t outer events past e payload} hN hwithin _ => by
    obtain ⟨entry, hentry, -⟩ := hwithin.entry
    have hslot : entry.slot = .running :=
      (Engine.slotOf_of_find? hentry).symm.trans hwithin.running
    refine hN.of_updateEntry hwithin.upon.sound hentry
      (f := fun entry => { entry with
        slot := .settled (.error (Engine.panicError payload t.name)), settled := true })
      (fun _ => rfl) rfl ?_ ?_ ?_ ?_ rfl
    all_goals
      rw [hslot]
      rfl
  declares := fun {past e t} hM _ => by
    refine ⟨?_, ?_, ?_, ?_⟩
    · rw [Engine.total_adding]
      exact hM.merges
    · rw [Engine.total_adding]
      exact hM.failures
    · rw [Engine.total_adding]
      exact hM.conflicts
    · simp only [Engine.slotOf_adding]
      exact hM.vetoes
  gathers := fun hM _ => hM.of_eq rfl rfl
  remarks := fun hM _ => hM.of_eq rfl rfl

end Steps

/-! ## Survivors -/

/-- The candidates that a decision leaves. -/
def Decision.survivors : Decision → List Candidate
  | .select c => [c]
  | .omit => []
  | .ambiguous cs => cs

theorem Decision.survivors_ofSurvivors (cs : List Candidate) :
    (ofSurvivors cs).survivors = cs := by
  rcases cs with _ | ⟨c, _ | ⟨c', cs⟩⟩ <;> rfl

section Survivors

variable {compose : String → EngineM Outcome} {t : AdoptingType} {s : Signature}
  {cs : List Candidate} {e e' : Engine}

/-- A hook keeps some of the candidates it is asked about, in their order. -/
theorem sublist_of_keepCandidates {hook : Hook} {kept : List Candidate}
    (h : runFrom (EngineM.keepCandidates compose t hook s cs) e = (.ok kept, e')) :
    kept.Sublist cs := by
  induction cs generalizing e kept with
  | nil =>
    cases h
    exact .slnil
  | cons c cs ih =>
    obtain ⟨keep, e₁, -, h⟩ := runFrom_bind_eq_ok h
    obtain ⟨rest, e₂, hrest, h⟩ := runFrom_bind_eq_ok h
    cases h
    cases keep with
    | true => exact (ih hrest).cons_cons c
    | false => exact (ih hrest).cons c

theorem survivors_of_resolve {decision : Decision}
    (h : runFrom (EngineM.resolve compose t s cs) e = (.ok decision, e')) :
    decision.survivors.Sublist cs := by
  unfold EngineM.resolve at h
  cases hveto : t.veto with
  | none =>
    rw [hveto] at h
    cases h
    rw [Decision.survivors_ofSurvivors]
  | some hook =>
    rw [hveto] at h
    obtain ⟨kept, e₁, hkept, h⟩ := runFrom_bind_eq_ok h
    cases h
    rw [Decision.survivors_ofSurvivors]
    exact sublist_of_keepCandidates hkept

/-- The rejections that a decision stands for are the candidates that it does not leave. -/
theorem Tally.vetoed_add (tally : Tally) (s : Signature) {decision : Decision} {offered : Nat}
    (h : decision.survivors.length ≤ offered) :
    (tally.add s offered decision).vetoed + decision.survivors.length =
      tally.vetoed + offered := by
  rcases decision with c | _ | cs
  · have hpos : 1 ≤ offered := h
    show tally.vetoed + (offered - 1) + 1 = _
    omega
  · rfl
  · have hle : cs.length ≤ offered := h
    show tally.vetoed + (offered - cs.length) + cs.length = _
    omega

end Survivors

/-! ## Engines at rest -/

theorem Engine.total_eq_countP {e : Engine} {weight : Slot MethodTable → Nat}
    {p : TypeEntry → Bool} (h : ∀ t ∈ e.types, weight t.slot = if p t then 1 else 0) :
    e.total weight = e.types.countP p := by
  unfold total
  rw [List.map_congr_left h]
  generalize e.types = types
  induction types with
  | nil => rfl
  | cons t types ih =>
    rw [List.map_cons, List.sum_cons, ih, List.countP_cons]
    omega

/-- Whenever no composition of an engine is under way, its counters are the numbers of types that
are composed or have failed, of those that have failed, of the signatures that the stored conflicts
list, and of the candidates that were rejected in merges that have not panicked. A decision never
leaves more candidates than there are, so that the rejections are counted without a shortfall. -/
theorem counters_of_idle {b : RegistryBuilder} {config : Config} {rs : List Request}
    {past : List Question} {e : Engine} (hseen : Seen (Engine.new b.freeze config) rs past e)
    (hidle : ∀ t ∈ e.types, t.slot ≠ .running) :
    e.metrics.mergesExecuted = e.types.countP (fun t => t.slot.state.isTerminal) ∧
      e.metrics.compositionsFailed = e.types.countP (fun t => decide (t.slot.state = .failed)) ∧
      e.metrics.conflictsDetected = (e.types.map fun t => t.slot.conflicts).sum ∧
      e.metrics.candidatesVetoed = past.countP (fun q => !(e.slotOf q.typeName).panicked) ∧
      ∀ compose t s cs e₁ e₂ decision,
        runFrom (EngineM.resolve compose t s cs) e₁ = (.ok decision, e₂) →
          decision.survivors.length ≤ cs.length ∧
          ∀ tally : Tally, (tally.add s cs.length decision).vetoed + decision.survivors.length =
            tally.vetoed + cs.length := by
  have hnew : (Engine.new b.freeze config).Accounted [] := ⟨rfl, rfl, rfl, rfl⟩
  obtain ⟨-, hblocks, haccounted⟩ := told_of_seen (telling_accounted b.freeze config) hnew hseen
  refine ⟨?_, ?_, haccounted.conflicts, ?_, fun compose t s cs e₁ e₂ decision hrun => ?_⟩
  · rw [haccounted.merges]
    refine Engine.total_eq_countP fun t ht => ?_
    have hrunning := hidle t ht
    rcases hslot : t.slot with _ | _ | (error | table)
    · rfl
    · exact absurd hslot hrunning
    · rfl
    · rfl
  · rw [haccounted.failures]
    refine Engine.total_eq_countP fun t _ => ?_
    rcases t.slot with _ | _ | (error | table) <;> rfl
  · rw [haccounted.vetoes]
    refine List.countP_congr fun q hq => ?_
    -- what has been rejected belongs to a merge that has begun
    have hstarted : e.slotOf q.typeName ≠ .vacant := by
      intro hv
      have hmem : q ∈ about q.typeName past := List.mem_filter.2 ⟨hq, by simp⟩
      rw [(hblocks.fresh _ hv).2] at hmem
      cases hmem
    obtain ⟨t, ht, hslot⟩ := Engine.exists_find?_of_slotOf hstarted
    have hrunning := hidle t (Engine.mem_of_find? ht)
    rw [← hslot] at hstarted ⊢
    rcases hs : t.slot with _ | _ | (error | table)
    · exact absurd hs hstarted
    · exact absurd hs hrunning
    · simp [Slot.concluded, Slot.state, CompositionState.isTerminal]
    · simp [Slot.concluded, Slot.state, CompositionState.isTerminal]
  · have hlength := (survivors_of_resolve hrun).length_le
    exact ⟨hlength, fun tally => Tally.vetoed_add tally s hlength⟩

/-- Of the four rejections in this run, three are those of a merge that has panicked. -/
theorem counters_of_shattering :
    let e := (Engine.new Sample.rivals.freeze {}).runThrough Sample.shattering
    (∀ t ∈ e.types, t.slot ≠ .running) ∧
      e.metrics = ⟨2, 2, 1, 1⟩ ∧
      2 = e.types.countP (fun t => t.slot.state.isTerminal) ∧
      2 = e.types.countP (fun t => decide (t.slot.state = .failed)) ∧
      1 = (e.types.map fun t => t.slot.conflicts).sum ∧
      1 = Sample.shattered.countP fun q => !(e.slotOf q.typeName).panicked := by
  intro e
  have hidle : ∀ t ∈ e.types, t.slot ≠ .running := by
    have hstates : ∀ t ∈ e.types, t.slot.state ≠ .composing := by decide +kernel
    intro t ht hrunning
    exact hstates t ht (by rw [hrunning]; rfl)
  have hmetrics : e.metrics = ⟨2, 2, 1, 1⟩ := by decide +kernel
  obtain ⟨hmerges, hfailures, hconflicts, hvetoes, -⟩ :=
    counters_of_idle (e := e) Sample.seen_shattering hidle
  rw [hmetrics] at hmerges hfailures hconflicts hvetoes
  exact ⟨hidle, hmetrics, hmerges, hfailures, hconflicts, hvetoes⟩

end RoleComposition
