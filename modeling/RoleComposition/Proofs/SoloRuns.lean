import RoleComposition.Engine.Race
import RoleComposition.Proofs.MutualHooks

/-!
# Compositions that one thread carries out

Slots that threads share move forward as the slots of an engine do (`Run.leads`). The steps of an
engine compose its types without other threads, and the merges under way are the calls of the one
thread. With the slots of its types as threads share them, an engine is a world of threads, and each
composition is a run of one of them: it asks only for what hooks may compose, and comes back with
what the composition ends with (`carriesOut_composeWithin`). The callers of a race are threads that
do so one after the other (`inTurn_of_race`).
-/

namespace RoleComposition

/-- What a step comes to whose call comes back so. -/
def Ending.toExit {α : Type} : Ending α → Except Halt (Except CompositionError α) :=
  Except.mapError .panic

theorem Ending.map_outcome {α : Type} (exit : Ending α) (panicked : String → CompositionError) :
    (exit.map fun _ => exit.outcome panicked) = exit := by
  cases exit <;> rfl

/-- The slot as threads share it, filled by the thread while it is running. -/
def Slot.shared {τ α : Type} (slot : Slot α) (t : τ) : SharedSlot τ α :=
  match slot with
  | .vacant => {}
  | .running => { runner := some t }
  | .settled outcome => .filled outcome

@[simp] theorem Slot.slot_shared {τ α : Type} (slot : Slot α) (t : τ) :
    (slot.shared t).slot = slot := by
  cases slot <;> rfl

namespace World

variable {τ κ α σ : Type} [DecidableEq τ] [DecidableEq κ] {c : Conduct κ α σ}
  {w w₁ : World τ κ α σ} {t : τ} {move : Move κ α}

theorem Step.leads (h : w.Sound c) (hstep : Step c w t move w₁) (k : κ) :
    (w.slots k).slot.Leads (w₁.slots k).slot := by
  rcases hstep.slot_cases h k with
    ⟨hsame, -⟩ | ⟨-, hrunner, houtcome, hslot⟩ | ⟨outcome, -, hrunner, houtcome, hslot⟩
  · rw [hsame]
    exact .same _
  · rw [hslot]
    simpa only [SharedSlot.slot, hrunner, houtcome] using .start
  · rw [hslot]
    simpa only [SharedSlot.slot, SharedSlot.filled, hrunner, houtcome] using .finish outcome

/-- However threads interleave, each slot moves as the slots of an engine do. -/
theorem Run.leads {ms : List (τ × Move κ α)} (h : w.Sound c) (hrun : Run c w ms w₁) (k : κ) :
    (w.slots k).slot.Leads (w₁.slots k).slot := by
  induction hrun with
  | nil => exact .same _
  | snoc hrun hstep ih => exact ih.trans (hstep.leads (hrun.sound h) k)

/-- Threads call for a slot, each when the one before it has come back, with these answers. -/
inductive InTurn (c : Conduct κ α σ) (k : κ) :
    World τ κ α σ → List (τ × Ending α) → World τ κ α σ → Prop
  | nil {w : World τ κ α σ} : InTurn c k w [] w
  | cons {w w₁ w₂ : World τ κ α σ} {t : τ} {exit : Ending α} {ms : List (Move κ α)}
      {answers : List (τ × Ending α)} : Solo c t w (ms ++ [.returned k exit]) w₁ →
      InTurn c k w₁ answers w₂ → InTurn c k w ((t, exit) :: answers) w₂

theorem InTurn.run {k : κ} {answers : List (τ × Ending α)} (h : InTurn c k w answers w₁) :
    ∃ ms, Run c w ms w₁ := by
  induction h with
  | nil => exact ⟨[], .nil⟩
  | cons hsolo _ ih =>
    obtain ⟨ms, hrun⟩ := ih
    exact ⟨_, hsolo.run.append hrun⟩

end World

namespace Engine

variable {τ : Type} [DecidableEq τ] {e e' : Engine} {t : τ} {name : String}
  {thread : Thread String MethodTable (Option String)}

/-- The slots of the types as threads share them. One thread is composing those that are running,
and the others are at rest. -/
def world (e : Engine) (t : τ) (thread : Thread String MethodTable (Option String)) :
    World τ String MethodTable (Option String) :=
  { slots := fun name => (e.slotOf name).shared t
    threads := fun t' => if t' = t then thread else { own := none } }

@[simp] theorem world_slots : (e.world t thread).slots name = (e.slotOf name).shared t := rfl

@[simp] theorem world_threads_self : (e.world t thread).threads t = thread := if_pos rfl

theorem world_threads_of_ne {t' : τ} (h : t' ≠ t) :
    (e.world t thread).threads t' = { own := none } :=
  if_neg h

theorem world_eq {w : World τ String MethodTable (Option String)}
    (hslots : ∀ name, w.slots name = (e.slotOf name).shared t) (hthread : w.threads t = thread)
    (hothers : ∀ t', t' ≠ t → w.threads t' = { own := none }) : w = e.world t thread := by
  obtain ⟨slots, threads⟩ := w
  obtain rfl : slots = fun name => (e.slotOf name).shared t := funext hslots
  unfold world
  congr
  funext t'
  split_ifs with ht
  · rw [ht]
    exact hthread
  · exact hothers t' ht

theorem run_world {c : Conduct String MethodTable (Option String)}
    {w w' : World τ String MethodTable (Option String)} {ms : List (τ × Move String MethodTable)}
    (h : World.Run c w ms w') (hslots : ∀ name, w'.slots name = (e.slotOf name).shared t)
    (hthread : w'.threads t = thread)
    (hothers : ∀ t', t' ≠ t → w'.threads t' = { own := none }) :
    World.Run c w ms (e.world t thread) :=
  world_eq hslots hthread hothers ▸ h

/-- The types are those of the other engine. -/
def SameTypes (e e' : Engine) : Prop :=
  ∀ name, (e'.find? name).map TypeEntry.definition = (e.find? name).map TypeEntry.definition

theorem SameTypes.trans {e₁ : Engine} (h : e.SameTypes e₁) (h' : e₁.SameTypes e') :
    e.SameTypes e' := fun name => (h' name).trans (h name)

theorem sameTypes_updateEntry {f : TypeEntry → TypeEntry}
    (hf : ∀ t, (f t).definition = t.definition) : e.SameTypes (e.updateEntry name f) := by
  intro b
  rw [find?_updateEntry hf, Option.map_map]
  congr 1
  funext t
  simp only [Function.comp]
  split_ifs
  · exact hf t
  · rfl

theorem Leads.sameTypes (h : e.Leads e') : e.SameTypes e' := by
  intro name
  have hrel := h.find? name
  generalize e.find? name = found, e'.find? name = found' at hrel
  cases hrel with
  | none => rfl
  | some hleads => simp [hleads.definition]

theorem SameTypes.symm (h : e.SameTypes e') : e'.SameTypes e := fun name => (h name).symm

theorem SameTypes.exists_find? (h : e.SameTypes e') {entry : TypeEntry}
    (hentry : e.find? name = some entry) :
    ∃ entry', e'.find? name = some entry' ∧ entry'.definition = entry.definition := by
  have hname := h name
  rw [hentry] at hname
  exact Option.map_eq_some_iff.mp hname

theorem SameTypes.find?_eq_none (h : e.SameTypes e') (hname : ¬ e.Declares name) :
    e'.find? name = none := by
  by_contra hsome
  obtain ⟨entry, hentry⟩ := Option.ne_none_iff_exists'.mp hsome
  obtain ⟨entry', hentry', -⟩ := h.symm.exists_find? hentry
  exact hname ⟨entry', hentry'⟩

/-- What threads ask for is declared. -/
theorem declares_of_asks {s : Option String} {may : String → String → Prop}
    (hasks : (e.composers may).asks s name) : e.Declares name := by
  cases s with
  | none => exact hasks
  | some a => exact hasks.1

/-- What a hook may compose in an engine with the same types. -/
theorem SameTypes.hookMayCompose (h : e.SameTypes e') {entry : TypeEntry} {hook : Hook}
    (hentry : e'.find? name = some entry) (hhook : entry.definition.veto = some hook)
    {role : RoleId} {s : Signature} {b : String} (hmay : (hook.opening role s).MayCompose b) :
    e.HookMayCompose name b := by
  obtain ⟨entry', hentry', hdefinition⟩ := h.symm.exists_find? hentry
  exact ⟨entry', hook, hentry', hdefinition ▸ hhook, role, s, hmay⟩

theorem Sound.slotOf_ne_running (hs : e.Sound) (hidle : e.spans = []) :
    e.slotOf name ≠ .running := by
  rw [ne_eq, ← hs.running, hidle]
  exact List.not_mem_nil

end Engine

open World

namespace Engine

variable {τ : Type} [DecidableEq τ] {e e' base : Engine} {t : τ} {name : String}
  {may : String → String → Prop} {own s : Option String}
  {calls : List (Frame String MethodTable (Option String))}

@[simp] theorem resume_composers (exit : Ending MethodTable)
    (thread : Thread String MethodTable (Option String)) :
    Thread.resume (e.composers may) exit thread = thread := by
  obtain ⟨own, _ | ⟨⟨k, phase⟩, calls⟩⟩ := thread
  · rfl
  · cases phase <;> rfl

/-- A thread calls for a type, takes all steps by itself, and comes back as a composition ends. It
is dismissed if it is composing the type already. -/
def CarriesOut (base : Engine) (t : τ) (thread : Thread String MethodTable (Option String))
    (name : String) (e : Engine) (run : Except Halt Outcome × Engine) : Prop :=
  ∃ ms move exit, run.1 = exit.toExit ∧
    Solo (base.composers base.HookMayCompose) t (e.world t thread) (ms ++ [move])
      (run.2.world t thread) ∧
    (e.slotOf name = .running → move = .dismissed name) ∧
    (e.slotOf name ≠ .running → move = .returned name exit)

/-- Without a merge a declared type has been settled, or is being composed. -/
theorem slotOf_of_answer? {entry : TypeEntry} (hentry : e.find? name = some entry)
    {outcome : Outcome} (h : e.answer? name = some outcome) :
    e.slotOf name = .settled outcome ∨
      e.slotOf name = .running ∧ outcome = .error (.reentrantComposition name) := by
  rw [slotOf_of_find? hentry]
  simp only [answer?, hentry] at h
  cases hslot : entry.slot with
  | vacant => simp [hslot] at h
  | running =>
    simp only [hslot, Option.some.injEq] at h
    exact .inr ⟨rfl, h.symm⟩
  | settled outcome' =>
    simp only [hslot, Option.some.injEq] at h
    exact .inl (h ▸ rfl)

/-- A composition without a merge. -/
theorem carriesOut_of_answer (hstate : Thread.state? ⟨own, calls⟩ = some s)
    (hasks : (base.composers base.HookMayCompose).asks s name) (hsame : base.SameTypes e)
    {outcome : Outcome} (hanswer : e.answer? name = some outcome) (depth : Nat) :
    base.CarriesOut t ⟨own, calls⟩ name e (runFrom (EngineM.composeWithin depth name) e) := by
  rw [runFrom_composeWithin_of_answer hanswer]
  obtain ⟨entry₀, hentry₀⟩ := declares_of_asks hasks
  obtain ⟨entry, hentry, -⟩ := hsame.exists_find? hentry₀
  have hrun := (Run.nil (c := base.composers base.HookMayCompose)
    (w := e.world t ⟨own, calls⟩)).snoc (.asks world_threads_self hstate hasks)
  rcases slotOf_of_answer? hentry hanswer with hslot | ⟨hslot, rfl⟩
  · have hshared : ((e.world t ⟨own, calls⟩).slots name) = .filled outcome := by
      rw [world_slots, hslot]
      rfl
    replace hrun := hrun.snoc (.hits put_threads_self (by rw [put_slots, hshared]; rfl))
    replace hrun := hrun.snoc (.returns put_threads_self)
    refine ⟨[.asked name, .read name], .returned name (.ok outcome), .ok outcome, rfl,
      run_world hrun (by simp) (by simp) fun t' ht' => ?_, by simp [hslot], fun _ => rfl⟩
    simp [put_threads_of_ne ht', world_threads_of_ne ht']
  · have hshared : ((e.world t ⟨own, calls⟩).slots name) = { runner := some t } := by
      rw [world_slots, hslot]
      rfl
    replace hrun := hrun.snoc (.misses put_threads_self (by rw [put_slots, hshared]))
    replace hrun := hrun.snoc (.refuses put_threads_self (by simp only [put_slots, hshared])
      (by simp only [put_slots, hshared]))
    replace hrun := hrun.snoc (.dismisses put_threads_self)
    refine ⟨[.asked name, .read name, .refused name], .dismissed name,
      .ok (.error (.reentrantComposition name)), rfl,
      run_world hrun (by simp) (by simp) fun t' ht' => ?_, fun _ => rfl, absurd hslot⟩
    simp [put_threads_of_ne ht', world_threads_of_ne ht']

/-- The merge of a vacant type begins. -/
theorem solo_enter (hstate : Thread.state? ⟨own, calls⟩ = some s)
    (hasks : (base.composers may).asks s name) {entry : TypeEntry}
    (hentry : e.find? name = some entry) (hvacant : entry.slot = .vacant) :
    ∃ ms, Solo (base.composers may) t (e.world t ⟨own, calls⟩) ms
      ((e.enter entry.definition).world t ⟨own, ⟨name, .filling (some name)⟩ :: calls⟩) := by
  have hslot : (e.world t ⟨own, calls⟩).slots name = {} := by
    rw [world_slots, slotOf_of_find? hentry, hvacant]
    rfl
  obtain ⟨w, hclimb, hthread⟩ := exists_take world_threads_self hstate hasks hslot
  obtain ⟨ms, hrun⟩ := hclimb.run
  have hname := name_of_find? hentry
  have hw : w =
      (e.enter entry.definition).world t ⟨own, ⟨name, .filling (some name)⟩ :: calls⟩ := by
    refine world_eq (fun b => ?_) hthread fun t' ht' => ?_
    · by_cases hb : b = name
      · subst hb
        have hrunning := slotOf_enter hentry
        rw [hname] at hrunning
        rw [hclimb.taken b (.head _), hrunning]
        rfl
      · have hsame : (e.enter entry.definition).slotOf b = e.slotOf b :=
          slotOf_updateEntry_of_ne (e := e) (f := fun entry => { entry with slot := .running })
            (fun _ => rfl) (hname ▸ hb)
        rw [hclimb.kept b (by simpa using hb), hsame]
        rfl
    · rw [hclimb.others t' ht', world_threads_of_ne ht']
  exact ⟨ms, hw ▸ hrun⟩

/-- The merge of a type ends, and its outcome is published. -/
theorem solo_leave {exit : Ending MethodTable} (hrunning : e.slotOf name = .running)
    (hslot : e'.slotOf name =
      .settled (exit.outcome fun message => .compositionPanicked (.type name) message))
    (hother : ∀ b, b ≠ name → e'.slotOf b = e.slotOf b) :
    ∃ ms, Solo (base.composers may) t (e.world t ⟨own, ⟨name, .filling (some name)⟩ :: calls⟩)
      (ms ++ [.returned name exit]) (e'.world t ⟨own, calls⟩) := by
  have hshared : (e.world t ⟨own, ⟨name, .filling (some name)⟩ :: calls⟩).slots name =
      { runner := some t } := by
    rw [world_slots, hrunning]
    rfl
  have hends : (base.composers may).ends (some name) exit := trivial
  have hpublishes :
      ((e.world t ⟨own, ⟨name, .filling (some name)⟩ :: calls⟩).slots name).outcome.getD
        (exit.outcome ((base.composers may).panicked name)) =
      exit.outcome ((base.composers may).panicked name) := by
    rw [hshared]
    rfl
  have hrun := (Run.nil (c := base.composers may)
    (w := e.world t ⟨own, ⟨name, .filling (some name)⟩ :: calls⟩)).snoc
      (.ends world_threads_self hends)
  replace hrun := hrun.snoc (.publishes put_threads_self hpublishes)
  replace hrun := hrun.snoc (.returns put_threads_self)
  rw [exit.map_outcome] at hrun
  refine ⟨[.ended name exit, .published name _],
    run_world hrun (fun b => ?slots) (by simp) fun t' ht' => ?others⟩
  case slots =>
    by_cases hb : b = name
    · subst hb
      simp only [put_slots, wakeAll_slots, putSlot_slots_self, hslot]
      rfl
    · simp only [put_slots, wakeAll_slots, putSlot_slots_of_ne hb, hother b hb, world_slots]
  case others =>
    simp only [put_threads_of_ne ht', wakeAll_threads, putSlot_threads, world_threads_of_ne ht']
    rfl

/-- How the composition of a type ends whose merge has ended. -/
theorem exists_afterMerge (name : String) {run : Except Halt Outcome × Engine}
    (h : run.1 ≠ .error .abort) :
    ∃ exit : Ending MethodTable, (afterMerge name run).1 = exit.toExit ∧
      ∀ b, (afterMerge name run).2.find? b = (run.2.find? b).map fun entry =>
        if b = name then
          { entry with
            slot := .settled (exit.outcome fun message => .compositionPanicked (.type name) message)
            settled := true }
        else entry := by
  obtain ⟨(payload | _) | outcome, e₁⟩ := run
  · exact ⟨.error payload, rfl, find?_unwind e₁ payload name⟩
  · exact absurd rfl h
  · exact ⟨.ok outcome, rfl, find?_leave e₁ name outcome⟩

/-- What a thread has come to since it began the merge of a type. -/
structure MergesTo (base start : Engine) (depth : Nat) (t : τ)
    (thread : Thread String MethodTable (Option String)) (e : Engine) : Prop where
  sound : e.Sound
  room : e.vacantTypes ≤ depth
  sameTypes : base.SameTypes e
  run : ∃ ms, Solo (base.composers base.HookMayCompose) t (start.world t thread) ms
    (e.world t thread)

section MergesTo

variable {start : Engine} {depth : Nat} {thread : Thread String MethodTable (Option String)}

theorem MergesTo.quiet (h : MergesTo base start depth t thread e) (hq : e.Quiet e') :
    MergesTo base start depth t thread e' := by
  have hworld : e'.world t thread = e.world t thread :=
    (world_eq (fun b => by rw [world_slots, hq.slotOf]) world_threads_self
      fun _ => world_threads_of_ne).symm
  refine ⟨hq.sound h.sound, hq.leads.vacantTypes_le.trans h.room,
    h.sameTypes.trans hq.leads.sameTypes, ?_⟩
  rw [hworld]
  exact h.run

theorem merging_mergesTo : Merging (MergesTo base start depth t thread) where
  sound _ h := h.sound.registry
  fills _ _ h hfill := ⟨h.sound.of_fills hfill, h.room, h.sameTypes, h.run⟩
  quiet _ _ h hq _ := h.quiet hq

/-- What a thread carries out within a merge keeps it in that merge. -/
theorem MergesTo.composes {b : String}
    (hcarries : ∀ {e : Engine}, e.Sound → e.vacantTypes ≤ depth → base.SameTypes e →
      base.Declares b → base.CarriesOut t thread b e (runFrom (EngineM.composeWithin depth b) e))
    (h : MergesTo base start depth t thread e) :
    MergesTo base start depth t thread (runFrom (EngineM.composeWithin depth b) e).2 := by
  by_cases hb : base.Declares b
  · obtain ⟨ms, hrun⟩ := h.run
    obtain ⟨ms', move, -, -, hrun', -⟩ := hcarries h.sound h.room h.sameTypes hb
    have hpassage := passage_composeWithin depth b e h.sound h.room
    exact ⟨hpassage.sound, hpassage.leads.vacantTypes_le.trans h.room,
      h.sameTypes.trans hpassage.leads.sameTypes, ms ++ (ms' ++ [move]), hrun.trans hrun'⟩
  · have hnone := h.sameTypes.find?_eq_none hb
    have hanswer : e.answer? b = some (.error (.unknownType b)) := by
      unfold answer?
      rw [hnone]
    rw [runFrom_composeWithin_of_answer hanswer]
    exact h

/-- A merge is carried out if what its hook composes is. -/
theorem MergesTo.mergeTable {definition : AdoptingType}
    (hcarries : ∀ {e : Engine} {b : String}, e.Sound → e.vacantTypes ≤ depth → base.SameTypes e →
      (base.composers base.HookMayCompose).asks (some name) b →
        base.CarriesOut t thread b e (runFrom (EngineM.composeWithin depth b) e))
    (hmay : ∀ hook, definition.veto = some hook → ∀ role s b,
      (hook.opening role s).MayCompose b → base.HookMayCompose name b)
    (h : MergesTo base start depth t thread e) :
    MergesTo base start depth t thread
      (runFrom (EngineM.mergeTable (EngineM.composeWithin depth) definition).run e).2 := by
  refine (kept_mergeTable merging_mergesTo (fun b e₁ hb h₁ => .of_last (h₁.composes ?_))
    (fun e₁ role s h₁ => ?_) hmay h).last
  · exact fun hs hroom hsame hdeclares => hcarries hs hroom hsame ⟨hdeclares, hb⟩
  · exact h₁.quiet ⟨rfl, rfl, rfl, rfl, fun _ => rfl⟩

end MergesTo

/-- The calls of a thread from before a merge until after it. -/
theorem carriesOut_afterMerge {depth : Nat} (hstate : Thread.state? ⟨own, calls⟩ = some s)
    (hasks : (base.composers base.HookMayCompose).asks s name) {entry : TypeEntry}
    (hentry : e.find? name = some entry) (hvacant : entry.slot = .vacant)
    {run : Except Halt Outcome × Engine} (hgoesOn : run.1 ≠ .error .abort)
    (hspans : run.2.spans = e.spans ++ [name])
    (h : MergesTo base (e.enter entry.definition) depth t
      ⟨own, ⟨name, .filling (some name)⟩ :: calls⟩ run.2) :
    base.CarriesOut t ⟨own, calls⟩ name e (afterMerge name run) := by
  obtain ⟨before, hbefore⟩ : ∃ ms, Solo (base.composers base.HookMayCompose) t
      (e.world t ⟨own, calls⟩) ms
      ((e.enter entry.definition).world t ⟨own, ⟨name, .filling (some name)⟩ :: calls⟩) :=
    solo_enter hstate hasks hentry hvacant
  obtain ⟨inside, hinside⟩ := h.run
  obtain ⟨exit, hexit, hfind⟩ := exists_afterMerge name hgoesOn
  have hrunning : run.2.slotOf name = .running := (h.sound.running name).mp (by simp [hspans])
  obtain ⟨entry', hentry', -⟩ := exists_find?_of_slotOf (by rw [hrunning]; simp)
  obtain ⟨after, hafter⟩ : ∃ ms, Solo (base.composers base.HookMayCompose) t
      (run.2.world t ⟨own, ⟨name, .filling (some name)⟩ :: calls⟩) (ms ++ [.returned name exit])
      ((afterMerge name run).2.world t ⟨own, calls⟩) := by
    refine solo_leave hrunning ?_ fun b hb => ?_
    · unfold slotOf
      rw [hfind, hentry']
      simp
    · unfold slotOf
      rw [hfind]
      simp [hb]
  have hslot : e.slotOf name ≠ .running := by
    rw [slotOf_of_find? hentry, hvacant]
    simp
  refine ⟨before ++ inside ++ after, .returned name exit, exit, hexit, ?_, (absurd · hslot),
    fun _ => rfl⟩
  simpa using (hbefore.trans hinside).trans hafter

/-- A composition from a sound engine is a run of a thread that may ask for the type, and comes back
as the composition does. -/
theorem carriesOut_composeWithin (depth : Nat) (hs : e.Sound) (hroom : e.vacantTypes ≤ depth)
    (hsame : base.SameTypes e) (hstate : Thread.state? ⟨own, calls⟩ = some s)
    (hasks : (base.composers base.HookMayCompose).asks s name) :
    base.CarriesOut t ⟨own, calls⟩ name e (runFrom (EngineM.composeWithin depth name) e) := by
  induction depth generalizing e name own calls s with
  | zero =>
    cases hanswer : e.answer? name with
    | some outcome => exact carriesOut_of_answer hstate hasks hsame hanswer 0
    | none =>
      obtain ⟨entry, hentry, hvacant⟩ := answer?_eq_none.1 hanswer
      have hpos := vacantTypes_pos hentry hvacant
      omega
  | succ depth ih =>
    cases hanswer : e.answer? name with
    | some outcome => exact carriesOut_of_answer hstate hasks hsame hanswer (depth + 1)
    | none =>
      obtain ⟨entry, hentry, hvacant⟩ := answer?_eq_none.1 hanswer
      have hless := vacantTypes_enter hentry hvacant
      have henter := hs.enter hentry hvacant
      have hsame' : base.SameTypes (e.enter entry.definition) := hsame.trans
        (sameTypes_updateEntry (f := fun entry => { entry with slot := .running }) fun _ => rfl)
      -- whatever the hook composes is carried out by calls within this one
      have hmerge : MergesTo base (e.enter entry.definition) depth t
          ⟨own, ⟨name, .filling (some name)⟩ :: calls⟩ (runFrom (EngineM.mergeTable
            (EngineM.composeWithin depth) entry.definition).run (e.enter entry.definition)).2 :=
        MergesTo.mergeTable (fun hs₁ hroom₁ hsame₁ hasks₁ => ih hs₁ hroom₁ hsame₁ rfl hasks₁)
          (fun hook hhook role s b => hsame.hookMayCompose hentry hhook)
          ⟨henter, by omega, hsame', [], .nil⟩
      have hpassage := passage_mergeTable (passage_composeWithin depth) entry.definition henter
        (by omega)
      have hspans := hpassage.spans
      rw [show (e.enter entry.definition).spans = e.spans ++ [entry.definition.name] from rfl,
        name_of_find? hentry] at hspans
      rw [runFrom_composeWithin hentry hvacant hspans]
      exact carriesOut_afterMerge hstate hasks hentry hvacant hpassage.goesOn hspans hmerge

/-- Where nothing is being composed it does not matter which thread would be composing it. -/
theorem world_of_idle (hs : e.Sound) (hidle : e.spans = []) (t t' : τ) :
    e.world t { own := none } = e.world t' { own := none } := by
  refine world_eq (fun name => ?_) ?_ fun t₁ _ => ?_
  · rw [world_slots]
    cases hslot : e.slotOf name with
    | running => exact absurd hslot (hs.slotOf_ne_running hidle)
    | vacant => rfl
    | settled outcome => rfl
  · unfold world
    simp
  · unfold world
    simp

end Engine

/-! ## Races -/

section Races

variable {e base : Engine} {name : String}

theorem runFrom_joinRace {race : Race} {exit : Ending MethodTable}
    (h : (runFrom (EngineM.compose name) e).1 = exit.toExit) :
    runFrom (EngineM.joinRace name race) e =
      (.ok (race.add exit.toOption), (runFrom (EngineM.compose name) e).2) := by
  unfold EngineM.joinRace EngineM.attempt
  rw [runFrom_bind_ok (runFrom_lift_run _ _), h]
  cases exit <;> rfl

/-- Callers that ask one after another are threads that do. -/
theorem inTurn_of_foldlM (callers : List Nat) (race : Race) (t : Nat) (hs : e.Sound)
    (hidle : e.spans = []) (hsame : base.SameTypes e) (hname : base.Declares name) :
    ∃ exits : List (Ending MethodTable), exits.length = callers.length ∧
      let run := runFrom (callers.foldlM (fun race _ => EngineM.joinRace name race) race) e
      run.1 = .ok (exits.foldl (fun race exit => race.add exit.toOption) race) ∧
      InTurn (base.composers base.HookMayCompose) name (e.world t { own := none })
        (callers.zip exits) (run.2.world t { own := none }) := by
  induction callers generalizing race e with
  | nil => exact ⟨[], rfl, rfl, .nil⟩
  | cons caller callers ih =>
    have hcarries : base.CarriesOut caller { own := none } name e
        (runFrom (EngineM.compose name) e) :=
      Engine.carriesOut_composeWithin _ hs le_rfl hsame rfl hname
    obtain ⟨ms, move, exit, hexit, hsolo, -, hreturned⟩ := hcarries
    have hpassage : Passage e _ (runFrom (EngineM.compose name) e) :=
      passage_composeWithin _ name e hs le_rfl
    have hidle' := hpassage.spans.trans hidle
    rw [hreturned (hs.slotOf_ne_running hidle)] at hsolo
    obtain ⟨exits, hlength, hrace, hturns⟩ := ih (race.add exit.toOption) hpassage.sound hidle'
      (hsame.trans hpassage.leads.sameTypes)
    rw [Engine.world_of_idle hs hidle t caller]
    rw [Engine.world_of_idle hpassage.sound hidle' t caller] at hturns
    refine ⟨exit :: exits, by simp [hlength], ?_⟩
    rw [List.foldlM_cons, runFrom_bind_ok (runFrom_joinRace hexit)]
    exact ⟨hrace, .cons hsolo hturns⟩

/-- The callers of a race come off as threads do that call for the type one after the other. -/
theorem inTurn_of_race (n : Nat) (hs : e.Sound) (hidle : e.spans = []) (hname : e.Declares name) :
    ∃ exits : List (Ending MethodTable), exits.length = n ∧
      (runFrom (EngineM.race name n) e).1 =
        .ok (exits.foldl (fun race exit => race.add exit.toOption) {}) ∧
      InTurn (e.composers e.HookMayCompose) name (e.world 0 { own := none })
        ((List.range n).zip exits)
        ((runFrom (EngineM.race name n) e).2.world 0 { own := none }) := by
  obtain ⟨exits, hlength, hrace, hturns⟩ :=
    inTurn_of_foldlM (List.range n) {} 0 hs hidle (fun _ => rfl) hname
  exact ⟨exits, by simpa using hlength, hrace, hturns⟩

end Races

end RoleComposition
