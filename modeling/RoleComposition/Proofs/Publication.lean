import RoleComposition.Proofs.SharedSlots

/-!
# Outcomes are published once

Whatever the threads do and however their steps interleave, a slot is taken by at most one of them,
and its outcome is written at most once. The invariant `Sound` says what each call knows of its slot
from where it stands; `Step.slot_cases` says all that a step can do to one slot.

Main statement: `oneOutcome_of_run`.
-/

namespace RoleComposition

namespace Thread

variable {τ κ α σ : Type}

/-- Each call was asked for by what runs below it. -/
def Linked (c : Conduct κ α σ) (own : σ) : List (Frame κ α σ) → Prop
  | [] => True
  | call :: calls =>
    (∃ s, Thread.state? ⟨own, calls⟩ = some s ∧ c.asks s call.slot) ∧ Linked c own calls

/-- A call knows of its slot: a sleeper that another thread is filling it, a call that is refused
that its own thread is, and a call that comes back what the outcome is. -/
def Knows (c : Conduct κ α σ) (slots : κ → SharedSlot τ α) (t : τ) (k : κ) : Phase α σ → Prop
  | .asleep => ∃ t', t' ≠ t ∧ (slots k).runner = some t'
  | .refused => (slots k).runner = some t
  | .leaving exit => (slots k).outcome = some (exit.outcome (c.panicked k))
  | _ => True

variable [DecidableEq κ]

/-- The number of calls by which the thread is filling the slot. -/
def running (thread : Thread κ α σ) (k : κ) : Nat :=
  thread.calls.countP fun call => decide (call.slot = k) && call.phase.isRunning

theorem running_cons (own : σ) (k k' : κ) (phase : Phase α σ) (calls : List (Frame κ α σ)) :
    running ⟨own, ⟨k, phase⟩ :: calls⟩ k' =
      running ⟨own, calls⟩ k' + if k = k' ∧ phase.isRunning then 1 else 0 := by
  simp only [running, List.countP_cons, Bool.and_eq_true, decide_eq_true_eq]

variable [DecidableEq τ]

/-- A thread that fits what the slots are. -/
structure Fits (c : Conduct κ α σ) (slots : κ → SharedSlot τ α) (t : τ)
    (thread : Thread κ α σ) : Prop where
  linked : Linked c thread.own thread.calls
  fills : ∀ k, thread.running k = if (slots k).runner = some t then 1 else 0
  knows : ∀ call calls, thread.calls = call :: calls → Knows c slots t call.slot call.phase

end Thread

/-- What runs on has a state: the thread's own, or that of the initializer it is running. -/
theorem Thread.state?_eq_some {κ α σ : Type} {own s : σ} {calls : List (Frame κ α σ)} :
    Thread.state? ⟨own, calls⟩ = some s ↔
      calls = [] ∧ s = own ∨ ∃ k rest, calls = ⟨k, .filling s⟩ :: rest := by
  match calls with
  | [] => simpa [Thread.state?] using eq_comm
  | ⟨k, phase⟩ :: rest => cases phase <;> simp [Thread.state?]

/-- Waking a thread changes it if it sleeps on the slot. -/
theorem Thread.wake_cases {κ α σ : Type} [DecidableEq κ] (thread : Thread κ α σ) (k : κ) :
    (∃ own calls, thread = ⟨own, ⟨k, .asleep⟩ :: calls⟩ ∧
      thread.wake k = ⟨own, ⟨k, .checking⟩ :: calls⟩) ∨
    thread.wake k = thread ∧ ∀ calls, thread.calls ≠ ⟨k, .asleep⟩ :: calls := by
  obtain ⟨own, _ | ⟨⟨k', phase⟩, calls⟩⟩ := thread
  · simp [Thread.wake]
  · cases phase <;> simp [Thread.wake]
    by_cases hk : k' = k <;> simp [hk]

/-- A thread that has been woken does not sleep on the slot. -/
theorem Thread.wake_asleep {κ α σ : Type} [DecidableEq κ] (thread : Thread κ α σ) (k : κ)
    (calls : List (Frame κ α σ)) : (thread.wake k).calls ≠ ⟨k, .asleep⟩ :: calls := by
  rcases thread.wake_cases k with ⟨own, calls, -, hwake⟩ | ⟨hwake, hawake⟩
  · simp [hwake]
  · rw [hwake]
    exact hawake calls

namespace Thread.Fits

variable {τ κ α σ : Type} [DecidableEq τ] [DecidableEq κ] {c : Conduct κ α σ}
  {slots slots' : κ → SharedSlot τ α} {t : τ} {own : σ} {calls : List (Frame κ α σ)} {k : κ}
  {phase phase' : Phase α σ}

/-- The innermost call goes on without taking or leaving its slot. -/
theorem advance (h : Fits c slots t ⟨own, ⟨k, phase⟩ :: calls⟩)
    (hphase : phase'.isRunning = phase.isRunning) (hknows : Knows c slots t k phase') :
    Fits c slots t ⟨own, ⟨k, phase'⟩ :: calls⟩ where
  linked := h.linked
  fills := by
    intro k'
    rw [← h.fills, running_cons, running_cons, hphase]
  knows := by
    rintro call calls' ⟨rfl, rfl⟩
    exact hknows

/-- What the thread is running asks for a slot. -/
theorem ask {s : σ} (h : Fits c slots t ⟨own, calls⟩) (hs : Thread.state? ⟨own, calls⟩ = some s)
    (hasks : c.asks s k) : Fits c slots t ⟨own, ⟨k, .entering⟩ :: calls⟩ where
  linked := ⟨⟨s, hs, hasks⟩, h.linked⟩
  fills := by
    intro k'
    rw [← h.fills, running_cons]
    simp [Phase.isRunning]
  knows := by
    rintro call calls' ⟨rfl, rfl⟩
    trivial

/-- The innermost call comes back. -/
theorem resume (h : Fits c slots t ⟨own, ⟨k, phase⟩ :: calls⟩) (hphase : phase.isRunning = false)
    (exit : Ending α) : Fits c slots t (Thread.resume c exit ⟨own, calls⟩) := by
  obtain ⟨⟨s, hs, -⟩, hlinked⟩ := h.linked
  have hrunning : ∀ k', Thread.running ⟨own, calls⟩ k' = if (slots k').runner = some t then 1 else 0 := by
    intro k'
    rw [← h.fills, running_cons]
    simp [hphase]
  rcases Thread.state?_eq_some.mp hs with ⟨rfl, rfl⟩ | ⟨k', rest, rfl⟩
  · exact ⟨trivial, hrunning, nofun⟩
  · refine ⟨hlinked, fun k'' => ?_, ?_⟩
    · rw [← hrunning]
      simp only [Thread.resume, running_cons, Phase.isRunning]
    · rintro call calls' ⟨rfl, rfl⟩
      trivial

/-- A sleeper that is woken. -/
theorem wake {thread : Thread κ α σ} (h : thread.Fits c slots t) (k : κ) :
    (thread.wake k).Fits c slots t := by
  rcases thread.wake_cases k with ⟨own, calls, rfl, hwake⟩ | ⟨hwake, -⟩
  · rw [hwake]
    exact h.advance rfl trivial
  · rwa [hwake]

/-- A thread that is filling a slot is the slot's runner. -/
theorem runner (h : Fits c slots t ⟨own, ⟨k, phase⟩ :: calls⟩) (hphase : phase.isRunning = true) :
    (slots k).runner = some t ∧ Thread.running ⟨own, calls⟩ k = 0 := by
  have hrunning := h.fills k
  rw [running_cons, if_pos ⟨rfl, hphase⟩] at hrunning
  split at hrunning
  case isTrue hrunner => exact ⟨hrunner, by omega⟩
  case isFalse => omega

/-- A slot of which the thread has no part is changed. -/
theorem of_slot {thread : Thread κ α σ} (h : thread.Fits c slots t)
    (hslots : ∀ k', k' ≠ k → slots' k' = slots k')
    (hrunner : (slots' k).runner = some t ↔ (slots k).runner = some t)
    (hknows : ∀ phase calls, thread.calls = ⟨k, phase⟩ :: calls →
      Knows c slots t k phase → Knows c slots' t k phase) : thread.Fits c slots' t where
  linked := h.linked
  fills := by
    intro k'
    rw [h.fills]
    by_cases hk : k' = k
    · subst hk
      simp only [hrunner]
    · rw [hslots k' hk]
  knows := by
    rintro ⟨k', phase⟩ calls hcalls
    have hheld := h.knows _ _ hcalls
    by_cases hk : k' = k
    · subst hk
      exact hknows phase calls hcalls hheld
    · simpa only [Knows, hslots k' hk] using hheld

/-- The thread takes the slot of its innermost call, or leaves it. -/
theorem change (h : Fits c slots t ⟨own, ⟨k, phase⟩ :: calls⟩)
    (hslots : ∀ k', k' ≠ k → slots' k' = slots k') (hfree : Thread.running ⟨own, calls⟩ k = 0)
    (hrunner : (slots' k).runner = some t ↔ phase'.isRunning)
    (hknows : Knows c slots' t k phase') : Fits c slots' t ⟨own, ⟨k, phase'⟩ :: calls⟩ where
  linked := h.linked
  fills := by
    intro k'
    rw [running_cons]
    by_cases hk : k' = k
    · subst hk
      simp [hfree, hrunner]
    · have hfills := h.fills k'
      simpa [running_cons, Ne.symm hk, hslots k' hk] using hfills
  knows := by
    rintro call calls' ⟨rfl, rfl⟩
    exact hknows

end Thread.Fits

/-- All that can have happened to a slot, by who has taken it and what was written to it: nothing,
a thread has taken it, or that thread has published its outcome as well. -/
inductive SharedSlot.Stands {τ α : Type} :
    SharedSlot τ α → List τ → List (Except CompositionError α) → Prop
  | vacant : Stands {} [] []
  | running (t : τ) : Stands { runner := some t } [t] []
  | settled (t : τ) (outcome : Except CompositionError α) : Stands (.filled outcome) [t] [outcome]

namespace SharedSlot.Stands

variable {τ α : Type} {slot : SharedSlot τ α} {ts : List τ}
  {outcomes : List (Except CompositionError α)}

theorem length_le (h : slot.Stands ts outcomes) : ts.length ≤ 1 := by
  cases h <;> simp

theorem outcomes_eq (h : slot.Stands ts outcomes) : outcomes = slot.outcome.toList := by
  cases h <;> rfl

theorem runner_iff (h : slot.Stands ts outcomes) (t : τ) :
    slot.runner = some t ↔ ts = [t] ∧ outcomes = [] := by
  cases h <;> simp [SharedSlot.filled]

/-- The slot is taken while nobody is filling it and nothing has been written. -/
theorem take (h : slot.Stands ts outcomes) (hrunner : slot.runner = none)
    (houtcome : slot.outcome = none) (t : τ) :
    (SharedSlot.mk (some t) none : SharedSlot τ α).Stands (ts ++ [t]) outcomes := by
  cases h with
  | vacant => exact .running t
  | running => cases hrunner
  | settled => cases houtcome

/-- The thread that is filling the slot publishes its outcome. -/
theorem publish {t : τ} (h : slot.Stands ts outcomes) (hrunner : slot.runner = some t)
    (outcome : Except CompositionError α) :
    (SharedSlot.filled outcome : SharedSlot τ α).Stands ts (outcomes ++ [outcome]) := by
  cases h with
  | running t => exact .settled t outcome
  | vacant => cases hrunner
  | settled => cases hrunner

end SharedSlot.Stands

namespace World

section Moves

variable {τ κ α : Type} [DecidableEq κ]

/-- The threads that have taken a slot, in turn. -/
def takers (k : κ) (ms : List (τ × Move κ α)) : List τ :=
  ms.filterMap fun m =>
    match m.2 with
    | .took k' => if k' = k then some m.1 else none
    | _ => none

/-- The outcomes that were written to a slot, in turn. -/
def publications (k : κ) (ms : List (τ × Move κ α)) : List (Except CompositionError α) :=
  ms.filterMap fun m =>
    match m.2 with
    | .published k' outcome => if k' = k then some outcome else none
    | _ => none

theorem takers_snoc (k : κ) (ms : List (τ × Move κ α)) (m : τ × Move κ α) :
    takers k (ms ++ [m]) = takers k ms ++ takers k [m] :=
  List.filterMap_append

theorem publications_snoc (k : κ) (ms : List (τ × Move κ α)) (m : τ × Move κ α) :
    publications k (ms ++ [m]) = publications k ms ++ publications k [m] :=
  List.filterMap_append

end Moves

variable {τ κ α σ : Type} [DecidableEq τ] [DecidableEq κ]

/-- The invariant of worlds: threads fit the slots, and a slot with an outcome has been left. -/
structure Sound (c : Conduct κ α σ) (w : World τ κ α σ) : Prop where
  fits : ∀ t, (w.threads t).Fits c w.slots t
  left : ∀ k outcome, (w.slots k).outcome = some outcome → (w.slots k).runner = none

variable {c : Conduct κ α σ} {w w' : World τ κ α σ} {t : τ} {move : Move κ α}

theorem sound_initial (own : τ → σ) : (initial own : World τ κ α σ).Sound c where
  fits t := ⟨trivial, fun k => by simp [initial, Thread.running], nofun⟩
  left := nofun

namespace Sound

theorem put (h : w.Sound c) {thread : Thread κ α σ} (hthread : thread.Fits c w.slots t) :
    (w.put t thread).Sound c where
  fits t' := by
    by_cases ht : t' = t
    · subst ht
      simpa using hthread
    · simpa [put_threads_of_ne ht] using h.fits t'
  left := h.left

/-- A slot that is being filled has no outcome yet. -/
theorem outcome_eq_none (h : w.Sound c) {k : κ} (hrunner : (w.slots k).runner = some t) :
    (w.slots k).outcome = none := by
  cases houtcome : (w.slots k).outcome with
  | none => rfl
  | some outcome =>
    rw [h.left k outcome houtcome] at hrunner
    cases hrunner

/-- A sleeper waits for another thread. -/
theorem runner_of_asleep (h : w.Sound c) {k : κ} (hasleep : w.Asleep t k) :
    ∃ t', t' ≠ t ∧ (w.slots k).runner = some t' := by
  obtain ⟨calls, hcalls⟩ := hasleep
  exact (h.fits t).knows _ _ hcalls

/-- A thread takes a slot that nobody is filling. -/
theorem take (h : w.Sound c) {own : σ} {calls : List (Frame κ α σ)} {k : κ}
    (ht : w.threads t = ⟨own, ⟨k, .checking⟩ :: calls⟩) (houtcome : (w.slots k).outcome = none)
    (hrunner : (w.slots k).runner = none) :
    ((w.putSlot k ((w.slots k).take t)).put t ⟨own, ⟨k, .filling (c.start k)⟩ :: calls⟩).Sound
      c := by
  have hfits := ht ▸ h.fits t
  have hslots : ∀ k', k' ≠ k → (w.putSlot k ((w.slots k).take t)).slots k' = w.slots k' :=
    fun k' => putSlot_slots_of_ne
  refine ⟨fun t' => ?_, fun k' outcome => ?_⟩
  · by_cases htt : t' = t
    · subst htt
      rw [put_threads_self]
      refine hfits.change hslots ?_ (by simp [SharedSlot.take, Phase.isRunning]) trivial
      have hfills := hfits.fills k
      rw [Thread.running_cons, hrunner] at hfills
      simpa [Phase.isRunning] using hfills
    · rw [put_threads_of_ne htt]
      refine (h.fits t').of_slot hslots (by simp [SharedSlot.take, hrunner, Ne.symm htt]) ?_
      intro phase calls' _ hknows
      cases phase <;> simp_all [Thread.Knows]
  · by_cases hk : k' = k
    · subst hk
      simp [SharedSlot.take, houtcome]
    · simpa [putSlot_slots_of_ne hk] using h.left k' outcome

/-- A thread publishes the outcome of a slot that it has filled. -/
theorem publish (h : w.Sound c) {own : σ} {calls : List (Frame κ α σ)} {k : κ} {exit : Ending α}
    (ht : w.threads t = ⟨own, ⟨k, .filled exit⟩ :: calls⟩) :
    (((w.putSlot k (.filled (exit.outcome (c.panicked k)))).wakeAll k).put t
      ⟨own, ⟨k, .leaving (exit.map fun _ => exit.outcome (c.panicked k))⟩ :: calls⟩).Sound c := by
  have hfits := ht ▸ h.fits t
  obtain ⟨hrunner, hfree⟩ := hfits.runner rfl
  have hslots : ∀ k', k' ≠ k →
      (w.putSlot k (.filled (exit.outcome (c.panicked k)))).slots k' = w.slots k' :=
    fun k' => putSlot_slots_of_ne
  refine ⟨fun t' => ?_, fun k' outcome => ?_⟩
  · by_cases htt : t' = t
    · subst htt
      rw [put_threads_self]
      refine hfits.change hslots hfree (by simp [SharedSlot.filled, Phase.isRunning]) ?_
      cases exit <;> simp [Thread.Knows, SharedSlot.filled, Except.map, Ending.outcome]
    · rw [put_threads_of_ne htt]
      refine ((h.fits t').wake k).of_slot hslots
        (by simp [SharedSlot.filled, hrunner, Ne.symm htt]) ?_
      intro phase calls' hcalls hknows
      -- nobody sleeps any more, and a call comes back only once the slot has been left
      have hleft := h.left k
      have hawake := (w.threads t').wake_asleep k
      cases phase <;> simp_all [Thread.Knows]
  · by_cases hk : k' = k
    · subst hk
      simp [SharedSlot.filled]
    · simpa [putSlot_slots_of_ne hk] using h.left k' outcome

end Sound

/-- All that a step can do to a slot: nothing, take it, or publish its outcome. -/
theorem Step.slot_cases (h : w.Sound c) (hstep : Step c w t move w') (k : κ) :
    (w'.slots k = w.slots k ∧ move ≠ .took k ∧ ∀ outcome, move ≠ .published k outcome) ∨
    (move = .took k ∧ (w.slots k).runner = none ∧ (w.slots k).outcome = none ∧
      w'.slots k = { runner := some t }) ∨
    ∃ outcome, move = .published k outcome ∧ (w.slots k).runner = some t ∧
      (w.slots k).outcome = none ∧ w'.slots k = .filled outcome := by
  cases hstep with
  | takes ht houtcome hrunner =>
    rename_i k'
    by_cases hk : k = k'
    · subst hk
      exact .inr (.inl ⟨rfl, hrunner, houtcome, by simp [SharedSlot.take, houtcome]⟩)
    · exact .inl ⟨putSlot_slots_of_ne hk, by simpa using Ne.symm hk, nofun⟩
  | publishes ht houtcome =>
    rename_i k' exit outcome
    by_cases hk : k = k'
    · subst hk
      have hrunner := ((ht ▸ h.fits t).runner rfl).1
      exact .inr (.inr ⟨outcome, rfl, hrunner, h.outcome_eq_none hrunner, putSlot_slots_self⟩)
    · exact .inl ⟨putSlot_slots_of_ne hk, nofun, by simp [Ne.symm hk]⟩
  | _ => exact .inl ⟨rfl, nofun, nofun⟩

theorem Step.sound (h : w.Sound c) (hstep : Step c w t move w') : w'.Sound c := by
  have hfits := h.fits t
  cases hstep with
  | asks ht hs hasks => exact h.put ((ht ▸ hfits).ask hs hasks)
  | hits ht houtcome => exact h.put ((ht ▸ hfits).advance rfl houtcome)
  | misses ht => exact h.put ((ht ▸ hfits).advance rfl trivial)
  | finds ht houtcome => exact h.put ((ht ▸ hfits).advance rfl houtcome)
  | takes ht houtcome hrunner => exact h.take ht houtcome hrunner
  | refuses ht _ hrunner => exact h.put ((ht ▸ hfits).advance rfl hrunner)
  | sleeps ht _ hrunner hne => exact h.put ((ht ▸ hfits).advance rfl ⟨_, hne, hrunner⟩)
  | ends ht => exact h.put ((ht ▸ hfits).advance rfl trivial)
  | publishes ht houtcome =>
    subst houtcome
    rw [h.outcome_eq_none ((ht ▸ hfits).runner rfl).1]
    exact h.publish ht
  | returns ht => exact h.put ((ht ▸ hfits).resume rfl _)
  | dismisses ht => exact h.put ((ht ▸ hfits).resume rfl _)

theorem Run.sound {ms : List (τ × Move κ α)} (h : w.Sound c) (hrun : Run c w ms w') :
    w'.Sound c := by
  induction hrun with
  | nil => exact h
  | snoc _ hstep ih => exact hstep.sound ih

/-- A run through a move, before it and after it. -/
theorem Run.split {before after : List (τ × Move κ α)}
    (hrun : Run c w (before ++ (t, move) :: after) w') :
    ∃ w₁ w₂, Run c w before w₁ ∧ Step c w₁ t move w₂ ∧ Run c w₂ after w' := by
  generalize hms : before ++ (t, move) :: after = ms at hrun
  induction hrun generalizing after with
  | nil => simp at hms
  | @snoc ms w₁ w₂ t' move' hrun hstep ih =>
    rcases after.eq_nil_or_concat with rfl | ⟨after, last, rfl⟩
    · obtain ⟨rfl, hlast⟩ := List.append_inj' hms rfl
      obtain ⟨rfl, rfl⟩ := Prod.mk.inj (List.singleton_inj.mp hlast)
      exact ⟨w₁, w₂, hrun, hstep, .nil⟩
    · rw [List.concat_eq_append, ← List.cons_append, ← List.append_assoc] at hms
      obtain ⟨hinit, hlast⟩ := List.append_inj' hms rfl
      obtain ⟨rfl, rfl⟩ := List.singleton_inj.mp hlast
      obtain ⟨w₃, w₄, hbefore, hmove, hafter⟩ := ih hinit
      rw [List.concat_eq_append]
      exact ⟨w₃, w₄, hbefore, hmove, .snoc hafter hstep⟩

theorem Run.exists_step {ms : List (τ × Move κ α)} (hrun : Run c w ms w') (hmem : (t, move) ∈ ms) :
    ∃ before after w₁ w₂, Run c w before w₁ ∧ Step c w₁ t move w₂ ∧ Run c w₂ after w' := by
  obtain ⟨before, after, rfl⟩ := List.append_of_mem hmem
  obtain ⟨w₁, w₂, hsplit⟩ := hrun.split
  exact ⟨before, after, w₁, w₂, hsplit⟩

/-- An outcome stays. -/
theorem Step.outcome_kept (h : w.Sound c) (hstep : Step c w t move w') {k : κ}
    {outcome : Except CompositionError α} (houtcome : (w.slots k).outcome = some outcome) :
    (w'.slots k).outcome = some outcome := by
  rcases hstep.slot_cases h k with ⟨hsame, -⟩ | ⟨-, -, hnone, -⟩ | ⟨_, -, -, hnone, -⟩
  · rwa [hsame]
  · rw [hnone] at houtcome
    cases houtcome
  · rw [hnone] at houtcome
    cases houtcome

theorem Run.outcome_kept {ms : List (τ × Move κ α)} (h : w.Sound c) (hrun : Run c w ms w') {k : κ}
    {outcome : Except CompositionError α} (houtcome : (w.slots k).outcome = some outcome) :
    (w'.slots k).outcome = some outcome := by
  induction hrun with
  | nil => exact houtcome
  | snoc hrun hstep ih => exact hstep.outcome_kept (hrun.sound h) ih

theorem Run.stands {own : τ → σ} {ms : List (τ × Move κ α)} (hrun : Run c (initial own) ms w)
    (k : κ) : (w.slots k).Stands (takers k ms) (publications k ms) := by
  induction hrun with
  | nil => exact .vacant
  | @snoc ms w₁ w₂ t move hrun hstep ih =>
    rw [takers_snoc, publications_snoc]
    rcases hstep.slot_cases (hrun.sound (sound_initial own)) k with
      ⟨hsame, htook, hpublished⟩ | ⟨rfl, hrunner, houtcome, hslot⟩ |
        ⟨outcome, rfl, hrunner, -, hslot⟩
    · rw [hsame]
      cases move <;> simp_all [takers, publications]
    · rw [hslot]
      simpa [takers, publications] using ih.take hrunner houtcome t
    · rw [hslot]
      simpa [takers, publications] using ih.publish hrunner outcome

/-- One outcome at most is ever come to: the slot is taken once and written once. It is marked from
the one to the other with the thread that fills it; what its calls come back with is the outcome,
unless they came from within their own thread's filling of it; and once it is there nobody sleeps. -/
structure OneOutcome (c : Conduct κ α σ) (ms : List (τ × Move κ α)) (w : World τ κ α σ)
    (k : κ) : Prop where
  started : (takers k ms).length ≤ 1
  written : publications k ms = (w.slots k).outcome.toList
  kept : ∀ later w' outcome, Run c w later w' → (w.slots k).outcome = some outcome →
    (w'.slots k).outcome = some outcome
  marked : ∀ t, (w.slots k).runner = some t ↔ takers k ms = [t] ∧ publications k ms = []
  filling : ∀ t, (w.threads t).running k = if (w.slots k).runner = some t then 1 else 0
  returned : ∀ t outcome, (t, .returned k (.ok outcome)) ∈ ms →
    (w.slots k).outcome = some outcome
  unwound : ∀ t payload, (t, .returned k (.error payload)) ∈ ms →
    (w.slots k).outcome = some (.error (c.panicked k payload.message))
  reentered : ∀ before t after, ms = before ++ (t, .dismissed k) :: after →
    takers k before = [t] ∧ publications k before = []
  waiting : ∀ t, w.Asleep t k → ∃ t', t' ≠ t ∧ (w.slots k).runner = some t'
  awake : (w.slots k).outcome ≠ none → ∀ t, ¬ w.Asleep t k

/-- A call that has come back has the outcome. -/
theorem Run.outcome_of_returned {own : τ → σ} {ms : List (τ × Move κ α)} {k : κ} {exit : Ending α}
    (hrun : Run c (initial own) ms w) (hreturned : (t, .returned k exit) ∈ ms) :
    (w.slots k).outcome = some (exit.outcome (c.panicked k)) := by
  obtain ⟨_, _, w₁, w₂, hbefore, hmove, hafter⟩ := hrun.exists_step hreturned
  have hsound := hbefore.sound (sound_initial own)
  cases hmove with
  | returns ht =>
    have houtcome := (hsound.fits t).knows _ _ (congrArg Thread.calls ht)
    exact hafter.outcome_kept ((Step.returns ht).sound hsound) houtcome

/-- A call that is dismissed comes from within its own thread's filling of the slot. -/
theorem Run.stands_of_dismissed {own : τ → σ} {before after : List (τ × Move κ α)} {k : κ}
    (hrun : Run c (initial own) (before ++ (t, .dismissed k) :: after) w) :
    takers k before = [t] ∧ publications k before = [] := by
  obtain ⟨w₁, w₂, hbefore, hmove, -⟩ := hrun.split
  cases hmove with
  | dismisses ht =>
    refine ((hbefore.stands k).runner_iff t).mp ?_
    exact ((hbefore.sound (sound_initial own)).fits t).knows _ _ (congrArg Thread.calls ht)

/-- Every slot that threads share comes to one outcome at most, however their steps interleave. -/
theorem oneOutcome_of_run {own : τ → σ} {ms : List (τ × Move κ α)}
    (hrun : Run c (initial own) ms w) (k : κ) : OneOutcome c ms w k := by
  have hsound := hrun.sound (sound_initial own)
  have hstands := hrun.stands k
  refine ⟨hstands.length_le, hstands.outcomes_eq, ?kept, hstands.runner_iff, ?filling, ?returned,
    ?unwound, ?reentered, ?waiting, ?awake⟩
  case kept => exact fun later w' outcome hlater => hlater.outcome_kept hsound
  case filling => exact fun t => (hsound.fits t).fills k
  case returned => exact fun t outcome => hrun.outcome_of_returned
  case unwound => exact fun t payload => hrun.outcome_of_returned
  case reentered =>
    rintro before t after rfl
    exact hrun.stands_of_dismissed
  case waiting => exact fun t => hsound.runner_of_asleep
  case awake =>
    intro houtcome t hasleep
    obtain ⟨t', -, hrunner⟩ := hsound.runner_of_asleep hasleep
    exact houtcome (hsound.outcome_eq_none hrunner)

end World

namespace Sample

open World

/-- Callers of one slot, whose initializer may ask for it as well. -/
def sharers : Conduct Unit Nat Unit where
  start _ := ()
  asks _ _ := True
  resume _ _ := ()
  ends _ _ := True
  reentry _ := .reentrantComposition "slot"
  panicked _ message := .compositionPanicked (.type "slot") message

/-- One thread fills the slot and asks for it meanwhile, another waits for it. -/
def moves : List (Bool × Move Unit Nat) :=
  [(false, .asked ()), (true, .asked ()), (false, .read ()), (true, .read ()), (false, .took ()),
    (true, .slept ()), (false, .asked ()), (false, .read ()), (false, .refused ()),
    (false, .dismissed ()), (false, .ended () (.ok (.ok 7))), (false, .published () (.ok 7)),
    (true, .found ()), (true, .returned () (.ok (.ok 7))), (false, .returned () (.ok (.ok 7)))]

theorem moves_run : ∃ w, Run sharers (initial fun _ => ()) moves w := by
  have h := Run.nil (c := sharers) (w := initial fun _ : Bool => ())
  replace h := h.snoc (t := false) (.asks (k := ()) rfl rfl trivial)
  replace h := h.snoc (t := true) (.asks (k := ()) rfl rfl trivial)
  replace h := h.snoc (t := false) (.misses rfl rfl)
  replace h := h.snoc (t := true) (.misses rfl rfl)
  replace h := h.snoc (t := false) (.takes rfl rfl rfl)
  replace h := h.snoc (t := true) (.sleeps rfl rfl rfl nofun)
  replace h := h.snoc (t := false) (.asks (k := ()) rfl rfl trivial)
  replace h := h.snoc (t := false) (.misses rfl rfl)
  replace h := h.snoc (t := false) (.refuses rfl rfl rfl)
  replace h := h.snoc (t := false) (.dismisses rfl)
  replace h := h.snoc (show Step sharers _ false (.ended () (.ok (.ok 7))) _ from .ends rfl trivial)
  replace h := h.snoc (t := false) (.publishes rfl rfl)
  replace h := h.snoc (t := true) (.finds rfl rfl)
  replace h := h.snoc (t := true) (.returns rfl)
  replace h := h.snoc (t := false) (.returns rfl)
  exact ⟨_, h⟩

end Sample

namespace World

/-- Two threads, of which one has come back with what the other has published. -/
theorem oneOutcome_of_moves :
    ∃ w, Run Sample.sharers (initial fun _ => ()) Sample.moves w ∧
      OneOutcome Sample.sharers Sample.moves w () := by
  obtain ⟨w, hrun⟩ := Sample.moves_run
  exact ⟨w, hrun, oneOutcome_of_run hrun ()⟩

end World

end RoleComposition
