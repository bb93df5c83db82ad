import RoleComposition.Proofs.Tracing

/-!
# Threads that wait for each other

A thread that sleeps on a slot waits for the thread that is filling it, and threads that wait for
each other in a circle never go on. Whether they can come to that depends on what initializers may
ask for. A thread is filling the slots of its calls all at once, and each of them may need the next.
So threads in a circle have slots in a circle of needs (`needs_of_deadlocked`), and a thread that
meets itself has a slot that needs itself (`needs_of_reentry`).
-/

namespace RoleComposition

open Relation (ReflTransGen TransGen)

namespace Conduct

variable {κ α σ : Type}

/-- Any answers to what is asked lead from the one state to the other. -/
def Reaches (c : Conduct κ α σ) : σ → σ → Prop := c.From fun _ _ => True

/-- The initializer of the one slot may ask for the other. -/
def Needs (c : Conduct κ α σ) (k k' : κ) : Prop := ∃ s, c.Reaches (c.start k) s ∧ c.asks s k'

/-- A thread that starts in this state may ask for the slot by itself. -/
def Enters (c : Conduct κ α σ) (own : σ) (k : κ) : Prop := ∃ s, c.Reaches own s ∧ c.asks s k

end Conduct

namespace World

variable {τ κ α σ : Type}

/-- The thread sleeps on a slot that the other is filling. -/
def Waits (w : World τ κ α σ) (t t' : τ) : Prop :=
  ∃ k, w.Asleep t k ∧ (w.slots k).runner = some t'

/-- Threads wait for each other in a circle. -/
def Deadlocked (w : World τ κ α σ) : Prop := ∃ t, TransGen w.Waits t t

theorem Asleep.unique {w : World τ κ α σ} {t : τ} {k k' : κ} (h : w.Asleep t k)
    (h' : w.Asleep t k') : k = k' := by
  obtain ⟨calls, hcalls⟩ := h
  obtain ⟨calls', hcalls'⟩ := h'
  cases hcalls.symm.trans hcalls'
  rfl

end World

section Calls

variable {κ α σ : Type} {c : Conduct κ α σ} {own own₀ : σ} {call : Frame κ α σ}
  {calls : List (Frame κ α σ)}

/-- The slots of a thread's calls each need the next. -/
theorem Thread.Linked.transGen_needs (hlinked : Thread.Linked c own (call :: calls))
    (htraced : Thread.Traced c (fun _ _ => True) own₀ ⟨own, calls⟩) {outer : Frame κ α σ} (houter : outer ∈ calls) :
    TransGen c.Needs outer.slot call.slot := by
  induction calls generalizing call with
  | nil => simp at houter
  | cons next calls ih =>
    obtain ⟨⟨s, hs, hasks⟩, hlinked⟩ := hlinked
    rcases Thread.state?_eq_some.mp hs with ⟨⟨⟩, -⟩ | ⟨k, rest, ⟨rfl, rfl⟩⟩
    have hneeds : c.Needs k call.slot := ⟨s, htraced.filling k s (.head _), hasks⟩
    rcases List.mem_cons.mp houter with rfl | houter
    · exact .single hneeds
    · exact (ih hlinked htraced.tail houter).tail hneeds

/-- The outermost call of a thread is its own, and the others are needed for it. -/
theorem Thread.Linked.exists_enters (hlinked : Thread.Linked c own (call :: calls))
    (htraced : Thread.Traced c (fun _ _ => True) own₀ ⟨own, calls⟩) :
    ∃ k, c.Enters own₀ k ∧ ReflTransGen c.Needs k call.slot := by
  induction calls generalizing call with
  | nil =>
    obtain ⟨⟨s, hs, hasks⟩, -⟩ := hlinked
    cases hs
    exact ⟨call.slot, ⟨own, htraced.own, hasks⟩, .refl⟩
  | cons next calls ih =>
    obtain ⟨⟨s, hs, hasks⟩, hlinked⟩ := hlinked
    rcases Thread.state?_eq_some.mp hs with ⟨⟨⟩, -⟩ | ⟨k, rest, ⟨rfl, rfl⟩⟩
    obtain ⟨k₀, henters, hneeds⟩ := ih hlinked htraced.tail
    exact ⟨k₀, henters, hneeds.tail ⟨s, htraced.filling k s (.head _), hasks⟩⟩

end Calls

namespace World

variable {τ κ α σ : Type} [DecidableEq τ] [DecidableEq κ] {c : Conduct κ α σ}
  {own₀ : τ → σ} {ms : List (τ × Move κ α)} {w w' : World τ κ α σ} {t t' : τ} {k k' : κ}

/-- The runner of a slot is filling it in one of its calls. -/
theorem Sound.exists_call (h : w.Sound c) (hrunner : (w.slots k).runner = some t) :
    ∃ call ∈ (w.threads t).calls, call.slot = k ∧ call.phase.isRunning := by
  have hfills := (h.fits t).fills k
  rw [if_pos hrunner] at hfills
  obtain ⟨call, hmem, hcall⟩ := List.countP_pos_iff.mp (hfills ▸ Nat.one_pos)
  simp only [Bool.and_eq_true, decide_eq_true_eq] at hcall
  exact ⟨call, hmem, hcall⟩

theorem Run.traced_any (hrun : Run c (initial own₀) ms w) : w.Traced c (fun _ _ => True) own₀ :=
  hrun.traced (fun _ _ _ _ _ => trivial) fun _ _ _ => trivial

/-- What a thread is filling needs the slot of a call that stands still. -/
theorem transGen_needs_of_runner (hrun : Run c (initial own₀) ms w)
    {calls : List (Frame κ α σ)} {phase : Phase α σ}
    (hcalls : (w.threads t).calls = ⟨k', phase⟩ :: calls) (hphase : phase.isRunning = false)
    (hrunner : (w.slots k).runner = some t) : TransGen c.Needs k k' := by
  have hsound := hrun.sound (sound_initial own₀)
  have hlinked := (hsound.fits t).linked
  have htraced := (hrun.traced_any).threads t
  obtain ⟨call, hmem, rfl, hrunning⟩ := hsound.exists_call hrunner
  generalize w.threads t = thread at *
  obtain ⟨own, _⟩ := thread
  subst hcalls
  rcases List.mem_cons.mp hmem with rfl | hmem
  · rw [hphase] at hrunning
    cases hrunning
  · exact hlinked.transGen_needs htraced.tail hmem

/-- The slot of any call is needed for one that its thread asks for by itself. -/
theorem exists_enters_of_call (hrun : Run c (initial own₀) ms w) {calls : List (Frame κ α σ)}
    {phase : Phase α σ} (hcalls : (w.threads t).calls = ⟨k, phase⟩ :: calls) :
    ∃ k₀, c.Enters (own₀ t) k₀ ∧ ReflTransGen c.Needs k₀ k := by
  have hlinked := ((hrun.sound (sound_initial own₀)).fits t).linked
  have htraced := (hrun.traced_any).threads t
  generalize w.threads t = thread at *
  obtain ⟨own, _⟩ := thread
  subst hcalls
  exact hlinked.exists_enters htraced.tail

/-- Along a chain of waiting threads, the slot that is waited for first needs the last. -/
theorem transGen_needs_of_waits (hrun : Run c (initial own₀) ms w)
    (hwaits : TransGen w.Waits t t') (hasleep : w.Asleep t k) (hasleep' : w.Asleep t' k') :
    TransGen c.Needs k k' := by
  induction hwaits generalizing k' with
  | single hwaits =>
    obtain ⟨k₁, hasleep₁, hrunner⟩ := hwaits
    obtain ⟨calls, hcalls⟩ := hasleep'
    rw [hasleep.unique hasleep₁]
    exact transGen_needs_of_runner hrun hcalls rfl hrunner
  | tail _ hwaits ih =>
    obtain ⟨k₁, hasleep₁, hrunner⟩ := hwaits
    obtain ⟨calls, hcalls⟩ := hasleep'
    exact (ih hasleep₁).trans (transGen_needs_of_runner hrun hcalls rfl hrunner)

/-- Threads wait for each other only over slots that need each other, of which one is needed for
what a thread asks for by itself. -/
theorem needs_of_deadlocked (hrun : Run c (initial own₀) ms w) (hdeadlocked : w.Deadlocked) :
    ∃ t k₀ k k', c.Enters (own₀ t) k₀ ∧ ReflTransGen c.Needs k₀ k ∧ k ≠ k' ∧
      TransGen c.Needs k k' ∧ TransGen c.Needs k' k := by
  have hsound := hrun.sound (sound_initial own₀)
  obtain ⟨t, hcircle⟩ := hdeadlocked
  obtain ⟨t', ⟨k, hasleep, hrunner⟩, hrest⟩ := TransGen.head'_iff.mp hcircle
  obtain ⟨t₁, hne, hrunner₁⟩ := hsound.runner_of_asleep hasleep
  obtain rfl : t₁ = t' := Option.some.inj (hrunner₁.symm.trans hrunner)
  have hback : TransGen w.Waits t₁ t :=
    (Relation.reflTransGen_iff_eq_or_transGen.mp hrest).resolve_left hne.symm
  obtain ⟨t₂, ⟨k', hasleep', hrunner'⟩, -⟩ := TransGen.head'_iff.mp hback
  obtain ⟨t₃, hne', hrunner₃⟩ := hsound.runner_of_asleep hasleep'
  obtain ⟨k₀, henters, hneeds⟩ := exists_enters_of_call hrun hasleep.choose_spec
  refine ⟨t, k₀, k, k', henters, hneeds, ?_,
    transGen_needs_of_waits hrun (.single ⟨k, hasleep, hrunner⟩) hasleep hasleep',
    transGen_needs_of_waits hrun hback hasleep' hasleep⟩
  rintro rfl
  exact hne' (Option.some.inj (hrunner₃.symm.trans hrunner))

/-- A thread meets itself only at a slot that needs itself. -/
theorem needs_of_reentry (hrun : Run c (initial own₀) ms w) {calls : List (Frame κ α σ)}
    {phase : Phase α σ} (hcalls : (w.threads t).calls = ⟨k, phase⟩ :: calls)
    (hphase : phase.isRunning = false) (hrunner : (w.slots k).runner = some t) :
    ∃ k₀, c.Enters (own₀ t) k₀ ∧ ReflTransGen c.Needs k₀ k ∧ TransGen c.Needs k k := by
  obtain ⟨k₀, henters, hneeds⟩ := exists_enters_of_call hrun hcalls
  exact ⟨k₀, henters, hneeds, transGen_needs_of_runner hrun hcalls hphase hrunner⟩

end World

end RoleComposition
