import Mathlib.Logic.Relation
import RoleComposition.Proofs.Publication

/-!
# What outcomes can be

What an initializer comes to depends on the answers that it gets, and those are the outcomes of
other slots. So if initializers come to right outcomes from right answers, every outcome that is
published is right, however the threads interleave (`Run.traced`).
-/

namespace RoleComposition

open Relation (ReflTransGen)

section Traced

variable {κ α σ : Type}

/-- Right answers to what is asked lead from the one state to the other. -/
def Conduct.From (c : Conduct κ α σ) (P : κ → Except CompositionError α → Prop) : σ → σ → Prop :=
  ReflTransGen fun s s' =>
    ∃ k exit, c.asks s k ∧ P k (exit.outcome (c.panicked k)) ∧ s' = c.resume s exit

/-- What every right answer preserves. -/
theorem Conduct.From.preserves {c : Conduct κ α σ} {P : κ → Except CompositionError α → Prop}
    {Inv : σ → Prop} {s₀ s : σ} (h : c.From P s₀ s) (hstart : Inv s₀)
    (hresume : ∀ s k exit, Inv s → c.asks s k → P k (exit.outcome (c.panicked k)) →
      Inv (c.resume s exit)) : Inv s := by
  induction h with
  | refl => exact hstart
  | tail _ hstep ih =>
    obtain ⟨k, exit, hasks, hright, rfl⟩ := hstep
    exact hresume _ k exit ih hasks hright

/-- What runs in a thread has come from where it started by right answers, and an initializer that
has ended has come to a right outcome. -/
structure Thread.Traced (c : Conduct κ α σ) (P : κ → Except CompositionError α → Prop) (own₀ : σ)
    (thread : Thread κ α σ) : Prop where
  own : c.From P own₀ thread.own
  filling : ∀ k s, ⟨k, .filling s⟩ ∈ thread.calls → c.From P (c.start k) s
  filled : ∀ k exit, ⟨k, .filled exit⟩ ∈ thread.calls → P k (exit.outcome (c.panicked k))

namespace Thread.Traced

variable {c : Conduct κ α σ} {P : κ → Except CompositionError α → Prop} {own own₀ : σ} {k : κ}
  {phase : Phase α σ} {calls : List (Frame κ α σ)}

theorem tail (h : Traced c P own₀ ⟨own, ⟨k, phase⟩ :: calls⟩) :
    Traced c P own₀ ⟨own, calls⟩ :=
  ⟨h.own, fun k s hmem => h.filling k s (.tail _ hmem),
    fun k exit hmem => h.filled k exit (.tail _ hmem)⟩

theorem cons (h : Traced c P own₀ ⟨own, calls⟩)
    (hfilling : ∀ s, phase = .filling s → c.From P (c.start k) s)
    (hfilled : ∀ exit, phase = .filled exit → P k (exit.outcome (c.panicked k))) :
    Traced c P own₀ ⟨own, ⟨k, phase⟩ :: calls⟩ where
  own := h.own
  filling := by
    intro k' s hmem
    rcases List.mem_cons.mp hmem with heq | hmem
    · cases heq
      exact hfilling s rfl
    · exact h.filling k' s hmem
  filled := by
    intro k' exit hmem
    rcases List.mem_cons.mp hmem with heq | hmem
    · cases heq
      exact hfilled exit rfl
    · exact h.filled k' exit hmem

/-- What asked for a slot goes on with a right answer. -/
theorem resume {s : σ} {exit : Ending α} (h : Traced c P own₀ ⟨own, calls⟩)
    (hs : Thread.state? ⟨own, calls⟩ = some s) (hasks : c.asks s k)
    (hright : P k (exit.outcome (c.panicked k))) :
    Traced c P own₀ (Thread.resume c exit ⟨own, calls⟩) := by
  rcases Thread.state?_eq_some.mp hs with ⟨rfl, rfl⟩ | ⟨k', rest, rfl⟩
  · exact ⟨h.own.tail ⟨k, exit, hasks, hright, rfl⟩, nofun, nofun⟩
  · refine h.tail.cons (fun s' hs' => ?_) nofun
    cases hs'
    exact (h.filling k' s (.head _)).tail ⟨k, exit, hasks, hright, rfl⟩

theorem wake [DecidableEq κ] {thread : Thread κ α σ} (h : thread.Traced c P own₀) (k : κ) :
    (thread.wake k).Traced c P own₀ := by
  rcases thread.wake_cases k with ⟨own, calls, rfl, hwake⟩ | ⟨hwake, -⟩
  · rw [hwake]
    exact h.tail.cons nofun nofun
  · rwa [hwake]

end Thread.Traced

end Traced

namespace World

variable {τ κ α σ : Type}

/-- Outcomes are right, and so are the answers that threads have gone on with. -/
structure Traced (c : Conduct κ α σ) (P : κ → Except CompositionError α → Prop) (own₀ : τ → σ)
    (w : World τ κ α σ) : Prop where
  outcome : ∀ k outcome, (w.slots k).outcome = some outcome → P k outcome
  threads : ∀ t, (w.threads t).Traced c P (own₀ t)

variable {c : Conduct κ α σ} {P : κ → Except CompositionError α → Prop} {own₀ : τ → σ}
  {w w' : World τ κ α σ} {t : τ} {move : Move κ α}

theorem traced_initial : (initial own₀ : World τ κ α σ).Traced c P own₀ :=
  ⟨nofun, fun _ => ⟨.refl, nofun, nofun⟩⟩

variable [DecidableEq κ]

/-- Another slot whose outcome, if it has one, is right. -/
theorem Traced.putSlot (h : w.Traced c P own₀) {k : κ} {slot : SharedSlot τ α}
    (hslot : ∀ outcome, slot.outcome = some outcome → P k outcome) :
    (w.putSlot k slot).Traced c P own₀ where
  outcome k' outcome := by
    by_cases hk : k' = k
    · subst hk
      simpa using hslot outcome
    · simpa [putSlot_slots_of_ne hk] using h.outcome k' outcome
  threads := h.threads

theorem Traced.wakeAll (h : w.Traced c P own₀) (k : κ) : (w.wakeAll k).Traced c P own₀ :=
  ⟨h.outcome, fun t => (h.threads t).wake k⟩

variable [DecidableEq τ]

omit [DecidableEq κ] in
theorem Traced.put (h : w.Traced c P own₀) {thread : Thread κ α σ}
    (hthread : thread.Traced c P (own₀ t)) : (w.put t thread).Traced c P own₀ where
  outcome := h.outcome
  threads t' := by
    by_cases ht : t' = t
    · subst ht
      simpa using hthread
    · simpa [put_threads_of_ne ht] using h.threads t'

theorem Step.traced (hsound : w.Sound c) (h : w.Traced c P own₀)
    (hends : ∀ k s exit, c.From P (c.start k) s → c.ends s exit →
      P k (exit.outcome (c.panicked k)))
    (hdismissed : ∀ k, move = .dismissed k → P k (.error (c.reentry k)))
    (hstep : Step c w t move w') : w'.Traced c P own₀ := by
  have htraced := h.threads t
  have hfits := hsound.fits t
  cases hstep with
  | asks ht => exact h.put ((ht ▸ htraced).cons nofun nofun)
  | hits ht | misses ht | finds ht | refuses ht | sleeps ht =>
    exact h.put ((ht ▸ htraced).tail.cons nofun nofun)
  | @takes own calls k ht =>
    have htaken : (w.putSlot k ((w.slots k).take t)).Traced c P own₀ := h.putSlot (h.outcome k)
    refine htaken.put ((ht ▸ htraced).tail.cons (fun s hs => ?_) nofun)
    cases hs
    exact .refl
  | ends ht hended =>
    refine h.put ((ht ▸ htraced).tail.cons nofun fun exit hexit => ?_)
    cases hexit
    exact hends _ _ _ ((ht ▸ htraced).filling _ _ (.head _)) hended
  | publishes ht houtcome =>
    subst houtcome
    have hright := (ht ▸ htraced).filled _ _ (.head _)
    rw [hsound.outcome_eq_none ((ht ▸ hfits).runner rfl).1]
    refine ((h.putSlot ?_).wakeAll _).put ((ht ▸ htraced).tail.cons nofun nofun)
    rintro outcome ⟨⟩
    exact hright
  | returns ht =>
    obtain ⟨⟨s, hs, hasks⟩, -⟩ := (ht ▸ hfits).linked
    exact h.put ((ht ▸ htraced).tail.resume hs hasks
      (h.outcome _ _ ((ht ▸ hfits).knows _ _ rfl)))
  | dismisses ht =>
    obtain ⟨⟨s, hs, hasks⟩, -⟩ := (ht ▸ hfits).linked
    exact h.put ((ht ▸ htraced).tail.resume hs hasks (hdismissed _ rfl))

/-- If initializers come to right outcomes from right answers, and nobody is dismissed where that
would not be right, then all outcomes and answers are right. -/
theorem Run.traced {ms : List (τ × Move κ α)} (hrun : Run c (initial own₀) ms w)
    (hends : ∀ k s exit, c.From P (c.start k) s → c.ends s exit →
      P k (exit.outcome (c.panicked k)))
    (hdismissed : ∀ t k, (t, .dismissed k) ∈ ms → P k (.error (c.reentry k))) :
    w.Traced c P own₀ := by
  induction hrun with
  | nil => exact traced_initial
  | @snoc ms w₁ w₂ t move hrun hstep ih =>
    refine hstep.traced (hrun.sound (sound_initial own₀)) (ih fun t k hmem => ?_) hends ?_
    · exact hdismissed t k (List.mem_append_left _ hmem)
    · rintro k rfl
      exact hdismissed t k (List.mem_append_right _ (.head _))

end World

end RoleComposition
