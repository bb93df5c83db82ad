import RoleComposition.Body
import RoleComposition.Slot

/-!
# Slots shared by threads

Threads ask for the outcomes of slots. A call first reads the outcome without the lock. If there is
none yet, then under the lock it finds the outcome after all, or takes the slot, or is refused as
its own thread is filling the slot, or goes to sleep. Whoever has taken the slot runs an
initializer, which may ask for further slots, and publishes what comes of it. `Step` is one such
step of one thread, and a `Run` interleaves the steps of all threads in any way.
-/

namespace RoleComposition

/-- How an initializer ends, and how a call of its slot comes back: with an outcome, or by a
panic. -/
abbrev Ending (α : Type) := Except Panic (Except CompositionError α)

/-- The outcome that a slot is filled with after such an end. A panic is a failure, whose wording
the slot's owner decides. -/
def Ending.outcome {α : Type} (panicked : String → CompositionError) :
    Ending α → Except CompositionError α
  | .ok outcome => outcome
  | .error payload => .error (panicked payload.message)

/-- A slot with the thread that is filling it. -/
structure SharedSlot (τ α : Type) where
  runner : Option τ := none
  outcome : Option (Except CompositionError α) := none

namespace SharedSlot

variable {τ α : Type}

/-- The slot, whoever is filling it. -/
def slot (s : SharedSlot τ α) : Slot α :=
  match s.outcome, s.runner with
  | some outcome, _ => .settled outcome
  | none, some _ => .running
  | none, none => .vacant

/-- A thread takes the slot. -/
def take (s : SharedSlot τ α) (t : τ) : SharedSlot τ α := { s with runner := some t }

/-- A slot that has been filled and left. -/
def filled (outcome : Except CompositionError α) : SharedSlot τ α := { outcome := some outcome }

end SharedSlot

/-- What threads do with slots. A thread, and each initializer that it runs, is in a state of its
own. In some states it may ask for the outcome of a slot, with whose answer it goes on, and in
some an initializer may end. -/
structure Conduct (κ α σ : Type) where
  start : κ → σ
  asks : σ → κ → Prop
  resume : σ → Ending α → σ
  ends : σ → Ending α → Prop
  reentry : κ → CompositionError
  panicked : κ → String → CompositionError

/-- Where a call stands. -/
inductive Phase (α σ : Type) where
  | entering
  | checking
  | asleep
  | filling (s : σ)
  | filled (exit : Ending α)
  | leaving (exit : Ending α)
  | refused

/-- The call has taken its slot and not yet published. -/
def Phase.isRunning {α σ : Type} : Phase α σ → Bool
  | filling _ | filled _ => true
  | _ => false

/-- A call for the outcome of a slot. -/
structure Frame (κ α σ : Type) where
  slot : κ
  phase : Phase α σ

/-- A thread: its own state, and its calls that have not come back, the innermost first. -/
structure Thread (κ α σ : Type) where
  own : σ
  calls : List (Frame κ α σ) := []

namespace Thread

variable {κ α σ : Type}

/-- The state of what the thread is running, unless it is inside of a slot's own code. -/
def state? : Thread κ α σ → Option σ
  | ⟨own, []⟩ => some own
  | ⟨_, ⟨_, .filling s⟩ :: _⟩ => some s
  | _ => none

/-- What the thread is running goes on with an answer. -/
def resume (c : Conduct κ α σ) (exit : Ending α) : Thread κ α σ → Thread κ α σ
  | ⟨own, []⟩ => ⟨c.resume own exit, []⟩
  | ⟨own, ⟨k, .filling s⟩ :: calls⟩ => ⟨own, ⟨k, .filling (c.resume s exit)⟩ :: calls⟩
  | thread => thread

variable [DecidableEq κ]

/-- A sleeper on a slot that has been filled goes back to look under the lock. -/
def wake (k : κ) : Thread κ α σ → Thread κ α σ
  | ⟨own, ⟨k', .asleep⟩ :: calls⟩ =>
    if k' = k then ⟨own, ⟨k', .checking⟩ :: calls⟩ else ⟨own, ⟨k', .asleep⟩ :: calls⟩
  | thread => thread

end Thread

/-- Slots and the threads that share them. -/
structure World (τ κ α σ : Type) where
  slots : κ → SharedSlot τ α := fun _ => {}
  threads : τ → Thread κ α σ

namespace World

variable {τ κ α σ : Type}

/-- Vacant slots, and threads without calls. -/
def initial (own : τ → σ) : World τ κ α σ := { threads := fun t => { own := own t } }

/-- The thread sleeps on the slot. -/
def Asleep (w : World τ κ α σ) (t : τ) (k : κ) : Prop :=
  ∃ calls, (w.threads t).calls = ⟨k, .asleep⟩ :: calls

section Put

variable [DecidableEq τ] {w : World τ κ α σ} {t t' : τ} {thread : Thread κ α σ}

/-- Another thread in the place of one. -/
def put (w : World τ κ α σ) (t : τ) (thread : Thread κ α σ) : World τ κ α σ :=
  { w with threads := fun t' => if t' = t then thread else w.threads t' }

@[simp] theorem put_slots : (w.put t thread).slots = w.slots := rfl

@[simp] theorem put_threads_self : (w.put t thread).threads t = thread := if_pos rfl

theorem put_threads_of_ne (h : t' ≠ t) : (w.put t thread).threads t' = w.threads t' := if_neg h

end Put

variable [DecidableEq κ] {w : World τ κ α σ} {t : τ} {k k' : κ} {s : SharedSlot τ α}

/-- Another slot in the place of one. -/
def putSlot (w : World τ κ α σ) (k : κ) (s : SharedSlot τ α) : World τ κ α σ :=
  { w with slots := fun k' => if k' = k then s else w.slots k' }

@[simp] theorem putSlot_threads : (w.putSlot k s).threads = w.threads := rfl

@[simp] theorem putSlot_slots_self : (w.putSlot k s).slots k = s := if_pos rfl

theorem putSlot_slots_of_ne (h : k' ≠ k) : (w.putSlot k s).slots k' = w.slots k' := if_neg h

/-- All sleepers on a slot are woken. -/
def wakeAll (w : World τ κ α σ) (k : κ) : World τ κ α σ :=
  { w with threads := fun t => (w.threads t).wake k }

@[simp] theorem wakeAll_slots : (w.wakeAll k).slots = w.slots := rfl

@[simp] theorem wakeAll_threads : (w.wakeAll k).threads t = (w.threads t).wake k := rfl

end World

/-- What is to be seen of a step. -/
inductive Move (κ α : Type) where
  | asked (k : κ)
  | read (k : κ)
  | found (k : κ)
  | took (k : κ)
  | refused (k : κ)
  | slept (k : κ)
  | ended (k : κ) (exit : Ending α)
  | published (k : κ) (outcome : Except CompositionError α)
  | returned (k : κ) (exit : Ending α)
  | dismissed (k : κ)

namespace World

variable {τ κ α σ : Type} [DecidableEq τ] [DecidableEq κ]

/-- One step of a thread. What stands under the lock, and the read without it, is one step each. -/
inductive Step (c : Conduct κ α σ) (w : World τ κ α σ) (t : τ) :
    Move κ α → World τ κ α σ → Prop
  | asks {own : σ} {calls : List (Frame κ α σ)} {s : σ} {k : κ} :
      w.threads t = ⟨own, calls⟩ → Thread.state? ⟨own, calls⟩ = some s → c.asks s k →
      Step c w t (.asked k) (w.put t ⟨own, ⟨k, .entering⟩ :: calls⟩)
  | hits {own : σ} {calls : List (Frame κ α σ)} {k : κ} {outcome : Except CompositionError α} :
      w.threads t = ⟨own, ⟨k, .entering⟩ :: calls⟩ → (w.slots k).outcome = some outcome →
      Step c w t (.read k) (w.put t ⟨own, ⟨k, .leaving (.ok outcome)⟩ :: calls⟩)
  | misses {own : σ} {calls : List (Frame κ α σ)} {k : κ} :
      w.threads t = ⟨own, ⟨k, .entering⟩ :: calls⟩ → (w.slots k).outcome = none →
      Step c w t (.read k) (w.put t ⟨own, ⟨k, .checking⟩ :: calls⟩)
  | finds {own : σ} {calls : List (Frame κ α σ)} {k : κ} {outcome : Except CompositionError α} :
      w.threads t = ⟨own, ⟨k, .checking⟩ :: calls⟩ → (w.slots k).outcome = some outcome →
      Step c w t (.found k) (w.put t ⟨own, ⟨k, .leaving (.ok outcome)⟩ :: calls⟩)
  | takes {own : σ} {calls : List (Frame κ α σ)} {k : κ} :
      w.threads t = ⟨own, ⟨k, .checking⟩ :: calls⟩ → (w.slots k).outcome = none →
      (w.slots k).runner = none →
      Step c w t (.took k) ((w.putSlot k ((w.slots k).take t)).put t
        ⟨own, ⟨k, .filling (c.start k)⟩ :: calls⟩)
  | refuses {own : σ} {calls : List (Frame κ α σ)} {k : κ} :
      w.threads t = ⟨own, ⟨k, .checking⟩ :: calls⟩ → (w.slots k).outcome = none →
      (w.slots k).runner = some t →
      Step c w t (.refused k) (w.put t ⟨own, ⟨k, .refused⟩ :: calls⟩)
  | sleeps {own : σ} {calls : List (Frame κ α σ)} {k : κ} {t' : τ} :
      w.threads t = ⟨own, ⟨k, .checking⟩ :: calls⟩ → (w.slots k).outcome = none →
      (w.slots k).runner = some t' → t' ≠ t →
      Step c w t (.slept k) (w.put t ⟨own, ⟨k, .asleep⟩ :: calls⟩)
  | ends {own : σ} {calls : List (Frame κ α σ)} {k : κ} {s : σ} {exit : Ending α} :
      w.threads t = ⟨own, ⟨k, .filling s⟩ :: calls⟩ → c.ends s exit →
      Step c w t (.ended k exit) (w.put t ⟨own, ⟨k, .filled exit⟩ :: calls⟩)
  -- an outcome that is there already would stay; a panic goes on once its failure is published
  | publishes {own : σ} {calls : List (Frame κ α σ)} {k : κ} {exit : Ending α}
      {outcome : Except CompositionError α} :
      w.threads t = ⟨own, ⟨k, .filled exit⟩ :: calls⟩ →
      (w.slots k).outcome.getD (exit.outcome (c.panicked k)) = outcome →
      Step c w t (.published k outcome) (((w.putSlot k (.filled outcome)).wakeAll k).put t
        ⟨own, ⟨k, .leaving (exit.map fun _ => outcome)⟩ :: calls⟩)
  | returns {own : σ} {calls : List (Frame κ α σ)} {k : κ} {exit : Ending α} :
      w.threads t = ⟨own, ⟨k, .leaving exit⟩ :: calls⟩ →
      Step c w t (.returned k exit) (w.put t (Thread.resume c exit ⟨own, calls⟩))
  | dismisses {own : σ} {calls : List (Frame κ α σ)} {k : κ} :
      w.threads t = ⟨own, ⟨k, .refused⟩ :: calls⟩ →
      Step c w t (.dismissed k)
        (w.put t (Thread.resume c (.ok (.error (c.reentry k))) ⟨own, calls⟩))

/-- Steps of any threads one after the other. -/
inductive Run (c : Conduct κ α σ) (w : World τ κ α σ) :
    List (τ × Move κ α) → World τ κ α σ → Prop
  | nil : Run c w [] w
  | snoc {ms : List (τ × Move κ α)} {w₁ w₂ : World τ κ α σ} {t : τ} {move : Move κ α} :
      Run c w ms w₁ → Step c w₁ t move w₂ → Run c w (ms ++ [(t, move)]) w₂

end World

end RoleComposition
