import Mathlib.Data.List.Chain
import Mathlib.Data.List.Nodup
import RoleComposition.Proofs.Waiting

/-!
# How threads come to wait for each other

Let initializers ask for each other's slots at once, so that there is a way from one slot to another
and a way back. One thread goes the way there as far as the last slot but one; another thread starts
at the last slot and goes the way back up to the first slot that is being filled already. Then each
waits for the other (`deadlock_of_asks`).
-/

namespace RoleComposition

open Relation (ReflTransGen TransGen)

/-- Where there is a way there is one that meets nothing twice. -/
theorem exists_simple_path {κ : Type} {R : κ → κ → Prop} {a b : κ} (h : ReflTransGen R a b) :
    ∃ path, (path ++ [b]).head? = some a ∧ List.IsChain R (path ++ [b]) ∧ (path ++ [b]).Nodup := by
  classical
  induction h using ReflTransGen.head_induction_on with
  | refl => exact ⟨[], rfl, .singleton b, List.nodup_singleton b⟩
  | @head a a' hstep _ ih =>
    obtain ⟨path, hhead, hchain, hnodup⟩ := ih
    by_cases ha : a ∈ path
    · -- the way has met the first slot before, and goes on from there
      obtain ⟨before, after, rfl⟩ := List.append_of_mem ha
      rw [List.append_assoc] at hchain hnodup
      exact ⟨a :: after, rfl, hchain.right_of_append, hnodup.of_append_right⟩
    · by_cases hab : a = b
      · subst hab
        exact ⟨[], rfl, .singleton a, List.nodup_singleton a⟩
      · have hnext : ∀ y ∈ (path ++ [b]).head?, R a y := by
          rw [hhead]
          rintro y ⟨⟩
          exact hstep
        exact ⟨a :: path, rfl, List.isChain_cons.mpr ⟨hnext, hchain⟩,
          List.nodup_cons.mpr ⟨by simp [ha, hab], hnodup⟩⟩

/-- The initializer of the one slot may ask for the other before anything else. -/
def Conduct.AsksAtOnce {κ α σ : Type} (c : Conduct κ α σ) (k k' : κ) : Prop := c.asks (c.start k) k'

namespace World

variable {τ κ α σ : Type} [DecidableEq τ] [DecidableEq κ] {c : Conduct κ α σ}
  {w w₁ w₂ : World τ κ α σ} {t t' : τ} {k k' : κ} {ks ks' : List κ}

/-- What the thread is running may ask for the slot. -/
def MayAsk (c : Conduct κ α σ) (w : World τ κ α σ) (t : τ) (k : κ) : Prop :=
  ∃ own calls s, w.threads t = ⟨own, calls⟩ ∧ Thread.state? ⟨own, calls⟩ = some s ∧ c.asks s k

theorem Run.append {ms ms' : List (τ × Move κ α)} (h : Run c w ms w₁) (h' : Run c w₁ ms' w₂) :
    Run c w (ms ++ ms') w₂ := by
  induction h' with
  | nil => simpa using h
  | snoc _ hstep ih =>
    rw [← List.append_assoc]
    exact .snoc ih hstep

/-- A run in which one thread takes all steps. -/
def Solo (c : Conduct κ α σ) (t : τ) (w : World τ κ α σ) (ms : List (Move κ α))
    (w' : World τ κ α σ) : Prop :=
  Run c w (ms.map (t, ·)) w'

theorem Solo.run {ms : List (Move κ α)} (h : Solo c t w ms w₁) : Run c w (ms.map (t, ·)) w₁ := h

theorem Solo.trans {ms ms' : List (Move κ α)} (h : Solo c t w ms w₁) (h' : Solo c t w₁ ms' w₂) :
    Solo c t w (ms ++ ms') w₂ := by
  unfold Solo
  rw [List.map_append]
  exact h.run.append h'.run

/-- The thread has gone on by itself, and of the slots it has taken just these. -/
structure Climbs (c : Conduct κ α σ) (w : World τ κ α σ) (t : τ) (ks : List κ)
    (w' : World τ κ α σ) : Prop where
  run : ∃ ms, Solo c t w ms w'
  taken : ∀ k ∈ ks, w'.slots k = { runner := some t }
  kept : ∀ k, k ∉ ks → w'.slots k = w.slots k
  others : ∀ t', t' ≠ t → w'.threads t' = w.threads t'

namespace Climbs

theorem refl (w : World τ κ α σ) (t : τ) : Climbs c w t [] w :=
  ⟨⟨[], .nil⟩, nofun, fun _ _ => rfl, fun _ _ => rfl⟩

theorem trans (h : Climbs c w t ks w₁) (h' : Climbs c w₁ t ks' w₂) :
    Climbs c w t (ks ++ ks') w₂ where
  run := by
    obtain ⟨ms, hrun⟩ := h.run
    obtain ⟨ms', hrun'⟩ := h'.run
    exact ⟨ms ++ ms', hrun.trans hrun'⟩
  taken k hk := by
    by_cases hk' : k ∈ ks'
    · exact h'.taken k hk'
    · rw [h'.kept k hk']
      exact h.taken k ((List.mem_append.mp hk).resolve_right hk')
  kept k hk := by
    rw [List.mem_append, not_or] at hk
    rw [h'.kept k hk.2, h.kept k hk.1]
  others t' ht := by rw [h'.others t' ht, h.others t' ht]

/-- Another thread may still ask for what it might ask for before. -/
theorem mayAsk (h : Climbs c w t ks w₁) (hasks : w.MayAsk c t' k) (ht : t' ≠ t) :
    w₁.MayAsk c t' k := by
  unfold MayAsk
  rwa [h.others t' ht]

end Climbs

/-- A thread takes a slot that is vacant. -/
theorem exists_take {own s : σ} {calls : List (Frame κ α σ)} (ht : w.threads t = ⟨own, calls⟩)
    (hs : Thread.state? ⟨own, calls⟩ = some s) (hasks : c.asks s k) (hslot : w.slots k = {}) :
    ∃ w', Climbs c w t [k] w' ∧
      w'.threads t = ⟨own, ⟨k, .filling (c.start k)⟩ :: calls⟩ := by
  have hrun := ((Run.nil (c := c) (w := w)).snoc (.asks ht hs hasks)).snoc
    (.misses put_threads_self (by rw [put_slots, hslot]))
  replace hrun := hrun.snoc
    (.takes put_threads_self (by simp [hslot]) (by simp [hslot]))
  refine ⟨_, ⟨⟨[.asked k, .read k, .took k], hrun⟩, ?taken, ?kept, ?others⟩, put_threads_self⟩
  case taken =>
    intro k' hk'
    rw [List.mem_singleton.mp hk']
    simp [hslot, SharedSlot.take]
  case kept =>
    intro k' hk'
    rw [put_slots, putSlot_slots_of_ne (by simpa using hk')]
    rfl
  case others =>
    intro t' ht'
    simp [put_threads_of_ne ht']

/-- A thread that may ask for a vacant slot takes it, and may then ask for what its initializer asks
for at once. -/
theorem MayAsk.take (h : w.MayAsk c t k) (hslot : w.slots k = {}) :
    ∃ w', Climbs c w t [k] w' ∧ ∀ k', c.AsksAtOnce k k' → w'.MayAsk c t k' := by
  obtain ⟨own, calls, s, ht, hs, hasks⟩ := h
  obtain ⟨w', hclimb, hthread⟩ := exists_take ht hs hasks hslot
  exact ⟨w', hclimb, fun k' hk' => ⟨own, _, c.start k, hthread, rfl, hk'⟩⟩

/-- A thread falls asleep on a slot that another is filling. -/
theorem MayAsk.sleep (h : w.MayAsk c t k) (hslot : w.slots k = { runner := some t' })
    (hne : t' ≠ t) : ∃ w', Climbs c w t [] w' ∧ w'.Asleep t k := by
  obtain ⟨own, calls, s, ht, hs, hasks⟩ := h
  have hrun := ((Run.nil (c := c) (w := w)).snoc (.asks ht hs hasks)).snoc
    (.misses put_threads_self (by rw [put_slots, hslot]))
  replace hrun := hrun.snoc
    (.sleeps put_threads_self (by simp [hslot]) (by simp only [put_slots, hslot]) hne)
  refine ⟨_, ⟨⟨[.asked k, .read k, .slept k], hrun⟩, nofun, fun _ _ => rfl, fun t' ht' => ?_⟩,
    calls, by simp⟩
  simp [put_threads_of_ne ht']

/-- A thread takes the slots on its way to one that it may then ask for. -/
theorem exists_climb {path : List κ} {next : κ} (hnodup : path.Nodup)
    (hchain : List.IsChain c.AsksAtOnce (path ++ [next]))
    (hasks : ∀ k ∈ (path ++ [next]).head?, w.MayAsk c t k) (hvacant : ∀ k ∈ path, w.slots k = {}) :
    ∃ w', Climbs c w t path w' ∧ w'.MayAsk c t next := by
  induction path generalizing w with
  | nil => exact ⟨w, .refl w t, hasks next rfl⟩
  | cons k path ih =>
    obtain ⟨hk, hnodup⟩ := List.nodup_cons.mp hnodup
    obtain ⟨hnext, hchain⟩ := List.isChain_cons.mp hchain
    obtain ⟨w₁, hclimb, hmay⟩ := (hasks k rfl).take (hvacant k (.head _))
    obtain ⟨w₂, hclimb', hmay'⟩ := ih hnodup hchain (fun k' hk' => hmay k' (hnext k' hk'))
      fun k' hk' => by
        have hne : k' ≠ k := fun heq => hk (heq ▸ hk')
        rw [hclimb.kept k' (by simpa using hne)]
        exact hvacant k' (.tail _ hk')
    exact ⟨w₂, hclimb.trans hclimb', hmay'⟩

/-- Where only some slots may have been taken, a thread takes those on its way up to the first of
them. -/
theorem exists_climb_until {a b : κ} (hway : ReflTransGen c.AsksAtOnce a b) (hasks : w.MayAsk c t a)
    (ha : a ∉ ks) (hb : b ∈ ks) (hvacant : ∀ k, k ∉ ks → w.slots k = {}) :
    ∃ w' path next, Climbs c w t path w' ∧ w'.MayAsk c t next ∧ a ∈ path ∧ next ∈ ks ∧
      next ∉ path := by
  obtain ⟨way, hhead, hchain, hnodup⟩ := exists_simple_path hway
  have hsome : ((way ++ [b]).find? fun k => decide (k ∈ ks)).isSome :=
    List.find?_isSome.mpr ⟨b, by simp, decide_eq_true hb⟩
  obtain ⟨next, hfind⟩ := Option.isSome_iff_exists.mp hsome
  obtain ⟨hnext, path, after, hsplit, hfree⟩ := List.find?_eq_some_iff_append.mp hfind
  simp only [decide_eq_true_eq, Bool.not_eq_true', decide_eq_false_iff_not] at hnext hfree
  rw [hsplit] at hhead hchain hnodup
  have hmem : a ∈ path := by
    match path with
    | [] =>
      cases hhead
      exact absurd hnext ha
    | k :: path =>
      cases hhead
      exact .head _
  obtain ⟨w', hclimb, hmay⟩ := exists_climb hnodup.of_append_left (List.isChain_split.mp hchain).1
    (by
      have hsame : (path ++ [next]).head? = (path ++ next :: after).head? := by simp
      rw [hsame, hhead]
      rintro k ⟨⟩
      exact hasks)
    fun k hk => hvacant k (hfree k hk)
  exact ⟨w', path, next, hclimb, hmay, hmem, hnext, fun hmem => hfree next hmem hnext⟩

/-- Two threads that may ask for slots which lead to each other can come to wait for each other. -/
theorem deadlock_of_asks {own : τ → σ} {a b : κ} (ht : t ≠ t') (hab : a ≠ b)
    (hforth : ReflTransGen c.AsksAtOnce a b) (hback : ReflTransGen c.AsksAtOnce b a)
    (ha : c.asks (own t) a) (hb : c.asks (own t') b) :
    ∃ ms w, Run c (initial own) ms w ∧ w.Waits t t' ∧ w.Waits t' t := by
  have hstart : (initial own : World τ κ α σ).MayAsk c t a := ⟨own t, [], own t, rfl, rfl, ha⟩
  have hstart' : (initial own : World τ κ α σ).MayAsk c t' b := ⟨own t', [], own t', rfl, rfl, hb⟩
  -- the first thread goes as far as the second slot, the second as far as a slot of the first
  obtain ⟨w₁, forth, next, hclimb₁, hmay, haf, hnext, hbf⟩ :=
    exists_climb_until hforth hstart (by simpa using hab) (List.mem_singleton_self b)
      fun _ _ => rfl
  obtain rfl := List.mem_singleton.mp hnext
  obtain ⟨w₂, back, x, hclimb₂, hmay', hbb, hxf, hxb⟩ :=
    exists_climb_until hback (hclimb₁.mayAsk hstart' ht.symm) hbf haf hclimb₁.kept
  have hx : w₂.slots x = { runner := some t } := by
    rw [hclimb₂.kept x hxb]
    exact hclimb₁.taken x hxf
  -- now both fall asleep
  obtain ⟨w₃, hclimb₃, calls, hasleep'⟩ := hmay'.sleep hx ht
  have hslot : w₃.slots next = { runner := some t' } := by
    rw [hclimb₃.kept next nofun]
    exact hclimb₂.taken next hbb
  obtain ⟨w₄, hclimb₄, hasleep⟩ :=
    (hclimb₃.mayAsk (hclimb₂.mayAsk hmay ht) ht).sleep hslot ht.symm
  obtain ⟨ms₁, hrun₁⟩ := hclimb₁.run
  obtain ⟨ms₂, hrun₂⟩ := hclimb₂.run
  obtain ⟨ms₃, hrun₃⟩ := hclimb₃.run
  obtain ⟨ms₄, hrun₄⟩ := hclimb₄.run
  refine ⟨_, w₄, ((hrun₁.run.append hrun₂.run).append hrun₃.run).append hrun₄.run,
    ⟨next, hasleep, ?_⟩, x, ⟨calls, ?_⟩, ?_⟩
  · rw [hclimb₄.kept next nofun, hslot]
  · rw [hclimb₄.others t' ht.symm, hasleep']
  · rw [hclimb₄.kept x nofun, hclimb₃.kept x nofun, hx]

end World

end RoleComposition
