import RoleComposition.Proofs.Flattening
import RoleComposition.Proofs.Running

/-!
# Gathering through slots

The slots of the closures do not show: whatever they hold, a role that resolves has the closure
that gathering it anew gives. `Sound` is the invariant of a registry that is not being worked on:
each slot is vacant, or holds the right closure of a role that resolves. Main statements:
`runFrom_closureResolved` and `runFrom_closure`.
-/

namespace RoleComposition.Registry

/-- The definitions in the order of their registration. -/
def definitions (reg : Registry) : List RoleDefinition :=
  reg.entries.map RegisteredRole.definition

/-- The slot of a role's closure; a role that is not registered never gets one. -/
def slotOf (reg : Registry) (id : RoleId) : Slot RoleClosure :=
  ((reg.find? id).map RegisteredRole.closure).getD .vacant

/-- What a slot holds is the closure of a role that resolves. -/
def Kept (reg : Registry) : Prop :=
  ∀ id outcome, reg.slotOf id = .settled outcome →
    outcome = .ok (reg.closureOf id) ∧ reg.ResolvesWithin reg.size id

/-- A registry between two steps: no closure is being gathered. -/
structure Sound (reg : Registry) : Prop where
  kept : reg.Kept
  idle : ∀ id, reg.slotOf id ≠ .running

/-- Slots have been filled, and those that were running still are. -/
structure Fills (reg reg' : Registry) : Prop where
  definitions : reg'.definitions = reg.definitions
  kept : reg'.Kept
  running : ∀ id, reg'.slotOf id = .running ↔ reg.slotOf id = .running

theorem mem_definitions_of_lookup {reg : Registry} {id : RoleId} {d : RoleDefinition}
    (h : reg.lookup id = .ok d) : d ∈ reg.definitions := by
  obtain ⟨e, he, rfl⟩ := lookup_eq_ok.1 h
  exact List.mem_map_of_mem (List.mem_of_find?_eq_some he)

/-! ## What depends on the definitions only -/

section Definitions

variable {reg reg' : Registry} (h : reg'.definitions = reg.definitions)

include h

theorem size_congr : reg'.size = reg.size := by
  have hlen := congrArg List.length h
  rwa [definitions, definitions, List.length_map, List.length_map] at hlen

theorem lookup_congr (id : RoleId) : reg'.lookup id = reg.lookup id := by
  have find_definition (r : Registry) :
      (r.find? id).map RegisteredRole.definition = r.definitions.find? (·.id == id) := by
    rw [definitions, List.find?_map]
    rfl
  have hmap : (reg'.find? id).map RegisteredRole.definition =
      (reg.find? id).map RegisteredRole.definition := by
    rw [find_definition, find_definition, h]
  have lookup_eq (r : Registry) : r.lookup id =
      ((r.find? id).map RegisteredRole.definition).elim (.error (.unknownRole id)) .ok := by
    unfold lookup
    cases r.find? id <;> rfl
  rw [lookup_eq, lookup_eq, hmap]

theorem visit_congr : reg'.visit = reg.visit := by
  funext depth
  induction depth with
  | zero =>
    funext path left id
    unfold visit
    rw [lookup_congr h]
  | succ depth ih =>
    funext path left id
    unfold visit
    rw [lookup_congr h]
    simp only [ih]

theorem resolutionOrder_congr (roots : List RoleId) :
    reg'.resolutionOrder roots = reg.resolutionOrder roots := by
  unfold resolutionOrder
  rw [visit_congr h, size_congr h]

theorem composes_congr : reg'.Composes = reg.Composes := by
  funext a b
  unfold Composes
  rw [lookup_congr h]

theorem reaches_congr : reg'.Reaches = reg.Reaches := by
  unfold Reaches
  rw [composes_congr h]

theorem resolvesWithin_congr (n : Nat) (id : RoleId) :
    reg'.ResolvesWithin n id ↔ reg.ResolvesWithin n id := by
  induction n generalizing id with
  | zero => exact Iff.rfl
  | succ n ih =>
    unfold ResolvesWithin
    rw [lookup_congr h]
    simp only [ih]

theorem flatten_congr (n : Nat) (id : RoleId) : reg'.flatten n id = reg.flatten n id := by
  induction n generalizing id with
  | zero => rfl
  | succ n ih =>
    unfold flatten
    rw [lookup_congr h]
    simp only [ih]

theorem closureOf_congr (id : RoleId) : reg'.closureOf id = reg.closureOf id := by
  unfold closureOf
  rw [size_congr h, flatten_congr h]

end Definitions

/-! ## Slots -/

theorem find?_setClosure (reg : Registry) (id : RoleId) (slot : Slot RoleClosure) (b : RoleId) :
    (reg.setClosure id slot).find? b =
      (reg.find? b).map fun e => if b = id then { e with closure := slot } else e := by
  unfold find? setClosure
  rw [List.find?_map]
  have hp : ((fun e : RegisteredRole => e.definition.id == b) ∘ fun e : RegisteredRole =>
      if e.definition.id = id then { e with closure := slot } else e) =
        fun e => e.definition.id == b := by
    funext e
    simp only [Function.comp]
    split_ifs <;> rfl
  rw [hp]
  cases hf : reg.entries.find? (fun e => e.definition.id == b) with
  | none => rfl
  | some e =>
    have hid : e.definition.id = b := by simpa using List.find?_some hf
    simp [hid]

@[simp] theorem definitions_setClosure (reg : Registry) (id : RoleId) (slot : Slot RoleClosure) :
    (reg.setClosure id slot).definitions = reg.definitions := by
  unfold definitions setClosure
  rw [List.map_map]
  refine List.map_congr_left fun e _ => ?_
  simp only [Function.comp]
  split_ifs <;> rfl

theorem slotOf_setClosure_of_ne {reg : Registry} {id b : RoleId} (slot : Slot RoleClosure)
    (h : b ≠ id) : (reg.setClosure id slot).slotOf b = reg.slotOf b := by
  unfold slotOf
  rw [find?_setClosure]
  cases reg.find? b <;> simp [h]

theorem slotOf_setClosure_self {reg : Registry} {id : RoleId} (slot : Slot RoleClosure)
    (h : ∃ e, reg.find? id = some e) : (reg.setClosure id slot).slotOf id = slot := by
  obtain ⟨e, he⟩ := h
  unfold slotOf
  rw [find?_setClosure, he]
  simp

namespace Fills

theorem refl {reg : Registry} (h : reg.Kept) : reg.Fills reg := ⟨rfl, h, fun _ => Iff.rfl⟩

theorem trans {reg reg₁ reg₂ : Registry} (h : reg.Fills reg₁) (h' : reg₁.Fills reg₂) :
    reg.Fills reg₂ :=
  ⟨h'.definitions.trans h.definitions, h'.kept, fun id => (h'.running id).trans (h.running id)⟩

theorem sound {reg reg' : Registry} (h : reg.Fills reg') (hs : reg.Sound) : reg'.Sound :=
  ⟨h.kept, fun id hid => hs.idle id ((h.running id).1 hid)⟩

end Fills

theorem kept_setRunning {reg : Registry} {id : RoleId} (h : reg.Kept)
    (hid : ∃ e, reg.find? id = some e) : (reg.setClosure id .running).Kept := by
  intro b outcome ho
  by_cases hb : b = id
  · subst hb
    rw [slotOf_setClosure_self _ hid] at ho
    cases ho
  · rw [slotOf_setClosure_of_ne _ hb] at ho
    have hd := definitions_setClosure reg id .running
    obtain ⟨he, hr⟩ := h b outcome ho
    rw [closureOf_congr hd, size_congr hd]
    exact ⟨he, (resolvesWithin_congr hd _ _).2 hr⟩

/-- Putting a role's closure into its slot ends what taking the slot has begun. -/
theorem fills_settle {reg reg' : Registry} {id : RoleId}
    (hid : ∃ e, reg.find? id = some e) (hvacant : reg.slotOf id = .vacant)
    (hr : reg.ResolvesWithin reg.size id) (h : (reg.setClosure id .running).Fills reg') :
    reg.Fills (reg'.setClosure id (.settled (.ok (reg.closureOf id)))) := by
  have hd : reg'.definitions = reg.definitions :=
    h.definitions.trans (definitions_setClosure _ _ _)
  have hid' : ∃ e, reg'.find? id = some e := by
    obtain ⟨e, he⟩ := hid
    have hl : reg'.lookup id = .ok e.definition := by
      rw [lookup_congr hd]
      exact lookup_eq_ok.2 ⟨e, he, rfl⟩
    obtain ⟨e', he', -⟩ := lookup_eq_ok.1 hl
    exact ⟨e', he'⟩
  have hd' := (definitions_setClosure reg' id (.settled (.ok (reg.closureOf id)))).trans hd
  -- only the role's own slot changes; the others are as gathering below has left them
  refine ⟨hd', fun b outcome ho => ?_, fun b => ?_⟩
  · rw [closureOf_congr hd', size_congr hd', resolvesWithin_congr hd']
    by_cases hb : b = id
    · subst hb
      rw [slotOf_setClosure_self _ hid'] at ho
      cases ho
      exact ⟨rfl, hr⟩
    · rw [slotOf_setClosure_of_ne _ hb] at ho
      obtain ⟨he, hr⟩ := h.kept b outcome ho
      rw [closureOf_congr hd, size_congr hd, resolvesWithin_congr hd] at *
      exact ⟨he, hr⟩
  · by_cases hb : b = id
    · subst hb
      rw [slotOf_setClosure_self _ hid', hvacant]
      simp
    · rw [slotOf_setClosure_of_ne _ hb, h.running, slotOf_setClosure_of_ne _ hb]

/-! ## Gathering -/

/-- The closures of several roles are gathered in turn. -/
theorem runFrom_gather_foldlM {depth : Nat} {reg : Registry} {ids : List RoleId}
    (step : ∀ b ∈ ids, ∀ reg₁, reg.Fills reg₁ →
      ∃ reg₂, runFrom (gather depth b) reg₁ = (.ok (reg.closureOf b), reg₂) ∧ reg₁.Fills reg₂)
    {reg₁ : Registry} (h : reg.Fills reg₁) (methods : SignatureMap (List ClosureEntry)) :
    ∃ reg₂,
      runFrom (ids.foldlM (fun methods dependency => do
          return RoleClosure.absorb methods (← gather depth dependency)) methods : ClosureM _)
        reg₁ =
        (.ok (ids.foldl (fun methods b => RoleClosure.absorb methods (reg.closureOf b)) methods),
          reg₂) ∧
      reg₁.Fills reg₂ := by
  induction ids generalizing reg₁ methods with
  | nil => exact ⟨reg₁, rfl, .refl h.kept⟩
  | cons b ids ih =>
    obtain ⟨reg₂, hrun, hfill⟩ := step b List.mem_cons_self reg₁ h
    obtain ⟨reg₃, hrun', hfill'⟩ := ih (fun c hc => step c (List.mem_cons_of_mem _ hc))
      (h.trans hfill) (RoleClosure.absorb methods (reg.closureOf b))
    refine ⟨reg₃, ?_, hfill.trans hfill'⟩
    have hstep : runFrom (do return RoleClosure.absorb methods (← gather depth b) : ClosureM _)
        reg₁ = (.ok (RoleClosure.absorb methods (reg.closureOf b)), reg₂) := by
      rw [runFrom_bind_ok hrun]
      rfl
    rw [List.foldlM_cons, runFrom_bind_ok hstep]
    exact hrun'

/-- Gathering into a vacant slot, if what the role composes is gathered rightly meanwhile. -/
theorem runFrom_gather_vacant {depth : Nat} {reg : Registry} {id : RoleId} {e : RegisteredRole}
    (he : reg.find? id = some e) (hvacant : e.closure = .vacant) (hk : reg.Kept)
    (hr : reg.ResolvesWithin reg.size id)
    (step : ∀ b ∈ e.definition.composed, ∀ reg₁, (reg.setClosure id .running).Fills reg₁ →
      ∃ reg₂, runFrom (gather depth b) reg₁ =
          (.ok ((reg.setClosure id .running).closureOf b), reg₂) ∧ reg₁.Fills reg₂) :
    ∃ reg', runFrom (gather (depth + 1) id) reg = (.ok (reg.closureOf id), reg') ∧
      reg.Fills reg' := by
  have hslot : reg.slotOf id = .vacant := by
    unfold slotOf
    rw [he, ← hvacant]
    rfl
  obtain ⟨reg₂, hrun, hfill⟩ := runFrom_gather_foldlM step
    (.refl (kept_setRunning hk ⟨e, he⟩)) (RoleClosure.ownMethods e.definition)
  refine ⟨_, ?_, fills_settle ⟨e, he⟩ hslot hr hfill⟩
  have hclosure : reg.closureOf id = ⟨id, e.definition.composed.foldl (fun methods b =>
      RoleClosure.absorb methods ((reg.setClosure id .running).closureOf b))
        (RoleClosure.ownMethods e.definition)⟩ := by
    rw [closureOf_eq hr (lookup_eq_ok.2 ⟨e, he, rfl⟩)]
    simp only [closureOf_congr (definitions_setClosure reg id .running)]
  unfold gather
  rw [runFrom_bind_ok (runFrom_get reg), he]
  simp only [hvacant]
  rw [runFrom_bind_ok (runFrom_set _ _), runFrom_bind_ok (runFrom_lift_run _ _),
    runFrom_bind_ok hrun]
  simp only [runFrom_pure, ← hclosure]
  rfl

/-- Gathering comes to the closure that is gathered anew, if nothing below the role is being
gathered already; by the levels below the role it needs no more depth than there is. -/
theorem runFrom_gather {n depth : Nat} {reg : Registry} {id : RoleId}
    (hr : reg.ResolvesWithin n id) (hle : n ≤ depth) (hk : reg.Kept)
    (hsize : reg.ResolvesWithin reg.size id)
    (hidle : ∀ b, reg.Reaches id b → reg.slotOf b ≠ .running) :
    ∃ reg', runFrom (gather depth id) reg = (.ok (reg.closureOf id), reg') ∧ reg.Fills reg' := by
  induction n generalizing depth reg id with
  | zero => exact False.elim hr
  | succ n ih =>
    obtain ⟨d, hd, hdeps⟩ := hr
    obtain ⟨e, he, rfl⟩ := lookup_eq_ok.1 hd
    have hslot : reg.slotOf id = e.closure := by
      unfold slotOf
      rw [he]
      rfl
    cases hc : e.closure with
    | settled outcome =>
      obtain ⟨ho, -⟩ := hk id outcome (hslot.trans hc)
      refine ⟨reg, ?_, .refl hk⟩
      unfold gather
      rw [runFrom_bind_ok (runFrom_get reg), he]
      simp only [hc, ho]
      rfl
    | running => exact absurd (hslot.trans hc) (hidle id .refl)
    | vacant =>
      obtain ⟨depth, rfl⟩ : ∃ k, depth = k + 1 := ⟨depth - 1, by omega⟩
      refine runFrom_gather_vacant he hc hk hsize fun b hb reg₁ hfill => ?_
      -- what is below a dependency is below the role, and is not the role itself
      have hdef := definitions_setClosure reg id .running
      have hdef₁ := hfill.definitions.trans hdef
      have hedge : reg.Composes id b := ⟨e.definition, hd, hb⟩
      rw [closureOf_congr hdef, ← closureOf_congr hdef₁]
      refine ih ((resolvesWithin_congr hdef₁ _ _).2 (hdeps b hb)) (by omega) hfill.kept ?_ ?_
      · rw [resolvesWithin_congr hdef₁, size_congr hdef₁]
        exact hsize.reaches (.single hedge)
      · intro c hbc hrun
        rw [reaches_congr hdef₁] at hbc
        have hne : c ≠ id := by
          rintro rfl
          exact hsize.not_onCycle (Relation.TransGen.head' hedge hbc)
        rw [hfill.running, slotOf_setClosure_of_ne _ hne] at hrun
        exact hidle c (.head hedge hbc) hrun

/-- The closure of a role that resolves, whatever the slots hold. -/
theorem runFrom_closureResolved {reg : Registry} {id : RoleId} (hs : reg.Sound)
    (hr : reg.ResolvesWithin reg.size id) :
    ∃ reg', runFrom (closureResolved id) reg = (.ok (reg.closureOf id), reg') ∧
      reg.Fills reg' := by
  unfold closureResolved
  rw [runFrom_bind_ok (runFrom_get reg)]
  exact runFrom_gather hr (Nat.le_refl _) hs.kept hr fun b _ => hs.idle b

/-- A request for a closure fails where the role does not resolve, and the slots stay sound. -/
theorem runFrom_closure {reg : Registry} (hs : reg.Sound) (id : RoleId) :
    ∃ reg', runFrom (closure id) reg =
        ((reg.resolutionOrder [id]).map fun _ => reg.closureOf id, reg') ∧
      reg.Fills reg' := by
  unfold closure
  rw [runFrom_bind_ok (runFrom_get reg)]
  cases ho : reg.resolutionOrder [id] with
  | error error => exact ⟨reg, rfl, .refl hs.kept⟩
  | ok order =>
    have hr := resolvesWithin_of_reachedFrom ho (reachedFrom_singleton.2 .refl)
    exact runFrom_closureResolved hs hr

end RoleComposition.Registry
