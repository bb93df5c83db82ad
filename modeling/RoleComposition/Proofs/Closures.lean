import RoleComposition.Audit
import RoleComposition.Proofs.Failures

/-!
# Closures of a registry in use

A registry is shared by all that ask for closures, and each closure is gathered once. Whatever has
been asked for before, a closure is what a walk in depth down from its role meets; it is there
exactly if everything below the role resolves, and no failure is ever kept. Main statements:
`gathers_closureOf` and `closure_of_used`.
-/

namespace RoleComposition

namespace Registry

/-- A walk in depth from some roles, one after the other: each role comes before those that it
composes, which come in the order of its list. -/
inductive Walks (reg : Registry) : List RoleId → List RoleId → Prop
  | nil : Walks reg [] []
  | cons {id : RoleId} {d : RoleDefinition} {ids below after : List RoleId} :
      reg.lookup id = .ok d → Walks reg d.composed below → Walks reg ids after →
      Walks reg (id :: ids) (id :: (below ++ after))

/-- A closure holds for each signature one entry of each role that provides it among those which
its role reaches, with that role's own body, in the order in which a walk down from there first
meets them. -/
structure Gathers (reg : Registry) (id : RoleId) (c : RoleClosure) : Prop where
  role : c.role = id
  mem_iff : ∀ s e, e ∈ c.candidates s ↔
    reg.Reaches id e.origin ∧ reg.Provides e.origin s e.implementation
  once : ∀ s, ((c.candidates s).map ClosureEntry.origin).Nodup
  ordered : ∃ met, reg.Walks [id] met ∧ (∀ o, o ∈ met ↔ reg.Reaches id o) ∧
    ∀ s, (c.candidates s).Pairwise fun e e' => met.idxOf e.origin < met.idxOf e'.origin
  absent : ∀ s, c.methods.find? s = none ↔ ∀ o i, reg.Reaches id o → ¬ reg.Provides o s i

/-- The registry after an audit of all its roles. -/
def audited (reg : Registry) : Registry :=
  ((reg.entries.mapM fun e => auditRole e.definition).run reg).2

/-- The states that a frozen registry can get into, at the end of a call and while a hook has
control. Several engines may share it. -/
inductive Used (b : RegistryBuilder) : Registry → Prop
  | frozen : Used b b.freeze
  | asked {reg : Registry} (id : RoleId) : Used b reg → Used b (runFrom (closure id) reg).2
  | audited {reg : Registry} : Used b reg → Used b reg.audited
  | called {e : Engine} (r : Request) : Used b e.registry → Used b (runFrom r.step e).2.registry
  | hooked {e : Engine} {r : Request} {m : Moment} : Used b e.registry → m ∈ r.trail e →
      Used b m.engine.registry

/-! ## Walks -/

/-- Down to the levels that there are, the roles that are met make up a walk. -/
theorem walks_walk {reg : Registry} {n : Nat} {ids : List RoleId}
    (h : ∀ id ∈ ids, reg.ResolvesWithin n id) : reg.Walks ids (ids.flatMap (reg.walk n)) := by
  induction n generalizing ids with
  | zero =>
    cases ids with
    | nil => exact .nil
    | cons id ids => exact False.elim (h id List.mem_cons_self)
  | succ n ihn =>
    induction ids with
    | nil => exact .nil
    | cons id ids ih =>
      obtain ⟨d, hd, hbelow⟩ := h id List.mem_cons_self
      rw [List.flatMap_cons, walk_succ hd]
      exact .cons hd (ihn hbelow) (ih fun b hb => h b (List.mem_cons_of_mem _ hb))

section Contents

variable {reg : Registry} {id : RoleId} (h : reg.ResolvesWithin reg.size id)

include h

theorem candidates_closureOf (s : Signature) : (reg.closureOf id).candidates s =
    firstMet ClosureEntry.origin (reg.offersBelow reg.size s id) := by
  unfold RoleClosure.candidates
  rw [find?_closureOf h, getD_present]

theorem find?_closureOf_eq_none (s : Signature) : (reg.closureOf id).methods.find? s = none ↔
    ∀ o i, reg.Reaches id o → ¬ reg.Provides o s i := by
  rw [find?_closureOf h, present_eq_none, firstMet_eq_nil, List.eq_nil_iff_forall_not_mem]
  constructor
  · intro hnone o i ho hi
    exact hnone ⟨o, i⟩ ((mem_offersBelow_iff h).2 ⟨ho, hi⟩)
  · intro hnone e he
    obtain ⟨ho, hi⟩ := (mem_offersBelow_iff h).1 he
    exact hnone _ _ ho hi

/-- The closure of a role that resolves holds what a walk down from the role meets. -/
theorem gathers_closureOf : reg.Gathers id (reg.closureOf id) where
  role := flatten_role reg reg.size id
  mem_iff := fun s e => by
    rw [candidates_closureOf h, mem_firstMet_of_inj (eq_of_mem_offersBelow h),
      mem_offersBelow_iff h]
  once := fun s => by
    rw [candidates_closureOf h]
    exact nodup_firstMet _
  ordered := by
    refine ⟨reg.walk reg.size id, ?_, fun o => mem_walk h, fun s => ?_⟩
    · have hwalks : reg.Walks [id] ([id].flatMap (reg.walk reg.size)) :=
        walks_walk fun b hb => List.mem_singleton.1 hb ▸ h
      rwa [List.flatMap_singleton] at hwalks
    · rw [candidates_closureOf h]
      exact pairwise_firstMet_filterMap (fun _ _ => origin_of_offer) _
  absent := find?_closureOf_eq_none h

end Contents

/-! ## Registries in use -/

/-- A registry between two calls, over the definitions that it was frozen with. -/
structure Serves (b : RegistryBuilder) (reg : Registry) : Prop where
  sound : reg.Sound
  definitions : reg.definitions = b.freeze.definitions

theorem Serves.of_fills {b : RegistryBuilder} {reg reg' : Registry} (h : Serves b reg)
    (hfill : reg.Fills reg') : Serves b reg' :=
  ⟨hfill.sound h.sound, hfill.definitions.trans h.definitions⟩

theorem Serves.closure {b : RegistryBuilder} {reg : Registry} (h : Serves b reg) (id : RoleId) :
    Serves b (runFrom (Registry.closure id) reg).2 := by
  obtain ⟨reg', hrun, hfill⟩ := runFrom_closure h.sound id
  rw [hrun]
  exact h.of_fills hfill

/-- An audit asks for one closure after the other. -/
theorem Serves.audit {b : RegistryBuilder} {reg : Registry} (entries : List RegisteredRole)
    (h : Serves b reg) :
    Serves b ((entries.mapM fun e => auditRole e.definition).run reg).2 := by
  induction entries generalizing reg with
  | nil => exact h
  | cons e entries ih =>
    rw [List.mapM_cons]
    exact ih (h.closure e.definition.id)

/-- No part of a composition changes the definitions of a registry, or leaves it unsound. -/
theorem lasting_serves (b : RegistryBuilder) :
    Engine.Lasting (fun e => Serves b e.registry) fun _ => True where
  sound := fun _ h => h.sound
  fills := fun _ _ h hfill => h.of_fills hfill
  starts := fun _ _ _ _ _ _ => trivial
  advances := fun _ _ _ h _ _ => h
  asks := fun _ _ _ _ h _ _ => h
  records := fun _ _ h hreg _ _ _ => hreg ▸ h
  declares := fun _ _ h _ => h

theorem Used.serves {b : RegistryBuilder} {reg : Registry} (h : Used b reg) : Serves b reg := by
  induction h with
  | frozen => exact ⟨sound_freeze b, rfl⟩
  | asked id _ ih => exact ih.closure id
  | audited _ ih => exact ih.audit _
  | called r _ ih => exact (kept_step (lasting_serves b).upheld r ih).last
  | hooked _ hm ih => exact (kept_step (lasting_serves b).upheld _ ih).moments _ hm

end Registry

open Registry in
/-- A closure is there exactly if everything below its role is registered and on no cycle. It is
the same whatever the registry has gone through, and holds what a walk down from the role meets;
and no slot ever holds an error. -/
theorem closure_of_used {b : RegistryBuilder} {reg : Registry} (h : Used b reg) (id : RoleId) :
    ((∃ c, (runFrom (closure id) reg).1 = .ok c) ↔
      (∀ o, b.freeze.Reaches id o → b.freeze.contains o = true) ∧
        ∀ o, b.freeze.Reaches id o → ¬ b.freeze.OnCycle o) ∧
      (runFrom (closure id) reg).1 = (runFrom (closure id) b.freeze).1 ∧
      (∀ c, (runFrom (closure id) reg).1 = .ok c → b.freeze.Gathers id c) ∧
      ∀ o error, reg.slotOf o ≠ .settled (.error error) := by
  obtain ⟨hsound, hdef⟩ := h.serves
  have hresult {reg' : Registry} (h' : Serves b reg') : (runFrom (closure id) reg').1 =
      (b.freeze.resolutionOrder [id]).map fun _ => b.freeze.closureOf id := by
    obtain ⟨reg'', hrun, -⟩ := runFrom_closure h'.sound id
    rw [hrun, resolutionOrder_congr h'.definitions, closureOf_congr h'.definitions]
  rw [hresult h.serves, hresult Used.frozen.serves]
  refine ⟨?_, rfl, fun c hc => ?_, fun o error hslot => ?_⟩
  · have hiff : (∃ order, b.freeze.resolutionOrder [id] = .ok order) ↔ _ := resolutionOrder_isOk
    simp only [reachedFrom_singleton] at hiff
    rw [← hiff]
    cases b.freeze.resolutionOrder [id] <;> simp [Except.map]
  · cases horder : b.freeze.resolutionOrder [id] with
    | error error =>
      rw [horder] at hc
      cases hc
    | ok order =>
      rw [horder] at hc
      cases hc
      exact gathers_closureOf (resolvesWithin_of_reachedFrom horder
        (reachedFrom_singleton.2 .refl))
  · obtain ⟨hok, -⟩ := hsound.kept o _ hslot
    cases hok

namespace Sample

/-- Rival roles of which an absent one has been asked for, and all have been audited, with a type
over them. -/
def audited (t : AdoptingType) : Engine :=
  { Engine.new (runFrom (Registry.closure ⟨"absent"⟩) rivals.freeze).2.audited {} with
    types := [{ definition := t }] }

end Sample

/-- A closure in a registry that has been audited and used by a type that fails. -/
theorem closure_of_used_rivals :
    let torn := Sample.torn [Sample.parting.id, Sample.staying.id] fun _ _ => true
    let reg := (runFrom (Request.compose "torn").step (Sample.audited torn)).2.registry
    Registry.Used Sample.rivals reg ∧
      ∃ c, (runFrom (Registry.closure Sample.parting.id) reg).1 = .ok c ∧
        Sample.rivals.freeze.Gathers Sample.parting.id c ∧
        (c.candidates Sample.greet).map ClosureEntry.origin =
          [Sample.parting.id, Sample.greeting.id] := by
  intro torn reg
  have hused : Registry.Used Sample.rivals reg :=
    .called (e := Sample.audited torn) (.compose "torn") (.audited (.asked ⟨"absent"⟩ .frozen))
  obtain ⟨-, -, hgathers, -⟩ := closure_of_used hused Sample.parting.id
  have horigins : (runFrom (Registry.closure Sample.parting.id) reg).1.map (fun c =>
      (c.candidates Sample.greet).map ClosureEntry.origin) =
        .ok [Sample.parting.id, Sample.greeting.id] := by
    decide +kernel
  cases hrun : (runFrom (Registry.closure Sample.parting.id) reg).1 with
  | error error =>
    rw [hrun] at horigins
    cases horigins
  | ok c =>
    rw [hrun] at horigins
    exact ⟨hused, c, rfl, hgathers c hrun, Except.ok.inj horigins⟩

end RoleComposition
