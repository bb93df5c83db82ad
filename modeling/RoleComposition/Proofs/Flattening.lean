import RoleComposition.Closure
import RoleComposition.Proofs.FirstMet
import RoleComposition.Proofs.Lookup
import RoleComposition.Proofs.Reachability

/-!
# What a closure holds

`closureOf` is the closure of a role gathered anew, without slots. Main statement:
`find?_closureOf`. For each signature it holds what a walk down from the role meets, each role
before the roles that it composes, and of the offers of one origin the first.
-/

namespace RoleComposition

/-- A list that is held only if it has elements. -/
def present {α : Type} (l : List α) : Option (List α) := if l.isEmpty then none else some l

@[simp] theorem present_nil {α : Type} : present ([] : List α) = none := rfl

@[simp] theorem present_cons {α : Type} (a : α) (l : List α) :
    present (a :: l) = some (a :: l) := rfl

theorem getD_present {α : Type} (l : List α) : (present l).getD [] = l := by
  cases l <;> rfl

theorem present_eq_some {α : Type} {l l' : List α} :
    present l = some l' ↔ l ≠ [] ∧ l = l' := by
  cases l <;> simp

theorem present_eq_none {α : Type} {l : List α} : present l = none ↔ l = [] := by
  cases l <;> simp

namespace Registry

/-- The closure of a role, gathered anew down to so many levels. -/
def flatten (reg : Registry) : Nat → RoleId → RoleClosure
  | 0, id => ⟨id, ∅⟩
  | n + 1, id =>
    match reg.lookup id with
    | .ok d =>
      ⟨id, d.composed.foldl (fun methods b => RoleClosure.absorb methods (reg.flatten n b))
        (RoleClosure.ownMethods d)⟩
    | .error _ => ⟨id, ∅⟩

/-- The closure of a role that resolves. -/
def closureOf (reg : Registry) (id : RoleId) : RoleClosure := reg.flatten reg.size id

/-- The roles that a walk down from a role meets, each time it meets them. -/
def walk (reg : Registry) : Nat → RoleId → List RoleId
  | 0, _ => []
  | n + 1, id =>
    id :: match reg.lookup id with
      | .ok d => d.composed.flatMap (reg.walk n)
      | .error _ => []

/-- What a role by itself offers for a signature. -/
def offer (reg : Registry) (s : Signature) (id : RoleId) : Option ClosureEntry :=
  match reg.lookup id with
  | .ok d => (d.provided.find? s).map (⟨id, ·⟩)
  | .error _ => none

/-- What the roles on a walk down from a role offer for a signature. -/
def offersBelow (reg : Registry) (n : Nat) (s : Signature) (id : RoleId) : List ClosureEntry :=
  (reg.walk n id).filterMap (reg.offer s)

variable {reg : Registry} {n m : Nat} {id : RoleId}

theorem flatten_succ {d : RoleDefinition} (h : reg.lookup id = .ok d) :
    reg.flatten (n + 1) id =
      ⟨id, d.composed.foldl (fun methods b => RoleClosure.absorb methods (reg.flatten n b))
        (RoleClosure.ownMethods d)⟩ := by
  rw [flatten, h]

@[simp] theorem flatten_role (reg : Registry) (n : Nat) (id : RoleId) :
    (reg.flatten n id).role = id := by
  cases n with
  | zero => rfl
  | succ n =>
    rw [flatten]
    split <;> rfl

theorem walk_succ {d : RoleDefinition} (h : reg.lookup id = .ok d) :
    reg.walk (n + 1) id = id :: d.composed.flatMap (reg.walk n) := by
  rw [walk, h]

/-- Levels beyond those that there are change nothing. -/
theorem flatten_of_le (h : reg.ResolvesWithin n id) (hle : n ≤ m) :
    reg.flatten m id = reg.flatten n id := by
  induction n generalizing m id with
  | zero => exact False.elim h
  | succ n ih =>
    cases m with
    | zero => omega
    | succ m =>
      obtain ⟨d, hd, hb⟩ := h
      rw [flatten_succ hd, flatten_succ hd]
      congr 1
      exact List.foldl_ext _ _ _ fun methods b hmem => by rw [ih (hb b hmem) (by omega)]

/-- A closure is gathered from the role's own methods and the closures of what it composes. -/
theorem closureOf_eq {d : RoleDefinition} (h : reg.ResolvesWithin reg.size id)
    (hd : reg.lookup id = .ok d) :
    reg.closureOf id =
      ⟨id, d.composed.foldl (fun methods b => RoleClosure.absorb methods (reg.closureOf b))
        (RoleClosure.ownMethods d)⟩ := by
  unfold closureOf
  cases hsize : reg.size with
  | zero =>
    rw [hsize] at h
    exact False.elim h
  | succ n =>
    rw [hsize] at h
    rw [flatten_succ hd]
    congr 1
    refine List.foldl_ext _ _ _ fun methods b hmem => ?_
    rw [flatten_of_le (h.composes ⟨d, hd, hmem⟩) (Nat.le_succ n)]

/-! ## Walks -/

theorem mem_walk (h : reg.ResolvesWithin n id) {b : RoleId} :
    b ∈ reg.walk n id ↔ reg.Reaches id b := by
  induction n generalizing id with
  | zero => exact False.elim h
  | succ n ih =>
    obtain ⟨d, hd, hdeps⟩ := h
    rw [walk_succ hd, List.mem_cons, List.mem_flatMap]
    constructor
    · rintro (rfl | ⟨a, ha, hb⟩)
      · exact .refl
      · exact .head ⟨d, hd, ha⟩ ((ih (hdeps a ha)).1 hb)
    · intro hb
      rcases Relation.ReflTransGen.cases_head hb with rfl | ⟨a, ⟨d', hd', ha⟩, hab⟩
      · exact .inl rfl
      · rw [hd] at hd'
        cases hd'
        exact .inr ⟨a, ha, (ih (hdeps a ha)).2 hab⟩

theorem origin_of_offer {s : Signature} {e : ClosureEntry} (h : reg.offer s id = some e) :
    e.origin = id := by
  unfold offer at h
  split at h
  · obtain ⟨i, -, rfl⟩ := Option.map_eq_some_iff.1 h
    rfl
  · cases h

theorem mem_offersBelow (h : reg.ResolvesWithin n id) {s : Signature} {e : ClosureEntry} :
    e ∈ reg.offersBelow n s id ↔ reg.Reaches id e.origin ∧ reg.offer s e.origin = some e := by
  rw [offersBelow, List.mem_filterMap]
  constructor
  · rintro ⟨b, hb, he⟩
    have hob := origin_of_offer he
    subst hob
    exact ⟨(mem_walk h).1 hb, he⟩
  · rintro ⟨hb, he⟩
    exact ⟨e.origin, (mem_walk h).2 hb, he⟩

theorem offer_eq_some {s : Signature} {e : ClosureEntry} :
    reg.offer s e.origin = some e ↔
      ∃ d, reg.lookup e.origin = .ok d ∧ d.provided.find? s = some e.implementation := by
  unfold offer
  cases reg.lookup e.origin with
  | error error => simp
  | ok d =>
    obtain ⟨origin, implementation⟩ := e
    simp

/-! ## Contents -/

theorem find?_ownMethods {d : RoleDefinition} (hd : reg.lookup id = .ok d) (s : Signature) :
    (RoleClosure.ownMethods d).find? s = present (reg.offer s id).toList := by
  have hid := id_of_lookup hd
  subst hid
  unfold RoleClosure.ownMethods offer
  rw [SignatureMap.find?_map, hd]
  dsimp only
  cases d.provided.find? s <;> rfl

/-- What is held for a signature after a closure has been added. -/
theorem find?_absorb (methods : SignatureMap (List ClosureEntry)) (inner : RoleClosure)
    (s : Signature) :
    (RoleClosure.absorb methods inner).find? s =
      (inner.methods.find? s).elim (methods.find? s) fun offered =>
        some (RoleClosure.addOffers ((methods.find? s).getD []) offered) := by
  unfold RoleClosure.absorb
  refine SignatureMap.foldl_lookup SignatureMap.find? _
    (fun held e => some (RoleClosure.addOffers (held.getD []) e.2)) ?_ _ _ _
  intro methods e s
  rw [SignatureMap.find?_insert]
  split_ifs with hs
  · rw [hs]
  · rfl

/-- Adding a closure of offers to gathered offers gathers them all. -/
theorem find?_absorb_present {methods : SignatureMap (List ClosureEntry)} {inner : RoleClosure}
    {s : Signature} {l l' : List ClosureEntry}
    (h : methods.find? s = present (firstMet ClosureEntry.origin l))
    (h' : inner.methods.find? s = present (firstMet ClosureEntry.origin l')) :
    (RoleClosure.absorb methods inner).find? s =
      present (firstMet ClosureEntry.origin (l ++ l')) := by
  rw [find?_absorb, h, h', getD_present]
  cases hl' : l' with
  | nil => rw [List.append_nil]; rfl
  | cons e rest =>
    rw [← hl']
    have hne : firstMet ClosureEntry.origin l' ≠ [] := by
      rw [Ne, firstMet_eq_nil, hl']
      exact List.cons_ne_nil _ _
    have hne' : firstMet ClosureEntry.origin (l ++ l') ≠ [] := by
      rw [Ne, firstMet_eq_nil, hl']
      simp
    rw [present_eq_some.2 ⟨hne, rfl⟩, present_eq_some.2 ⟨hne', rfl⟩]
    show some (RoleClosure.addOffers _ _) = _
    rw [RoleClosure.addOffers_eq, keepNew_firstMet, firstMet, firstMet, keepNew_append]

/-- Gathering several closures gathers what is below each of their roles. -/
theorem find?_foldl_absorb {s : Signature} {ids : List RoleId} {l : List ClosureEntry}
    {methods : SignatureMap (List ClosureEntry)}
    (h : methods.find? s = present (firstMet ClosureEntry.origin l))
    (hids : ∀ b ∈ ids, (reg.flatten n b).methods.find? s =
      present (firstMet ClosureEntry.origin (reg.offersBelow n s b))) :
    (ids.foldl (fun methods b => RoleClosure.absorb methods (reg.flatten n b)) methods).find? s =
      present (firstMet ClosureEntry.origin (l ++ ids.flatMap (reg.offersBelow n s))) := by
  induction ids generalizing methods l with
  | nil =>
    rw [List.flatMap_nil, List.append_nil]
    exact h
  | cons b ids ih =>
    rw [List.foldl_cons, List.flatMap_cons, ← List.append_assoc]
    refine ih ?_ fun c hc => hids c (List.mem_cons_of_mem _ hc)
    exact find?_absorb_present h (hids b List.mem_cons_self)

theorem find?_flatten (h : reg.ResolvesWithin n id) (s : Signature) :
    (reg.flatten n id).methods.find? s =
      present (firstMet ClosureEntry.origin (reg.offersBelow n s id)) := by
  induction n generalizing id with
  | zero => exact False.elim h
  | succ n ih =>
    obtain ⟨d, hd, hdeps⟩ := h
    have hown : (RoleClosure.ownMethods d).find? s =
        present (firstMet ClosureEntry.origin (reg.offer s id).toList) := by
      rw [find?_ownMethods hd]
      cases reg.offer s id <;> rfl
    rw [flatten_succ hd, find?_foldl_absorb hown fun b hb => ih (hdeps b hb)]
    congr 2
    unfold offersBelow
    rw [walk_succ hd, List.filterMap_cons, List.filterMap_flatMap]
    cases reg.offer s id <;> rfl

/-- What the closure of a role that resolves holds for a signature. -/
theorem find?_closureOf (h : reg.ResolvesWithin reg.size id) (s : Signature) :
    (reg.closureOf id).methods.find? s =
      present (firstMet ClosureEntry.origin (reg.offersBelow reg.size s id)) :=
  find?_flatten h s

end Registry

end RoleComposition
