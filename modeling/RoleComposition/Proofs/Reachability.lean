import Mathlib.Data.List.Chain
import Mathlib.Data.List.Perm.Subperm
import Mathlib.Logic.Relation
import RoleComposition.ResolutionOrder

/-!
# What roles reach

A role composes others, and by that it reaches them and all that they reach. Main statements:
`resolutionOrder_isOk` (roots resolve exactly if everything they reach is registered and lies on no
cycle), `mem_resolutionOrder` (the order then lists what they reach, and nothing else),
`resolvesWithin_of_reachedFrom` (no path down from there is longer than the registry) and
`hinders_of_resolutionOrder` (roots that do not resolve are hindered by what the error names).
-/

namespace RoleComposition.Registry

/-- A registered role lists another one among those that it composes. -/
def Composes (reg : Registry) (a b : RoleId) : Prop :=
  ∃ d, reg.lookup a = .ok d ∧ b ∈ d.composed

/-- A role reaches itself and what the roles it composes reach. -/
def Reaches (reg : Registry) : RoleId → RoleId → Prop :=
  Relation.ReflTransGen reg.Composes

/-- One of some roots reaches a role. -/
def ReachedFrom (reg : Registry) (roots : List RoleId) (b : RoleId) : Prop :=
  ∃ a ∈ roots, reg.Reaches a b

/-- A role composes itself, through other roles or directly. -/
def OnCycle (reg : Registry) (a : RoleId) : Prop :=
  Relation.TransGen reg.Composes a a

/-- A role is registered and so is everything below it, to at most so many levels. -/
def ResolvesWithin (reg : Registry) : Nat → RoleId → Prop
  | 0, _ => False
  | n + 1, id => ∃ d, reg.lookup id = .ok d ∧ ∀ b ∈ d.composed, reg.ResolvesWithin n b

/-- Definitions without repeats, each after the roles that it composes. -/
inductive Layered (reg : Registry) : List RoleDefinition → Prop
  | nil : Layered reg []
  | snoc {left : List RoleDefinition} {d : RoleDefinition} :
      Layered reg left → reg.lookup d.id = .ok d → (∀ r ∈ left, r.id ≠ d.id) →
      (∀ b ∈ d.composed, ∃ r ∈ left, r.id = b) → Layered reg (left ++ [d])

/-! ## Looking roles up -/

theorem lookup_eq_ok {reg : Registry} {id : RoleId} {d : RoleDefinition} :
    reg.lookup id = .ok d ↔ ∃ e, reg.find? id = some e ∧ e.definition = d := by
  unfold lookup
  cases reg.find? id with
  | none => simp
  | some e => simp

theorem id_of_lookup {reg : Registry} {id : RoleId} {d : RoleDefinition}
    (h : reg.lookup id = .ok d) : d.id = id := by
  obtain ⟨e, he, rfl⟩ := lookup_eq_ok.1 h
  simpa using List.find?_some he

theorem contains_iff {reg : Registry} {id : RoleId} :
    reg.contains id = true ↔ ∃ d, reg.lookup id = .ok d := by
  unfold contains lookup
  cases reg.find? id with
  | none => simp
  | some e => simp

theorem lookup_eq_error {reg : Registry} {id : RoleId} {error : CompositionError}
    (h : reg.lookup id = .error error) :
    error = .unknownRole id ∧ reg.contains id = false := by
  unfold lookup at h
  unfold contains
  cases hf : reg.find? id with
  | none =>
    rw [hf] at h
    cases h
    exact ⟨rfl, rfl⟩
  | some e =>
    rw [hf] at h
    cases h

theorem mem_ids_of_lookup {reg : Registry} {id : RoleId} {d : RoleDefinition}
    (h : reg.lookup id = .ok d) : id ∈ reg.ids := by
  obtain ⟨e, he, rfl⟩ := lookup_eq_ok.1 h
  have hid : e.definition.id = id := by simpa using List.find?_some he
  exact List.mem_map.2 ⟨e, List.mem_of_find?_eq_some he, hid⟩

theorem mem_ids {reg : Registry} {id : RoleId} : id ∈ reg.ids ↔ reg.contains id = true := by
  constructor
  · intro h
    obtain ⟨e, he, rfl⟩ := List.mem_map.1 h
    exact List.find?_isSome.2 ⟨e, he, by simp⟩
  · intro h
    obtain ⟨d, hd⟩ := contains_iff.1 h
    exact mem_ids_of_lookup hd

/-- A list of registered roles without repeats is no longer than the registry. -/
theorem length_le_size {reg : Registry} {path : List RoleId} (h : path.Nodup)
    (registered : ∀ id ∈ path, ∃ d, reg.lookup id = .ok d) : path.length ≤ reg.size := by
  have hsub : path ⊆ reg.ids := by
    intro id hid
    obtain ⟨d, hd⟩ := registered id hid
    exact mem_ids_of_lookup hd
  have hlen := (List.subperm_of_subset h hsub).length_le
  rwa [ids, List.length_map] at hlen

/-! ## Levels -/

theorem ResolvesWithin.mono {reg : Registry} {n m : Nat} {id : RoleId}
    (h : reg.ResolvesWithin n id) (hle : n ≤ m) : reg.ResolvesWithin m id := by
  induction n generalizing m id with
  | zero => exact False.elim h
  | succ n ih =>
    cases m with
    | zero => omega
    | succ m =>
      obtain ⟨d, hd, hb⟩ := h
      exact ⟨d, hd, fun b hmem => ih (hb b hmem) (by omega)⟩

theorem ResolvesWithin.composes {reg : Registry} {n : Nat} {a b : RoleId}
    (h : reg.ResolvesWithin (n + 1) a) (hab : reg.Composes a b) : reg.ResolvesWithin n b := by
  obtain ⟨d, hd, hb⟩ := h
  obtain ⟨d', hd', hmem⟩ := hab
  rw [hd] at hd'
  cases hd'
  exact hb b hmem

theorem ResolvesWithin.transGen {reg : Registry} {n : Nat} {a b : RoleId}
    (h : reg.ResolvesWithin (n + 1) a) (hab : Relation.TransGen reg.Composes a b) :
    reg.ResolvesWithin n b := by
  induction hab with
  | single hab => exact h.composes hab
  | tail _ hbc ih => exact (ih.mono (Nat.le_succ n)).composes hbc

theorem ResolvesWithin.reaches {reg : Registry} {n : Nat} {a b : RoleId}
    (h : reg.ResolvesWithin n a) (hab : reg.Reaches a b) : reg.ResolvesWithin n b := by
  cases n with
  | zero => exact False.elim h
  | succ n =>
    rcases Relation.reflTransGen_iff_eq_or_transGen.1 hab with rfl | hab
    · exact h
    · exact (h.transGen hab).mono (Nat.le_succ n)

theorem ResolvesWithin.registered {reg : Registry} {n : Nat} {id : RoleId}
    (h : reg.ResolvesWithin n id) : ∃ d, reg.lookup id = .ok d := by
  cases n with
  | zero => exact False.elim h
  | succ n =>
    obtain ⟨d, hd, -⟩ := h
    exact ⟨d, hd⟩

/-- Each turn of a cycle would take away a level. -/
theorem ResolvesWithin.not_onCycle {reg : Registry} {n : Nat} {id : RoleId}
    (h : reg.ResolvesWithin n id) : ¬ reg.OnCycle id := by
  intro hc
  induction n with
  | zero => exact h
  | succ n ih => exact ih (h.transGen hc)

/-! ## Layers -/

theorem Layered.lookup {reg : Registry} {left : List RoleDefinition} (h : reg.Layered left)
    {r : RoleDefinition} (hr : r ∈ left) : reg.lookup r.id = .ok r := by
  induction h with
  | nil => simp at hr
  | snoc _ hd _ _ ih =>
    rcases List.mem_append.1 hr with hr | hr
    · exact ih hr
    · rw [List.mem_singleton] at hr
      exact hr ▸ hd

theorem Layered.nodup {reg : Registry} {left : List RoleDefinition} (h : reg.Layered left) :
    (left.map RoleDefinition.id).Nodup := by
  induction h with
  | nil => exact List.nodup_nil
  | @snoc left d _ _ hne _ ih =>
    rw [List.map_append, List.nodup_append]
    refine ⟨ih, by simp, ?_⟩
    rintro _ ha _ hb rfl
    obtain ⟨r, hr, hrd⟩ := List.mem_map.1 ha
    rw [List.map_cons, List.map_nil, List.mem_singleton] at hb
    exact hne r hr (hrd.trans hb)

theorem Layered.length_le {reg : Registry} {left : List RoleDefinition} (h : reg.Layered left) :
    left.length ≤ reg.size := by
  rw [← List.length_map RoleDefinition.id]
  refine length_le_size h.nodup fun id hid => ?_
  obtain ⟨r, hr, rfl⟩ := List.mem_map.1 hid
  exact ⟨r, h.lookup hr⟩

theorem Layered.resolvesWithin {reg : Registry} {left : List RoleDefinition}
    (h : reg.Layered left) {r : RoleDefinition} (hr : r ∈ left) :
    reg.ResolvesWithin left.length r.id := by
  induction h generalizing r with
  | nil => simp at hr
  | @snoc left d _ hd _ hdeps ih =>
    rw [List.length_append]
    rcases List.mem_append.1 hr with hr | hr
    · exact (ih hr).mono (Nat.le_add_right _ _)
    · rw [List.mem_singleton] at hr
      subst hr
      refine ⟨r, hd, fun b hb => ?_⟩
      obtain ⟨q, hq, rfl⟩ := hdeps b hb
      exact ih hq

/-- What a listed role composes stands before it. -/
theorem Layered.before {reg : Registry} {left earlier later : List RoleDefinition}
    {r : RoleDefinition} (h : reg.Layered left) (hleft : left = earlier ++ r :: later) {b : RoleId}
    (hb : b ∈ r.composed) : ∃ q ∈ earlier, q.id = b := by
  induction h generalizing later with
  | nil => simp at hleft
  | @snoc left d _ _ _ hdeps ih =>
    -- the role is the last one of the list, or it stood in it before the last one came
    rcases List.eq_nil_or_concat later with rfl | ⟨later, d', rfl⟩
    · obtain ⟨rfl, hd⟩ := List.append_inj' hleft rfl
      cases hd
      exact hdeps b hb
    · rw [List.concat_eq_append, ← List.cons_append, ← List.append_assoc] at hleft
      exact ih (List.append_inj' hleft rfl).1

/-- What a listed role composes is listed. -/
theorem Layered.closed {reg : Registry} {left : List RoleDefinition} (h : reg.Layered left)
    {r : RoleDefinition} (hr : r ∈ left) {b : RoleId} (hb : b ∈ r.composed) :
    ∃ q ∈ left, q.id = b := by
  obtain ⟨earlier, later, rfl⟩ := List.append_of_mem hr
  obtain ⟨q, hq, hqb⟩ := h.before rfl hb
  exact ⟨q, List.mem_append_left _ hq, hqb⟩

theorem Layered.reaches {reg : Registry} {left : List RoleDefinition} (h : reg.Layered left)
    {a b : RoleId} (ha : ∃ r ∈ left, r.id = a) (hab : reg.Reaches a b) :
    ∃ r ∈ left, r.id = b := by
  induction hab with
  | refl => exact ha
  | tail _ hbc ih =>
    obtain ⟨r, hr, rfl⟩ := ih
    obtain ⟨d, hd, hmem⟩ := hbc
    rw [h.lookup hr] at hd
    cases hd
    exact h.closed hr hmem

/-! ## The walk -/

/-- What a walk through some roles along a path adds to the roles that it has left. -/
structure Walked (reg : Registry) (path ids : List RoleId) (left left' : List RoleDefinition) :
    Prop where
  layered : reg.Layered left'
  kept : ∀ r ∈ left, r ∈ left'
  met : ∀ id ∈ ids, ∃ r ∈ left', r.id = id
  added : ∀ r ∈ left', r ∈ left ∨ reg.ReachedFrom ids r.id ∧ r.id ∉ path

/-- A role that a list of roles reaches is unregistered or lies on a cycle, as an error says. -/
def Faulty (reg : Registry) (ids : List RoleId) (error : CompositionError) : Prop :=
  ∃ b, reg.ReachedFrom ids b ∧
    (reg.contains b = false ∧ error = .unknownRole b ∨
      reg.OnCycle b ∧ ∃ cycle, error = .roleCycle cycle)

/-- What stands in the way of resolving some roots, as an error names it: a role that is not
registered, and is a root or composed by a role which they reach; or different registered roles
which they reach, each of which composes the next one, and the last one the first. -/
inductive Hinders (reg : Registry) (roots : List RoleId) : CompositionError → Prop
  | unknown {b : RoleId} : reg.contains b = false →
      (b ∈ roots ∨ ∃ a, reg.ReachedFrom roots a ∧ reg.Composes a b) →
      Hinders reg roots (.unknownRole b)
  | cycle {a : RoleId} {others : List RoleId} : (a :: others).Nodup →
      (∀ c ∈ a :: others, reg.contains c = true ∧ reg.ReachedFrom roots c) →
      (a :: others ++ [a]).IsChain reg.Composes →
      Hinders reg roots (.roleCycle (a :: others ++ [a]))

theorem ReachedFrom.head {reg : Registry} {id b : RoleId} {d : RoleDefinition}
    (hd : reg.lookup id = .ok d) (h : reg.ReachedFrom d.composed b) :
    reg.ReachedFrom [id] b := by
  obtain ⟨a, ha, hab⟩ := h
  exact ⟨id, List.mem_singleton_self id, .head ⟨d, hd, ha⟩ hab⟩

theorem ReachedFrom.tail {reg : Registry} {roots : List RoleId} {a b : RoleId}
    (h : reg.ReachedFrom roots a) (hab : reg.Composes a b) : reg.ReachedFrom roots b := by
  obtain ⟨root, hroot, hreach⟩ := h
  exact ⟨root, hroot, hreach.tail hab⟩

theorem reachedFrom_singleton {reg : Registry} {id b : RoleId} :
    reg.ReachedFrom [id] b ↔ reg.Reaches id b := by
  simp [ReachedFrom]

/-- What a walk that comes back has done: nothing where it has been before, and else it has walked
through what the role composes, and left the role. -/
theorem visit_eq_ok {reg : Registry} {depth : Nat} {path : List RoleId} {id : RoleId}
    {left left' : List RoleDefinition} (h : reg.visit depth path left id = .ok left') :
    (∃ r ∈ left, r.id = id) ∧ left' = left ∨
      (∀ r ∈ left, r.id ≠ id) ∧ id ∉ path ∧ ∃ depth₁ d left₁, depth = depth₁ + 1 ∧
        reg.lookup id = .ok d ∧
        d.composed.foldlM (reg.visit depth₁ (path ++ [id])) left = .ok left₁ ∧
        left' = left₁ ++ [d] := by
  unfold visit at h
  split_ifs at h with hleft hpath
  · cases h
    exact .inl ⟨by simpa using hleft, rfl⟩
  · refine .inr ⟨by simpa using hleft, by simpa using hpath, ?_⟩
    cases hd : reg.lookup id with
    | error error =>
      rw [hd] at h
      cases h
    | ok d =>
      rw [hd] at h
      cases depth with
      | zero => cases h
      | succ depth =>
        cases hf : d.composed.foldlM (reg.visit depth (path ++ [id])) left with
        | error error =>
          simp only [bind, Except.bind, hf] at h
          cases h
        | ok left₁ =>
          simp only [bind, Except.bind, hf] at h
          cases h
          exact ⟨depth, d, left₁, rfl, rfl, hf, rfl⟩

/-- Why a walk fails: at a role that it is already in, at one that is not registered, or, unless it
has come too deep, further down. -/
theorem visit_eq_error {reg : Registry} {depth : Nat} {path : List RoleId} {id : RoleId}
    {left : List RoleDefinition} {error : CompositionError}
    (h : reg.visit depth path left id = .error error) :
    id ∈ path ∧ error = .roleCycle (cycleAt path id) ∨
      id ∉ path ∧ reg.lookup id = .error error ∨
      id ∉ path ∧ ∃ d, reg.lookup id = .ok d ∧ ∀ depth₁, depth = depth₁ + 1 →
        d.composed.foldlM (reg.visit depth₁ (path ++ [id])) left = .error error := by
  unfold visit at h
  split_ifs at h with hleft hpath
  · cases h
    exact .inl ⟨by simpa using hpath, rfl⟩
  · refine .inr ?_
    have hnew : id ∉ path := by simpa using hpath
    cases hd : reg.lookup id with
    | error error' =>
      rw [hd] at h
      cases h
      exact .inl ⟨hnew, rfl⟩
    | ok d =>
      refine .inr ⟨hnew, d, rfl, ?_⟩
      rintro depth₁ rfl
      rw [hd] at h
      cases hf : d.composed.foldlM (reg.visit depth₁ (path ++ [id])) left with
      | error error' =>
        simp only [bind, Except.bind, hf] at h
        exact h
      | ok left₁ =>
        simp only [bind, Except.bind, hf] at h
        cases h

/-- A walk through several roles is a walk through each of them in turn. -/
theorem walked_foldlM {reg : Registry} {depth : Nat} {path ids : List RoleId}
    (step : ∀ id left left', reg.visit depth path left id = .ok left' → reg.Layered left →
      reg.Walked path [id] left left')
    {left left' : List RoleDefinition} (h : ids.foldlM (reg.visit depth path) left = .ok left')
    (hl : reg.Layered left) : reg.Walked path ids left left' := by
  induction ids generalizing left with
  | nil =>
    cases h
    exact ⟨hl, fun _ hr => hr, by simp, fun _ hr => .inl hr⟩
  | cons id ids ih =>
    rw [List.foldlM_cons] at h
    cases hv : reg.visit depth path left id with
    | error error =>
      rw [hv] at h
      cases h
    | ok left₁ =>
      rw [hv] at h
      -- what the first walk has left stays left, so its claims outlast the walks that follow
      have w := step id left left₁ hv hl
      have w' := ih h w.layered
      refine ⟨w'.layered, fun r hr => w'.kept r (w.kept r hr), ?_, ?_⟩
      · intro b hb
        rcases List.mem_cons.1 hb with rfl | hb
        · obtain ⟨r, hr, hrb⟩ := w.met b (List.mem_singleton_self b)
          exact ⟨r, w'.kept r hr, hrb⟩
        · exact w'.met b hb
      · intro r hr
        rcases w'.added r hr with hr | ⟨⟨a, ha, hab⟩, hpath⟩
        · rcases w.added r hr with hr | ⟨⟨a, ha, hab⟩, hpath⟩
          · exact .inl hr
          · rw [List.mem_singleton] at ha
            exact .inr ⟨⟨a, ha ▸ List.mem_cons_self, hab⟩, hpath⟩
        · exact .inr ⟨⟨a, List.mem_cons_of_mem _ ha, hab⟩, hpath⟩

/-- Leaving a role after a walk through what it composes. -/
theorem Walked.snoc {reg : Registry} {path : List RoleId} {id : RoleId} {d : RoleDefinition}
    {left left' : List RoleDefinition} (hd : reg.lookup id = .ok d) (hpath : id ∉ path)
    (hleft : ∀ r ∈ left, r.id ≠ id) (w : reg.Walked (path ++ [id]) d.composed left left') :
    reg.Walked path [id] left (left' ++ [d]) := by
  have hid : d.id = id := id_of_lookup hd
  -- a dependency that were the role itself would lie on the path of the walk
  have hnew : ∀ r ∈ left', r.id ≠ d.id := by
    intro r hr hrd
    rcases w.added r hr with hr | ⟨-, hpath'⟩
    · exact hleft r hr (hrd.trans hid)
    · exact hpath' (by simp [hrd, hid])
  refine ⟨.snoc w.layered (hid ▸ hd) hnew w.met, ?_, ?_, ?_⟩
  · exact fun r hr => List.mem_append_left _ (w.kept r hr)
  · intro b hb
    rw [List.mem_singleton] at hb
    exact ⟨d, by simp, hid.trans hb.symm⟩
  · intro r hr
    rcases List.mem_append.1 hr with hr | hr
    · rcases w.added r hr with hr | ⟨hreach, hpath'⟩
      · exact .inl hr
      · exact .inr ⟨hreach.head hd, fun hr => hpath' (List.mem_append_left _ hr)⟩
    · rw [List.mem_singleton.1 hr, hid]
      exact .inr ⟨reachedFrom_singleton.2 .refl, hpath⟩

/-- A walk that comes back has left the role and all below it, in layers. -/
theorem walked_visit {reg : Registry} (depth : Nat) (path : List RoleId) (id : RoleId)
    (left left' : List RoleDefinition) (h : reg.visit depth path left id = .ok left')
    (hl : reg.Layered left) : reg.Walked path [id] left left' := by
  induction depth generalizing path id left left' with
  | zero =>
    obtain ⟨hmet, rfl⟩ | ⟨-, -, depth₁, -, -, hdepth, -⟩ := visit_eq_ok h
    · exact ⟨hl, fun _ hr => hr, by simpa using hmet, fun _ hr => .inl hr⟩
    · cases hdepth
  | succ depth ih =>
    obtain ⟨hmet, rfl⟩ | ⟨hleft, hpath, depth₁, d, left₁, hdepth, hd, hf, rfl⟩ := visit_eq_ok h
    · exact ⟨hl, fun _ hr => hr, by simpa using hmet, fun _ hr => .inl hr⟩
    · cases hdepth
      exact .snoc hd hpath hleft (walked_foldlM (fun b l l' => ih (path ++ [id]) b l l') hf hl)

/-- A path that is closed by its first role is a cycle. -/
theorem transGen_of_isChain {reg : Registry} {a b : RoleId} {l : List RoleId}
    (h : (a :: (l ++ [b])).IsChain reg.Composes) : Relation.TransGen reg.Composes a b := by
  induction l generalizing a with
  | nil => exact .single (List.isChain_cons_cons.1 h).1
  | cons c l ih =>
    obtain ⟨hac, hc⟩ := List.isChain_cons_cons.1 h
    exact .head hac (ih hc)

/-- A path on which a walk can stand when it asks for a role. -/
structure PathTo (reg : Registry) (path : List RoleId) (id : RoleId) : Prop where
  nodup : path.Nodup
  registered : ∀ a ∈ path, ∃ d, reg.lookup a = .ok d
  linked : (path ++ [id]).IsChain reg.Composes

theorem PathTo.snoc {reg : Registry} {path : List RoleId} {id b : RoleId} {d : RoleDefinition}
    (h : reg.PathTo path id) (hid : id ∉ path) (hd : reg.lookup id = .ok d)
    (hb : b ∈ d.composed) : reg.PathTo (path ++ [id]) b := by
  refine ⟨?_, ?_, ?_⟩
  · rw [List.nodup_append]
    refine ⟨h.nodup, by simp, ?_⟩
    rintro a ha a' ha' rfl
    rw [List.mem_singleton] at ha'
    exact hid (ha' ▸ ha)
  · intro a ha
    rcases List.mem_append.1 ha with ha | ha
    · exact h.registered a ha
    · rw [List.mem_singleton] at ha
      exact ⟨d, ha ▸ hd⟩
  · rw [List.append_assoc, List.singleton_append, List.isChain_append_cons_cons]
    exact ⟨h.linked, ⟨d, hd, hb⟩, by simp⟩

/-- There are more roles than a path has that asks for a new one. -/
theorem PathTo.length_lt {reg : Registry} {path : List RoleId} {id : RoleId} {d : RoleDefinition}
    (h : reg.PathTo path id) (hid : id ∉ path) (hd : reg.lookup id = .ok d) :
    path.length < reg.size := by
  have hnodup : (id :: path).Nodup := List.nodup_cons.2 ⟨hid, h.nodup⟩
  refine length_le_size hnodup fun a ha => ?_
  rcases List.mem_cons.1 ha with rfl | ha
  · exact ⟨d, hd⟩
  · exact h.registered a ha

/-- A walk through several roles that fails has failed at one of them. -/
theorem exists_error_of_foldlM {reg : Registry} {depth : Nat} {path ids : List RoleId}
    {left : List RoleDefinition} {error : CompositionError}
    (h : ids.foldlM (reg.visit depth path) left = .error error) :
    ∃ id ∈ ids, ∃ left₁, reg.visit depth path left₁ id = .error error := by
  induction ids generalizing left with
  | nil => cases h
  | cons id ids ih =>
    rw [List.foldlM_cons] at h
    cases hv : reg.visit depth path left id with
    | error _ =>
      rw [hv] at h
      cases h
      exact ⟨id, List.mem_cons_self, left, hv⟩
    | ok left₁ =>
      rw [hv] at h
      obtain ⟨b, hb, left₂, hv'⟩ := ih h
      exact ⟨b, List.mem_cons_of_mem _ hb, left₂, hv'⟩

/-- A path on which a walk from some roots can stand when it asks for a role: what is asked for is a
root, or the walk has come to it through a role that it has reached. -/
structure PathFrom (reg : Registry) (roots path : List RoleId) (id : RoleId) : Prop
    extends reg.PathTo path id where
  reached : ∀ a ∈ path, reg.ReachedFrom roots a
  asked : id ∈ roots ∨ ∃ a, reg.ReachedFrom roots a ∧ reg.Composes a id

namespace PathFrom

variable {reg : Registry} {roots path : List RoleId} {id : RoleId}

theorem reachedFrom (h : reg.PathFrom roots path id) : reg.ReachedFrom roots id := by
  rcases h.asked with hroot | ⟨a, ha, hid⟩
  · exact ⟨id, hroot, .refl⟩
  · exact ha.tail hid

theorem snoc {b : RoleId} {d : RoleDefinition} (h : reg.PathFrom roots path id) (hid : id ∉ path)
    (hd : reg.lookup id = .ok d) (hb : b ∈ d.composed) :
    reg.PathFrom roots (path ++ [id]) b where
  toPathTo := h.toPathTo.snoc hid hd hb
  reached := List.forall_mem_append.2 ⟨h.reached, List.forall_mem_singleton.2 h.reachedFrom⟩
  asked := .inr ⟨id, h.reachedFrom, d, hd, hb⟩

/-- The part of the path from a role on that is met again is a cycle. -/
theorem hinders_cycleAt (h : reg.PathFrom roots path id) (hid : id ∈ path) :
    reg.Hinders roots (.roleCycle (cycleAt path id)) := by
  obtain ⟨before, others, rfl⟩ := List.append_of_mem hid
  obtain ⟨-, hnodup, hdisjoint⟩ := List.nodup_append.1 h.nodup
  have hcycle : cycleAt (before ++ id :: others) id = id :: others ++ [id] := by
    unfold cycleAt
    rw [List.dropWhile_append_of_pos, List.dropWhile_cons_of_neg (by simp)]
    exact fun a ha => by simpa using hdisjoint a ha id List.mem_cons_self
  have hlinked := h.linked
  rw [List.append_assoc, List.cons_append] at hlinked
  rw [hcycle]
  refine .cycle hnodup (fun c hc => ?_) (List.isChain_split.1 hlinked).2
  have hpath : c ∈ before ++ id :: others := List.mem_append_right _ hc
  exact ⟨contains_iff.2 (h.registered c hpath), h.reached c hpath⟩

theorem hinders_of_lookup {error : CompositionError} (h : reg.PathFrom roots path id)
    (hd : reg.lookup id = .error error) : reg.Hinders roots error := by
  obtain ⟨rfl, habsent⟩ := lookup_eq_error hd
  exact .unknown habsent h.asked

end PathFrom

/-- A walk that fails names what hinders it: the bound on its depth is nothing of the kind, since
no path is longer than the registry. -/
theorem hinders_of_visit {reg : Registry} {depth : Nat} {roots path : List RoleId} {id : RoleId}
    {left : List RoleDefinition} {error : CompositionError}
    (h : reg.visit depth path left id = .error error) (hp : reg.PathFrom roots path id)
    (hdepth : reg.size ≤ path.length + depth) : reg.Hinders roots error := by
  induction depth generalizing path id left with
  | zero =>
    obtain ⟨hpath, rfl⟩ | ⟨-, hd⟩ | ⟨hnew, d, hd, -⟩ := visit_eq_error h
    · exact hp.hinders_cycleAt hpath
    · exact hp.hinders_of_lookup hd
    -- the role and its path would be more roles than there are
    · have hlen := hp.length_lt hnew hd
      omega
  | succ depth ih =>
    obtain ⟨hpath, rfl⟩ | ⟨-, hd⟩ | ⟨hnew, d, hd, hf⟩ := visit_eq_error h
    · exact hp.hinders_cycleAt hpath
    · exact hp.hinders_of_lookup hd
    · obtain ⟨b, hb, left₁, hv⟩ := exists_error_of_foldlM (hf depth rfl)
      refine ih hv (hp.snoc hnew hd hb) ?_
      rw [List.length_append, List.length_singleton]
      omega

theorem Hinders.faulty {reg : Registry} {roots : List RoleId} {error : CompositionError}
    (h : reg.Hinders roots error) : reg.Faulty roots error := by
  cases h with
  | @unknown b habsent hnamed =>
    refine ⟨b, ?_, .inl ⟨habsent, rfl⟩⟩
    rcases hnamed with hroot | ⟨a, ha, hb⟩
    · exact ⟨b, hroot, .refl⟩
    · exact ha.tail hb
  | @cycle a others _ hmembers hlinked =>
    refine ⟨a, (hmembers a List.mem_cons_self).2, .inr ⟨?_, _, rfl⟩⟩
    exact transGen_of_isChain hlinked

/-! ## Resolution orders -/

theorem walked_of_resolutionOrder {reg : Registry} {roots : List RoleId}
    {order : List RoleDefinition} (h : reg.resolutionOrder roots = .ok order) :
    reg.Walked [] roots [] order :=
  walked_foldlM (fun id l l' => walked_visit reg.size [] id l l') h .nil

/-- The order lists exactly what the roots reach. -/
theorem mem_resolutionOrder {reg : Registry} {roots : List RoleId} {order : List RoleDefinition}
    (h : reg.resolutionOrder roots = .ok order) {r : RoleDefinition} :
    r ∈ order ↔ reg.ReachedFrom roots r.id ∧ reg.lookup r.id = .ok r := by
  have w := walked_of_resolutionOrder h
  constructor
  · intro hr
    rcases w.added r hr with hr' | ⟨hreach, -⟩
    · simp at hr'
    · exact ⟨hreach, w.layered.lookup hr⟩
  · rintro ⟨⟨a, ha, hab⟩, hlookup⟩
    obtain ⟨q, hq, hid⟩ := w.layered.reaches (w.met a ha) hab
    have hql := w.layered.lookup hq
    rw [hid, hlookup] at hql
    cases hql
    exact hq

/-- What the roots of an order reach is registered down to the last level. -/
theorem resolvesWithin_of_reachedFrom {reg : Registry} {roots : List RoleId}
    {order : List RoleDefinition} (h : reg.resolutionOrder roots = .ok order) {b : RoleId}
    (hb : reg.ReachedFrom roots b) : reg.ResolvesWithin reg.size b := by
  have w := walked_of_resolutionOrder h
  obtain ⟨a, ha, hab⟩ := hb
  obtain ⟨r, hr, rfl⟩ := w.layered.reaches (w.met a ha) hab
  exact (w.layered.resolvesWithin hr).mono w.layered.length_le

/-- An order that does not come about is hindered by what its error names. -/
theorem hinders_of_resolutionOrder {reg : Registry} {roots : List RoleId}
    {error : CompositionError} (h : reg.resolutionOrder roots = .error error) :
    reg.Hinders roots error := by
  obtain ⟨a, ha, left, hv⟩ := exists_error_of_foldlM h
  exact hinders_of_visit hv ⟨⟨List.nodup_nil, by simp, by simp⟩, by simp, .inl ha⟩ (by simp)

/-- An order that does not come about has a reason. -/
theorem faulty_of_resolutionOrder {reg : Registry} {roots : List RoleId}
    {error : CompositionError} (h : reg.resolutionOrder roots = .error error) :
    reg.Faulty roots error :=
  (hinders_of_resolutionOrder h).faulty

/-- Roots resolve exactly if everything they reach is registered and lies on no cycle. -/
theorem resolutionOrder_isOk {reg : Registry} {roots : List RoleId} :
    (∃ order, reg.resolutionOrder roots = .ok order) ↔
      (∀ b, reg.ReachedFrom roots b → reg.contains b = true) ∧
        ∀ b, reg.ReachedFrom roots b → ¬ reg.OnCycle b := by
  constructor
  · rintro ⟨order, h⟩
    refine ⟨fun b hb => ?_, fun b hb => ?_⟩
    · exact contains_iff.2 (resolvesWithin_of_reachedFrom h hb).registered
    · exact (resolvesWithin_of_reachedFrom h hb).not_onCycle
  · rintro ⟨registered, acyclic⟩
    cases h : reg.resolutionOrder roots with
    | ok order => exact ⟨order, rfl⟩
    | error error =>
      obtain ⟨b, hb, ⟨habsent, -⟩ | ⟨hcycle, -⟩⟩ := faulty_of_resolutionOrder h
      · rw [registered b hb] at habsent
        cases habsent
      · exact absurd hcycle (acyclic b hb)

end RoleComposition.Registry
