import Mathlib.Algebra.GroupWithZero.Nat
import Mathlib.Algebra.Order.BigOperators.Group.List
import Mathlib.Algebra.Order.Group.Nat
import Mathlib.Data.Finset.Dedup
import Mathlib.Data.Finset.Lattice.Lemmas
import Mathlib.Logic.Function.Iterate
import RoleComposition.Proofs.Reachability

/-!
# Walks step by step

A walk in depth asks for one role after the other: for the roots, and, in each role that it enters,
for those that the role composes, until it leaves the role. Here it goes step by step and nothing
bounds its depth, so that each moment can be looked at when it asks for a role. Whatever the
registry, the path has no repeats and no role is entered twice; so the walk ends, and what it ends
with is `resolutionOrder`. Main statement: `walk_of_roots`.
-/

namespace RoleComposition

/-- A role that a walk has entered and not left, with what was left then of the list in which the
walk came to it. -/
structure Stay where
  id : RoleId
  role : RoleDefinition
  outer : List RoleId

/-- Where a walk stands: what is left of the list that it goes through, the roles that it is in, the
innermost first, the path to there, and the roles that it has left, as a set and in order. -/
structure Walk where
  rest : List RoleId
  stays : List Stay := []
  path : List RoleId := []
  done : Finset RoleId := ∅
  order : List RoleDefinition := []

/-- A walk that goes on, or what it has ended with. -/
inductive WalkState where
  | going (w : Walk)
  | ended (result : Except CompositionError (List RoleDefinition))

namespace Walk

/-- Enters a role, to go through what it composes. -/
def enter (w : Walk) (id : RoleId) (d : RoleDefinition) : Walk :=
  { w with
    rest := d.composed
    stays := ⟨id, d, w.rest⟩ :: w.stays
    path := w.path ++ [id] }

/-- Leaves the innermost role, to go on in the list in which it stood. -/
def leave (w : Walk) (s : Stay) (stays : List Stay) : Walk :=
  { rest := s.outer
    stays
    path := w.path.dropLast
    done := insert s.id w.done
    order := w.order ++ [s.role] }

/-- Asks for a role: one that has been left is passed over, and one that the walk is in closes a
cycle. -/
def visit (reg : Registry) (w : Walk) (id : RoleId) : WalkState :=
  if id ∈ w.done then .going w
  else if id ∈ w.path then .ended (.error (.roleCycle (Registry.cycleAt w.path id)))
  else
    match reg.lookup id with
    | .error error => .ended (.error error)
    | .ok d => .going (w.enter id d)

/-- Asks for the next role of the list; at its end, leaves the role that it belongs to. -/
def step (reg : Registry) (w : Walk) : WalkState :=
  match w.rest with
  | id :: rest => visit reg { w with rest } id
  | [] =>
    match w.stays with
    | s :: stays => .going (w.leave s stays)
    | [] => .ended (.ok w.order)

/-- The requests that stand within each other when the walk asks for a role: that one, and those for
the roles that it is in. -/
def nesting (w : Walk) : Nat := w.stays.length + 1

/-- The roles that the walk has entered, those among them that it has left included. -/
def met (w : Walk) : Finset RoleId := w.done ∪ w.path.toFinset

/-- What a walk does that goes on. -/
inductive Goes (reg : Registry) : Walk → Walk → Prop
  | pass {w : Walk} {id : RoleId} {rest : List RoleId} :
      w.rest = id :: rest → id ∈ w.done → Goes reg w { w with rest }
  | enter {w : Walk} {id : RoleId} {rest : List RoleId} {d : RoleDefinition} :
      w.rest = id :: rest → id ∉ w.met → reg.lookup id = .ok d →
      Goes reg w (enter { w with rest } id d)
  | leave {w : Walk} {s : Stay} {stays : List Stay} :
      w.rest = [] → w.stays = s :: stays → Goes reg w (w.leave s stays)

/-- The roles that a walk is in are registered, and each list that it goes through is part of what
the innermost role composes, down to the list of the roots. -/
inductive Nested (reg : Registry) : List RoleId → List Stay → Prop
  | roots {rest : List RoleId} : Nested reg rest []
  | within {rest : List RoleId} {s : Stay} {stays : List Stay} :
      reg.lookup s.id = .ok s.role → (∀ b ∈ rest, b ∈ s.role.composed) →
      Nested reg (s.id :: s.outer) stays → Nested reg rest (s :: stays)

/-- What holds of a walk wherever it stands. -/
structure Sound (reg : Registry) (w : Walk) : Prop where
  path_eq : w.path = (w.stays.map Stay.id).reverse
  nested : Nested reg w.rest w.stays
  nodup : w.path.Nodup
  apart : ∀ a ∈ w.path, a ∉ w.done

end Walk

/-- A step for each role that is composed by one that has not been met, and one for leaving that
one. -/
def Registry.pending (reg : Registry) (met : Finset RoleId) : Nat :=
  ((reg.entries.filter fun e => e.definition.id ∉ met).map fun e =>
    e.definition.composed.length + 1).sum

/-- The steps that a walk has before it at the most, without the last one: those in the lists that
it goes through, and those in the roles that it has not met. -/
def Walk.cost (reg : Registry) (w : Walk) : Nat :=
  w.rest.length + (w.stays.map fun s => s.outer.length + 1).sum + reg.pending w.met

namespace WalkState

/-- The next state; a walk that has ended stays where it is. -/
def step (reg : Registry) : WalkState → WalkState
  | going w => w.step reg
  | ended result => ended result

/-- A state is come to, in any number of steps. -/
def Reaches (reg : Registry) (x y : WalkState) : Prop := ∃ n, Nat.iterate (step reg) n x = y

/-- The next step enters a role, so that the walk goes through what the role composes. -/
inductive Enters (reg : Registry) : WalkState → RoleId → Prop
  | intro {w : Walk} {id : RoleId} {rest : List RoleId} {d : RoleDefinition} :
      w.rest = id :: rest → w.step reg = .going (Walk.enter { w with rest } id d) →
      Enters reg (.going w) id

end WalkState

namespace Registry

/-- Where the walk from some roots has come to after so many steps. -/
def walkAt (reg : Registry) (roots : List RoleId) (n : Nat) : WalkState :=
  Nat.iterate (WalkState.step reg) n (.going { rest := roots })

/-- A step for each root, for each role that some role composes, for each role that is left, and for
the end. -/
def stepsFrom (reg : Registry) (roots : List RoleId) : Nat :=
  roots.length + (reg.entries.map fun e => e.definition.composed.length + 1).sum + 1

end Registry

variable {reg : Registry} {w w' : Walk} {id : RoleId} {rest : List RoleId} {stays : List Stay}

/-! ## One step -/

namespace Walk

theorem mem_met : id ∈ w.met ↔ id ∈ w.done ∨ id ∈ w.path := by
  rw [met, Finset.mem_union, List.mem_toFinset]

/-- A role that has been left is passed over, one that is new is entered, and nothing else lets a
walk go on. -/
theorem visit_eq_going (h : visit reg w id = .going w') :
    id ∈ w.done ∧ w' = w ∨ id ∉ w.met ∧ ∃ d, reg.lookup id = .ok d ∧ w' = w.enter id d := by
  unfold visit at h
  split_ifs at h with hdone hpath
  · cases h
    exact .inl ⟨hdone, rfl⟩
  · refine .inr ⟨mem_met.not.2 (not_or.2 ⟨hdone, hpath⟩), ?_⟩
    cases hd : reg.lookup id with
    | error error =>
      rw [hd] at h
      cases h
    | ok d =>
      rw [hd] at h
      cases h
      exact ⟨d, rfl, rfl⟩

/-- A role is entered only if it has not been met. -/
theorem notMem_met_of_enter {d : RoleDefinition} (hrest : w.rest = id :: rest)
    (h : w.step reg = .going (enter { w with rest } id d)) : id ∉ w.met := by
  unfold step at h
  simp only [hrest] at h
  obtain ⟨-, hself⟩ | ⟨hmet, -⟩ := visit_eq_going h
  · have hpath : w.path ++ [id] = w.path := congrArg path hself
    simp at hpath
  · exact hmet

theorem goes_of_step (h : w.step reg = .going w') : Goes reg w w' := by
  unfold step at h
  cases hrest : w.rest with
  | cons id rest =>
    simp only [hrest] at h
    obtain ⟨hdone, rfl⟩ | ⟨hmet, d, hd, rfl⟩ := visit_eq_going h
    · exact .pass hrest hdone
    · exact .enter hrest hmet hd
  | nil =>
    simp only [hrest] at h
    cases hstays : w.stays with
    | cons s stays =>
      simp only [hstays] at h
      cases h
      exact .leave hrest hstays
    | nil =>
      simp only [hstays] at h
      cases h

/-- What the walk asks for is linked to the roles that it is in. -/
theorem Nested.isChain (h : Nested reg rest stays) (hid : id ∈ rest) :
    ((stays.map Stay.id).reverse ++ [id]).IsChain reg.Composes := by
  induction h generalizing id with
  | roots => exact List.isChain_singleton id
  | @within rest s stays hd hsub _ ih =>
    have hpath : ((stays.map Stay.id).reverse ++ [s.id]).IsChain reg.Composes :=
      ih List.mem_cons_self
    rw [List.map_cons, List.reverse_cons, List.append_assoc, List.singleton_append,
      List.isChain_append_cons_cons]
    exact ⟨hpath, ⟨s.role, hd, hsub id hid⟩, List.isChain_singleton id⟩

theorem Nested.registered (h : Nested reg rest stays) :
    ∀ s ∈ stays, reg.lookup s.id = .ok s.role := by
  induction h with
  | roots => exact List.forall_mem_nil _
  | within hd _ _ ih => exact List.forall_mem_cons.2 ⟨hd, ih⟩

theorem Nested.mono {rest' : List RoleId} (h : Nested reg rest stays)
    (hsub : ∀ b ∈ rest', b ∈ rest) : Nested reg rest' stays := by
  cases h with
  | roots => exact .roots
  | within hd hsub' hn => exact .within hd (fun b hb => hsub' b (hsub b hb)) hn

namespace Sound

theorem pathTo (h : w.Sound reg) (hid : id ∈ w.rest) : reg.PathTo w.path id := by
  refine ⟨h.nodup, fun a ha => ?_, ?_⟩
  · rw [h.path_eq, List.mem_reverse] at ha
    obtain ⟨s, hs, rfl⟩ := List.mem_map.1 ha
    exact ⟨s.role, h.nested.registered s hs⟩
  · rw [h.path_eq]
    exact h.nested.isChain hid

theorem length_path (h : w.Sound reg) : w.path.length = w.stays.length := by
  rw [h.path_eq, List.length_reverse, List.length_map]

/-- The innermost role is the last one of the path. -/
theorem path_eq_append {s : Stay} (h : w.Sound reg) (hstays : w.stays = s :: stays) :
    w.path = (stays.map Stay.id).reverse ++ [s.id] := by
  rw [h.path_eq, hstays, List.map_cons, List.reverse_cons]

/-- Leaving a role, the walk has met those that it had met before. -/
theorem met_leave {s : Stay} (h : w.Sound reg) (hstays : w.stays = s :: stays) :
    (w.leave s stays).met = w.met := by
  ext a
  rw [mem_met, mem_met, leave, h.path_eq_append hstays, List.dropLast_concat, List.mem_append,
    List.mem_singleton, Finset.mem_insert]
  tauto

/-- What has been met stays so. -/
theorem met_subset (h : w.Sound reg) (hgoes : Goes reg w w') : w.met ⊆ w'.met := by
  cases hgoes with
  | pass _ _ => exact Finset.Subset.refl _
  | @enter id rest d _ _ _ =>
    intro a ha
    exact mem_met.2 ((mem_met.1 ha).imp_right (List.mem_append_left _))
  | leave _ hstays => exact (h.met_leave hstays).ge

/-- No step breaks what holds of a walk. -/
theorem goes (h : w.Sound reg) (hgoes : Goes reg w w') : w'.Sound reg := by
  cases hgoes with
  | @pass id rest hrest _ =>
    exact ⟨h.path_eq, h.nested.mono fun b hb => hrest ▸ List.mem_cons_of_mem _ hb, h.nodup, h.apart⟩
  | @enter id rest d hrest hnew hd =>
    obtain ⟨hdone, hpath⟩ := not_or.1 (mem_met.not.1 hnew)
    refine ⟨?_, .within hd (fun _ hb => hb) (hrest ▸ h.nested), ?_, ?_⟩
    · show w.path ++ [id] = (id :: w.stays.map Stay.id).reverse
      rw [List.reverse_cons, ← h.path_eq]
    · exact h.nodup.append (List.nodup_singleton _) (List.disjoint_singleton.2 hpath)
    · exact List.forall_mem_append.2 ⟨h.apart, List.forall_mem_singleton.2 hdone⟩
  | @leave s stays hrest hstays =>
    have hpath := h.path_eq_append hstays
    have hleft : (w.leave s stays).path = (stays.map Stay.id).reverse := by
      rw [leave, hpath, List.dropLast_concat]
    obtain ⟨hnodup, -, hlast⟩ := List.nodup_append.1 (hpath ▸ h.nodup)
    refine ⟨hleft, ?_, hleft ▸ hnodup, fun a ha => ?_⟩
    · have hnested := h.nested
      rw [hstays] at hnested
      cases hnested with
      | within _ _ hn => exact hn.mono fun b hb => List.mem_cons_of_mem _ hb
    · rw [hleft] at ha
      have hne : a ≠ s.id := hlast a ha s.id (List.mem_singleton_self _)
      have hopen : a ∉ w.done := h.apart a (hpath ▸ List.mem_append_left _ ha)
      show a ∉ insert s.id w.done
      rw [Finset.mem_insert]
      exact not_or.2 ⟨hne, hopen⟩

end Sound

/-! ## The steps that are left -/

/-- A part that lacks an element comes to a sum without it. -/
theorem sum_filter_add_le {α : Type} {l : List α} {p q : α → Bool} {f : α → Nat} {a : α}
    (ha : a ∈ l) (hp : p a = true) (hq : q a = false) (hqp : ∀ b, q b = true → p b = true) :
    ((l.filter q).map f).sum + f a ≤ ((l.filter p).map f).sum := by
  obtain ⟨before, after, rfl⟩ := List.append_of_mem ha
  have hle (l : List α) : ((l.filter q).map f).sum ≤ ((l.filter p).map f).sum :=
    ((List.monotone_filter_right l hqp).map f).sum_le_sum fun _ _ => Nat.zero_le _
  have hbefore := hle before
  have hafter := hle after
  rw [List.filter_append, List.filter_append, List.filter_cons_of_pos hp,
    List.filter_cons_of_neg (by simp [hq])]
  simp only [List.map_append, List.map_cons, List.sum_append, List.sum_cons]
  omega

theorem pending_insert {met : Finset RoleId} {d : RoleDefinition} (hd : reg.lookup id = .ok d)
    (hnew : id ∉ met) :
    reg.pending (insert id met) + (d.composed.length + 1) ≤ reg.pending met := by
  obtain ⟨e, he, rfl⟩ := Registry.lookup_eq_ok.1 hd
  have hid : e.definition.id = id := Registry.id_of_lookup hd
  refine sum_filter_add_le (List.mem_of_find?_eq_some he) ?_ ?_ fun b hb => ?_
  · rw [hid]
    exact decide_eq_true hnew
  · rw [hid]
    exact decide_eq_false (not_not.2 (Finset.mem_insert_self id met))
  · exact decide_eq_true fun hmem => of_decide_eq_true hb (Finset.mem_insert_of_mem hmem)

/-- Each step takes one from the steps that are left. -/
theorem Sound.cost_lt (h : w.Sound reg) (hgoes : Goes reg w w') : w'.cost reg < w.cost reg := by
  unfold cost
  cases hgoes with
  | @pass id rest hrest _ =>
    have hmet : ({ w with rest } : Walk).met = w.met := rfl
    simp only [hrest, hmet, List.length_cons]
    omega
  | @enter id rest d hrest hnew hd =>
    have hmet : (enter { w with rest } id d).met = insert id w.met := by
      ext a
      rw [mem_met, Finset.mem_insert, mem_met, enter, List.mem_append, List.mem_singleton]
      tauto
    have hpending := pending_insert hd hnew
    rw [hmet, hrest]
    simp only [enter, List.map_cons, List.sum_cons, List.length_cons]
    omega
  | @leave s stays hrest hstays =>
    rw [h.met_leave hstays, hrest, hstays]
    simp only [leave, List.map_cons, List.sum_cons, List.length_nil]
    omega

end Walk

/-! ## Many steps -/

namespace WalkState

variable {x y z : WalkState}

theorem Reaches.refl (x : WalkState) : Reaches reg x x := ⟨0, rfl⟩

theorem Reaches.trans (h : Reaches reg x y) (h' : Reaches reg y z) : Reaches reg x z := by
  obtain ⟨n, rfl⟩ := h
  obtain ⟨m, rfl⟩ := h'
  exact ⟨m + n, Function.iterate_add_apply _ m n x⟩

theorem Reaches.single (h : x.step reg = y) : Reaches reg x y := ⟨1, h⟩

theorem iterate_ended (n : Nat) (result : Except CompositionError (List RoleDefinition)) :
    Nat.iterate (step reg) n (ended result) = ended result :=
  Function.iterate_fixed rfl n

end WalkState

namespace Walk

/-- As every step takes one from the steps that are left, a walk ends. -/
theorem Sound.exists_ended (h : w.Sound reg) :
    ∃ n ≤ w.cost reg + 1, ∃ result,
      Nat.iterate (WalkState.step reg) n (.going w) = .ended result := by
  induction hcost : w.cost reg using Nat.strong_induction_on generalizing w with
  | _ cost ih =>
    subst hcost
    cases hstep : w.step reg with
    | ended result => exact ⟨1, Nat.le_add_left _ _, result, hstep⟩
    | going w' =>
      have hgoes := goes_of_step hstep
      have hlt := h.cost_lt hgoes
      obtain ⟨n, hn, result, hended⟩ := ih _ hlt (h.goes hgoes) rfl
      refine ⟨n + 1, by omega, result, ?_⟩
      rw [Function.iterate_succ_apply]
      exact (congrArg _ hstep).trans hended

/-! ## What a walk ends with -/

/-- The walk when it has left these roles, in order, and is where it was. -/
def comeTo (w : Walk) (left : List RoleDefinition) : Walk :=
  { w with done := (left.map RoleDefinition.id).toFinset, order := left }

/-- A walk has come back with the roles that it has left by then, or has failed. -/
def conclude (w : Walk) : Except CompositionError (List RoleDefinition) → WalkState
  | .ok left => .going (w.comeTo left)
  | .error error => .ended (.error error)

/-- Both accounts of the roles that a walk has left agree. -/
def Accounted (w : Walk) : Prop := w.done = (w.order.map RoleDefinition.id).toFinset

theorem Accounted.mem_done (h : w.Accounted) :
    id ∈ w.done ↔ (w.order.any fun r => r.id == id) = true := by
  rw [h, List.mem_toFinset, List.mem_map, List.any_eq_true]
  simp only [beq_iff_eq]

/-- A walk goes through a list as `Registry.visit` does, if it does so for each role. -/
theorem reaches_foldlM {depth : Nat}
    (hvisit : ∀ (w : Walk) (id : RoleId), reg.PathTo w.path id → w.Accounted →
      reg.size ≤ w.path.length + depth → WalkState.Reaches reg (visit reg w id)
        (w.conclude (reg.visit depth w.path w.order id)))
    (w : Walk) (hpath : ∀ id ∈ w.rest, reg.PathTo w.path id) (hdone : w.Accounted)
    (hdepth : reg.size ≤ w.path.length + depth) :
    WalkState.Reaches reg (.going w)
      (conclude { w with rest := [] } (w.rest.foldlM (reg.visit depth w.path) w.order)) := by
  induction hrest : w.rest generalizing w with
  | nil =>
    have hself : comeTo { w with rest := [] } w.order = w := by
      rw [comeTo, ← hrest, ← hdone]
    show WalkState.Reaches reg _ (.going (comeTo { w with rest := [] } w.order))
    rw [hself]
    exact .refl _
  | cons id rest ih =>
    have hstep : (WalkState.going w).step reg = visit reg { w with rest } id := by
      show w.step reg = _
      rw [step, hrest]
    refine (WalkState.Reaches.single hstep).trans
      ((hvisit { w with rest } id (hpath id (hrest ▸ List.mem_cons_self)) hdone hdepth).trans ?_)
    rw [List.foldlM_cons]
    cases reg.visit depth w.path w.order id with
    | error error => exact .refl _
    | ok left =>
      exact ih (comeTo { w with rest } left)
        (fun b hb => hpath b (hrest ▸ List.mem_cons_of_mem _ hb)) rfl hdepth rfl

/-- Leaving a role after what it composes, the walk is back where it entered it. -/
theorem leave_comeTo {d : RoleDefinition} (w : Walk) (hid : d.id = id)
    (left : List RoleDefinition) :
    leave (comeTo { w.enter id d with rest := [] } left) ⟨id, d, w.rest⟩ w.stays =
      w.comeTo (left ++ [d]) := by
  have hdone : insert id (left.map RoleDefinition.id).toFinset =
      ((left ++ [d]).map RoleDefinition.id).toFinset := by
    ext a
    simp [hid]
  simp only [leave, comeTo, enter, List.dropLast_concat, hdone]

/-- The steps of a walk come to what `Registry.visit` does at once. -/
theorem reaches_visit (depth : Nat) (w : Walk) (id : RoleId) (hpath : reg.PathTo w.path id)
    (hdone : w.Accounted) (hdepth : reg.size ≤ w.path.length + depth) :
    WalkState.Reaches reg (visit reg w id)
      (w.conclude (reg.visit depth w.path w.order id)) := by
  induction depth using Nat.strong_induction_on generalizing w id with
  | _ depth ih =>
    unfold Registry.visit visit
    by_cases hmem : id ∈ w.done
    · rw [if_pos hmem, if_pos (hdone.mem_done.1 hmem)]
      have hself : w.comeTo w.order = w := by
        rw [comeTo, ← hdone]
      show WalkState.Reaches reg _ (.going (w.comeTo w.order))
      rw [hself]
      exact .refl _
    · rw [if_neg hmem, if_neg (hdone.mem_done.not.1 hmem)]
      by_cases honpath : id ∈ w.path
      · rw [if_pos honpath, if_pos (List.contains_iff_mem.2 honpath)]
        exact .refl _
      · rw [if_neg honpath, if_neg (List.contains_iff_mem.not.2 honpath)]
        cases hd : reg.lookup id with
        | error error => exact .refl _
        | ok d =>
          -- a new role on the path is one more that is registered, so there is room for it
          have hroom := hpath.length_lt honpath hd
          obtain ⟨depth, rfl⟩ : ∃ n, depth = n + 1 := ⟨depth - 1, by omega⟩
          have hlist := reaches_foldlM (ih depth (Nat.lt_succ_self depth)) (w.enter id d)
            (fun b hb => hpath.snoc honpath hd hb) hdone (by simp [enter]; omega)
          refine hlist.trans ?_
          show WalkState.Reaches reg (conclude { w.enter id d with rest := [] }
            (d.composed.foldlM (reg.visit depth (w.path ++ [id])) w.order)) _
          cases hf : d.composed.foldlM (reg.visit depth (w.path ++ [id])) w.order with
          | error error =>
            simp only [bind, Except.bind, hf]
            exact .refl _
          | ok left =>
            simp only [bind, Except.bind, hf]
            exact .single (congrArg WalkState.going
              (w.leave_comeTo (Registry.id_of_lookup hd) left))

end Walk

/-! ## Walks from some roots -/

namespace Registry

variable {roots : List RoleId} {n m : Nat}

theorem walkAt_succ (n : Nat) : reg.walkAt roots (n + 1) = (reg.walkAt roots n).step reg :=
  Function.iterate_succ_apply' _ n _

/-- The walk ends with the resolution order. -/
theorem reaches_resolutionOrder (reg : Registry) (roots : List RoleId) :
    WalkState.Reaches reg (.going { rest := roots }) (.ended (reg.resolutionOrder roots)) := by
  have hlist := Walk.reaches_foldlM (Walk.reaches_visit reg.size) { rest := roots }
    (fun id _ => ⟨List.nodup_nil, List.forall_mem_nil _, List.isChain_singleton id⟩) rfl
    (Nat.le_add_left _ _)
  refine hlist.trans ?_
  show WalkState.Reaches reg (Walk.conclude { rest := [] } (reg.resolutionOrder roots)) _
  cases reg.resolutionOrder roots with
  | error error => exact .refl _
  | ok order => exact .single rfl

/-- A walk that has ended does not go on. -/
theorem walkAt_of_ended {result : Except CompositionError (List RoleDefinition)}
    (h : reg.walkAt roots n = .ended result) (hle : n ≤ m) :
    reg.walkAt roots m = .ended result := by
  obtain ⟨k, rfl⟩ := Nat.exists_eq_add_of_le' hle
  unfold walkAt at h ⊢
  rw [Function.iterate_add_apply, h]
  exact WalkState.iterate_ended k result

/-- What holds of a walk holds wherever the walk from some roots stands. -/
theorem sound_walkAt (h : reg.walkAt roots n = .going w) : w.Sound reg := by
  induction n generalizing w with
  | zero =>
    cases h
    exact ⟨rfl, .roots, List.nodup_nil, List.forall_mem_nil _⟩
  | succ n ih =>
    rw [walkAt_succ] at h
    cases hn : reg.walkAt roots n with
    | ended result =>
      rw [hn] at h
      cases h
    | going w₀ =>
      rw [hn] at h
      exact (ih hn).goes (Walk.goes_of_step h)

/-- What a walk has met by a step it has met at each later one. -/
theorem met_of_le (h : reg.walkAt roots n = .going w) (hid : id ∈ w.met) (hle : n ≤ m)
    (hm : reg.walkAt roots m = .going w') : id ∈ w'.met := by
  induction m, hle using Nat.le_induction generalizing w' with
  | base =>
    rw [h] at hm
    cases hm
    exact hid
  | succ m _ ih =>
    rw [walkAt_succ] at hm
    cases hw : reg.walkAt roots m with
    | ended result =>
      rw [hw] at hm
      cases hm
    | going w₁ =>
      rw [hw] at hm
      exact (sound_walkAt hw).met_subset (Walk.goes_of_step hm) (ih hw)

/-- A role is not entered again by a later step. -/
theorem not_enters_of_lt (h : (reg.walkAt roots n).Enters reg id) (hlt : n < m) :
    ¬ (reg.walkAt roots m).Enters reg id := by
  intro h'
  generalize hn : reg.walkAt roots n = x at h
  generalize hm : reg.walkAt roots m = y at h'
  cases h with
  | @intro w _ rest d _ hstep =>
    have hnext : reg.walkAt roots (n + 1) = .going (Walk.enter { w with rest } id d) := by
      rw [walkAt_succ, hn]
      exact hstep
    have hmet : id ∈ (Walk.enter { w with rest } id d).met :=
      Walk.mem_met.2 (.inr (List.mem_append_right _ (List.mem_singleton_self id)))
    cases h' with
    | intro hrest' hstep' =>
      exact Walk.notMem_met_of_enter hrest' hstep' (met_of_le hnext hmet hlt hm)

theorem cost_start (reg : Registry) (roots : List RoleId) :
    Walk.cost reg { rest := roots } + 1 = reg.stepsFrom roots := by
  have hall : reg.entries.filter (fun e => e.definition.id ∉ Walk.met { rest := roots }) =
      reg.entries := by
    refine List.filter_eq_self.2 fun e _ => decide_eq_true fun hmet => ?_
    rcases Walk.mem_met.1 hmet with hdone | hpath
    · exact Finset.notMem_empty _ hdone
    · exact List.not_mem_nil hpath
  unfold Walk.cost pending stepsFrom
  rw [hall]
  rfl

/-- Whatever the registry and the roots, the walk ends, after no more steps than the lists of the
roles have entries and there are roles and roots, and one, and it ends with what `resolutionOrder`
gives. Whenever it asks for a role, the path holds different registered roles, none of which it has
left; each of them composes the next one, and the last one the role that is asked for. So no more
requests stand within each other than there are roles, and one. No role is entered twice. -/
theorem walk_of_roots (reg : Registry) (roots : List RoleId) :
    (∃ n ≤ reg.stepsFrom roots, reg.walkAt roots n = .ended (reg.resolutionOrder roots)) ∧
    (∀ n w id rest, reg.walkAt roots n = .going w → w.rest = id :: rest →
      w.path.Nodup ∧ (∀ a ∈ w.path, reg.contains a = true ∧ a ∉ w.done) ∧
      (w.path ++ [id]).IsChain reg.Composes ∧
      w.nesting = w.path.length + 1 ∧ w.nesting ≤ reg.size + 1) ∧
    ∀ n m id, (reg.walkAt roots n).Enters reg id → (reg.walkAt roots m).Enters reg id → n = m := by
  refine ⟨?_, fun n w id rest hn hrest => ?_, fun n m id hn hm => ?_⟩
  · have hstart : Walk.Sound reg { rest := roots } := sound_walkAt (n := 0) rfl
    obtain ⟨n, hle, result, hended⟩ := hstart.exists_ended
    obtain ⟨m, horder⟩ := reaches_resolutionOrder reg roots
    -- both have ended when the later of the two has
    have hboth := walkAt_of_ended hended (Nat.le_max_left n m)
    rw [walkAt_of_ended horder (Nat.le_max_right n m)] at hboth
    cases hboth
    exact ⟨n, hle.trans (Nat.le_of_eq (cost_start reg roots)), hended⟩
  · have hsound := sound_walkAt hn
    have hpath := hsound.pathTo (hrest ▸ List.mem_cons_self)
    have hnesting : w.nesting = w.path.length + 1 := by
      rw [Walk.nesting, hsound.length_path]
    refine ⟨hsound.nodup, fun a ha => ⟨?_, hsound.apart a ha⟩, hpath.linked, hnesting, ?_⟩
    · exact contains_iff.2 (hpath.registered a ha)
    · rw [hnesting]
      exact Nat.succ_le_succ (length_le_size hpath.nodup hpath.registered)
  · rcases Nat.lt_trichotomy n m with hlt | rfl | hlt
    · exact absurd hm (not_enters_of_lt hn hlt)
    · rfl
    · exact absurd hn (not_enters_of_lt hm hlt)

end Registry

example :
    let reg : Registry := ⟨[
      { definition := { id := ⟨"gate"⟩, composed := [⟨"yard"⟩, ⟨"hall"⟩] } },
      { definition := { id := ⟨"hall"⟩, composed := [⟨"yard"⟩, ⟨"gate"⟩] } },
      { definition := { id := ⟨"yard"⟩ } }]⟩
    (List.range 7).map (fun n =>
      match reg.walkAt [⟨"gate"⟩] n with
      | .going w => some w.path
      | .ended _ => none) = [some [], some [⟨"gate"⟩], some [⟨"gate"⟩, ⟨"yard"⟩],
        some [⟨"gate"⟩], some [⟨"gate"⟩, ⟨"hall"⟩], some [⟨"gate"⟩, ⟨"hall"⟩], none] := by
  decide +kernel

end RoleComposition
