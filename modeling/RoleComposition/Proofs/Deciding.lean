import RoleComposition.Engine.Composition
import RoleComposition.Proofs.Flattening

/-!
# What a merge decides

`outcomeOf` is the outcome that a type has by the definitions of its roles, without slots, when its
hook answers by a fixed rule. Main statements: `validate_eq_ok` (what the check of capabilities
asks for), `find?_offersTo` (what the declared roles offer) and `find?_tally` with
`conflicts_foldl_settle` (what the offers that are kept come to).
-/

namespace RoleComposition

/-! ## Required signatures -/

/-- The roles of a list that require a signature. -/
def requiring (roles : List RoleDefinition) (s : Signature) : List RoleId :=
  (roles.filter fun r => r.required.contains s).map RoleDefinition.id

/-- One role adds itself under each signature that it requires. -/
theorem find?_foldl_required (r : RoleDefinition) (held : SignatureMap (List RoleId))
    (s : Signature) :
    (r.required.signatures.foldl
      (fun held s => held.insert s ((held.find? s).getD [] ++ [r.id])) held).find? s =
      if r.required.contains s then some ((held.find? s).getD [] ++ [r.id])
      else held.find? s := by
  rw [SignatureMap.signatures, List.foldl_map,
    SignatureMap.foldl_lookup SignatureMap.find? _
      (fun held _ => some (held.getD [] ++ [r.id])), SignatureMap.contains_eq]
  · cases r.required.find? s <;> rfl
  · intro held e t
    rw [SignatureMap.find?_insert]
    split_ifs with ht
    · rw [ht]
    · rfl

theorem find?_requirers (roles : List RoleDefinition) (s : Signature) :
    (requirers roles).find? s = present (requiring roles s) := by
  suffices h : ∀ (held : SignatureMap (List RoleId)) (ids : List RoleId),
      held.find? s = present ids →
      (roles.foldl (fun held r => r.required.signatures.foldl
        (fun held s => held.insert s ((held.find? s).getD [] ++ [r.id])) held) held).find? s =
        present (ids ++ requiring roles s) from h ∅ [] rfl
  induction roles with
  | nil =>
    intro held ids h
    simpa [requiring] using h
  | cons r roles ih =>
    intro held ids h
    rw [List.foldl_cons]
    by_cases hr : r.required.contains s = true
    · have hids : requiring (r :: roles) s = r.id :: requiring roles s := by
        simp [requiring, hr]
      rw [hids, List.append_cons]
      refine ih _ _ ?_
      rw [find?_foldl_required, if_pos hr, h, getD_present]
      exact (present_eq_some.2 ⟨by simp, rfl⟩).symm
    · have hids : requiring (r :: roles) s = requiring roles s := by
        simp [requiring, hr]
      rw [hids]
      refine ih _ _ ?_
      rw [find?_foldl_required, if_neg hr, h]

theorem mem_requirers {roles : List RoleDefinition} {s : Signature} :
    (∃ ids, (requirers roles).find? s = some ids) ↔
      ∃ r ∈ roles, r.required.contains s = true := by
  simp only [find?_requirers, present_eq_some]
  constructor
  · rintro ⟨ids, hne, -⟩
    obtain ⟨id, hid⟩ := List.exists_mem_of_ne_nil _ hne
    obtain ⟨r, hr, -⟩ := List.mem_map.1 hid
    exact ⟨r, List.mem_filter.1 hr⟩
  · rintro ⟨r, hr, hs⟩
    refine ⟨requiring roles s, fun hnil => ?_, rfl⟩
    have hmem : r.id ∈ requiring roles s := List.mem_map.2 ⟨r, List.mem_filter.2 ⟨hr, hs⟩, rfl⟩
    rw [hnil] at hmem
    simp at hmem

theorem AdoptingType.validate_eq_ok_iff_nil {t : AdoptingType} {roles : List RoleDefinition} :
    t.validate roles = .ok () ↔ t.missingCapabilities roles = [] := by
  unfold validate
  cases t.missingCapabilities roles <;> simp

/-- A type passes the check of capabilities iff each signature that a role requires is satisfied. -/
theorem AdoptingType.validate_eq_ok {t : AdoptingType} {roles : List RoleDefinition} :
    t.validate roles = .ok () ↔
      ∀ r ∈ roles, ∀ s, r.required.contains s = true → t.satisfies roles s = true := by
  have hnil : t.missingCapabilities roles = [] ↔
      ∀ e ∈ (requirers roles).toList, t.satisfies roles e.1 = true := by
    simp [missingCapabilities, SignatureMap.filter]
  rw [validate_eq_ok_iff_nil, hnil]
  constructor
  · intro h r hr s hs
    obtain ⟨ids, hids⟩ := mem_requirers.2 ⟨r, hr, hs⟩
    exact h (s, ids) (SignatureMap.find?_eq_some.1 hids)
  · rintro h ⟨s, ids⟩ he
    obtain ⟨r, hr, hs⟩ := mem_requirers.1 ⟨ids, SignatureMap.find?_eq_some.2 he⟩
    exact h r hr s hs

theorem AdoptingType.validate_eq_error {t : AdoptingType} {roles : List RoleDefinition}
    {error : CompositionError} (h : t.validate roles = .error error) :
    error = .missingCapability t.name (t.missingCapabilities roles) := by
  unfold validate at h
  cases hm : t.missingCapabilities roles with
  | nil => simp [hm] at h
  | cons m ms =>
    simp only [hm, List.isEmpty_cons, Bool.false_eq_true, if_false, Except.error.injEq] at h
    exact h.symm

/-! ## Storage -/

theorem exists_of_bind_eq_ok {ε α β : Type} {x : Except ε α} {f : α → Except ε β} {b : β}
    (h : (x >>= f) = .ok b) : ∃ a, x = .ok a ∧ f a = .ok b := by
  cases x with
  | error error => cases h
  | ok a => exact ⟨a, rfl, h⟩

theorem ok_bind {ε α β : Type} (a : α) (f : α → Except ε β) : (Except.ok a >>= f) = f a := rfl

theorem forM_cons {m : Type → Type} [Monad m] {α : Type} (f : α → m PUnit) (a : α) (l : List α) :
    (a :: l).forM f = (f a >>= fun _ => l.forM f) := rfl

theorem forM_eq_ok {ε α : Type} {f : α → Except ε Unit} {l : List α} :
    l.forM f = .ok () ↔ ∀ a ∈ l, f a = .ok () := by
  induction l with
  | nil => simp [pure, Except.pure]
  | cons a l ih =>
    rw [forM_cons]
    cases ha : f a with
    | error error => simp [bind, Except.bind, ha]
    | ok _ => simpa [bind, Except.bind, ha] using ih

theorem RoleDefinition.checkStorage_eq_ok {r : RoleDefinition} :
    r.checkStorage = .ok () ↔ r.storage = [] := by
  unfold checkStorage
  cases r.storage <;> simp

theorem RoleDefinition.checkStorage_eq_error {r : RoleDefinition} {error : CompositionError}
    (h : r.checkStorage = .error error) :
    r.storage ≠ [] ∧ error = .storageExtension r.id r.storage := by
  unfold checkStorage at h
  cases hs : r.storage with
  | nil => simp [hs] at h
  | cons field fields =>
    simp only [hs, List.isEmpty_cons, Bool.false_eq_true, if_false, Except.error.injEq] at h
    exact ⟨List.cons_ne_nil _ _, h.symm⟩

theorem Engine.checkStorage_eq_ok {config : Config} {roles : List RoleDefinition} :
    Engine.checkStorage config roles = .ok () ↔
      (config.storageCheck = .atComposition → ∀ r ∈ roles, r.storage = []) := by
  unfold Engine.checkStorage
  cases config.storageCheck with
  | atRegistration => simp
  | atComposition =>
    rw [forM_eq_ok]
    simp [RoleDefinition.checkStorage_eq_ok]

theorem Engine.checkStorage_eq_error {config : Config} {roles : List RoleDefinition}
    {error : CompositionError} (h : Engine.checkStorage config roles = .error error) :
    ∃ role fields, error = .storageExtension role fields := by
  unfold Engine.checkStorage at h
  split at h
  · cases h
  · induction roles with
    | nil => cases h
    | cons r roles ih =>
      rw [forM_cons] at h
      cases hr : r.checkStorage with
      | ok _ =>
        rw [hr] at h
        exact ih h
      | error error' =>
        rw [hr] at h
        cases h
        unfold RoleDefinition.checkStorage at hr
        split_ifs at hr
        cases hr
        exact ⟨_, _, rfl⟩

/-! ## Offers -/

namespace Registry

/-- The candidates that declared roles bring for a signature. -/
def candidatesFor (reg : Registry) (declared : List RoleId) (s : Signature) : List Candidate :=
  firstMet Candidate.origin
    (declared.flatMap fun via => (reg.offersBelow reg.size s via).map (ClosureEntry.through via))

/-- The offers to a type, gathered anew. -/
def offersTo (reg : Registry) (t : AdoptingType) : Offers :=
  t.declaredRoles.foldl (fun offers via => Offers.add t offers (reg.closureOf via)) ∅

/-- The checks that come before the offers of a type. -/
def check (reg : Registry) (config : Config) (t : AdoptingType) :
    Except CompositionError Unit := do
  let order ← reg.resolutionOrder t.declaredRoles
  Engine.checkStorage config order
  t.validate order

/-- If the declared roles resolve, what is left to check is their storage and what they require. -/
theorem check_of_resolutionOrder {reg : Registry} {config : Config} {t : AdoptingType}
    {order : List RoleDefinition} (horder : reg.resolutionOrder t.declaredRoles = .ok order) :
    reg.check config t = (do
      Engine.checkStorage config order
      t.validate order) := by
  unfold check
  rw [horder]
  rfl

theorem check_eq_ok {reg : Registry} {config : Config} {t : AdoptingType} :
    reg.check config t = .ok () ↔
      ∃ order, reg.resolutionOrder t.declaredRoles = .ok order ∧
        Engine.checkStorage config order = .ok () ∧ t.validate order = .ok () := by
  unfold check
  cases horder : reg.resolutionOrder t.declaredRoles with
  | error error => simp [bind, Except.bind]
  | ok order =>
    cases hstorage : Engine.checkStorage config order with
    | error error => simp [bind, Except.bind, hstorage]
    | ok _ => simp [bind, Except.bind, hstorage]

/-- Which check fails: the first that does, in this order. -/
theorem check_eq_error {reg : Registry} {config : Config} {t : AdoptingType}
    {error : CompositionError} (h : reg.check config t = .error error) :
    reg.resolutionOrder t.declaredRoles = .error error ∨
      ∃ order, reg.resolutionOrder t.declaredRoles = .ok order ∧
        (Engine.checkStorage config order = .error error ∨
          Engine.checkStorage config order = .ok () ∧ t.validate order = .error error) := by
  unfold check at h
  cases horder : reg.resolutionOrder t.declaredRoles with
  | error error' =>
    rw [horder] at h
    cases h
    exact .inl rfl
  | ok order =>
    refine .inr ⟨order, rfl, ?_⟩
    cases hstorage : Engine.checkStorage config order with
    | error error' =>
      simp only [horder, bind, Except.bind, hstorage] at h
      cases h
      exact .inl rfl
    | ok _ =>
      simp only [horder, bind, Except.bind, hstorage] at h
      exact .inr ⟨rfl, h⟩

end Registry

theorem Offers.find?_add (t : AdoptingType) (offers : Offers) (closure : RoleClosure)
    (s : Signature) :
    (Offers.add t offers closure).find? s =
      (closure.methods.find? s).elim (offers.find? s) fun offered =>
        if t.owns s then offers.find? s
        else some (addCandidates closure.role ((offers.find? s).getD []) offered) := by
  unfold Offers.add
  refine (SignatureMap.foldl_lookup SignatureMap.find? _
    (fun held e => if t.owns e.1 then held
      else some (addCandidates closure.role (held.getD []) e.2)) ?_ _ _ _).trans ?_
  · intro offers e s
    split_ifs with howns hs hs
    · rfl
    · rfl
    · rw [SignatureMap.find?_insert, if_pos hs, hs]
    · rw [SignatureMap.find?_insert, if_neg hs]
  · rfl

theorem Offers.find?_add_of_not_owns {t : AdoptingType} {offers : Offers} {closure : RoleClosure}
    {s : Signature} {l : List Candidate} {offered : List ClosureEntry} (hs : t.owns s = false)
    (h : offers.find? s = present (firstMet Candidate.origin l))
    (h' : closure.methods.find? s = present (firstMet ClosureEntry.origin offered)) :
    (Offers.add t offers closure).find? s =
      present (firstMet Candidate.origin
        (l ++ offered.map (ClosureEntry.through closure.role))) := by
  rw [find?_add, h', h, getD_present]
  cases hoffered : offered with
  | nil => rw [List.map_nil, List.append_nil]; rfl
  | cons e rest =>
    rw [← hoffered]
    have hne : firstMet ClosureEntry.origin offered ≠ [] := by
      rw [Ne, firstMet_eq_nil, hoffered]
      exact List.cons_ne_nil _ _
    have hne' : firstMet Candidate.origin
        (l ++ offered.map (ClosureEntry.through closure.role)) ≠ [] := by
      rw [Ne, firstMet_eq_nil, hoffered]
      simp
    rw [present_eq_some.2 ⟨hne, rfl⟩, present_eq_some.2 ⟨hne', rfl⟩]
    show (if t.owns s then _ else some (addCandidates _ _ _)) = _
    rw [hs, if_neg (by simp), addCandidates_eq, firstMet_map_through, keepNew_firstMet, firstMet,
      firstMet, keepNew_append]

namespace Registry

/-- For what a type brings itself, the declared roles offer nothing. -/
theorem find?_offersTo_of_owns (reg : Registry) {t : AdoptingType} {s : Signature}
    (hs : t.owns s = true) : (reg.offersTo t).find? s = none := by
  unfold offersTo
  suffices h : ∀ (declared : List RoleId) (offers : Offers), offers.find? s = none →
      (declared.foldl (fun offers via => Offers.add t offers (reg.closureOf via))
        offers).find? s = none from h t.declaredRoles ∅ rfl
  intro declared
  induction declared with
  | nil => exact fun offers h => h
  | cons via vias ih =>
    intro offers h
    rw [List.foldl_cons]
    refine ih _ ?_
    rw [Offers.find?_add, h]
    cases (reg.closureOf via).methods.find? s with
    | none => rfl
    | some offered => exact if_pos hs

/-- For anything else, they offer one candidate of each origin. -/
theorem find?_offersTo_of_not_owns {reg : Registry} {t : AdoptingType} {s : Signature}
    (h : ∀ via ∈ t.declaredRoles, reg.ResolvesWithin reg.size via) (hs : t.owns s = false) :
    (reg.offersTo t).find? s = present (reg.candidatesFor t.declaredRoles s) := by
  unfold offersTo candidatesFor
  generalize t.declaredRoles = declared at h ⊢
  -- what the roles so far have offered stands in front of what the others offer
  suffices hf : ∀ (offers : Offers) (l : List Candidate),
      offers.find? s = present (firstMet Candidate.origin l) →
      (declared.foldl
        (fun offers via => Offers.add t offers (reg.closureOf via)) offers).find? s =
        present (firstMet Candidate.origin (l ++ declared.flatMap fun via =>
          (reg.offersBelow reg.size s via).map (ClosureEntry.through via))) from hf ∅ [] rfl
  induction declared with
  | nil =>
    intro offers l hl
    simpa using hl
  | cons via vias ih =>
    intro offers l hl
    rw [List.foldl_cons, List.flatMap_cons, ← List.append_assoc]
    refine ih (fun b hb => h b (List.mem_cons_of_mem _ hb)) _ _ ?_
    have hadd := Offers.find?_add_of_not_owns hs hl
      (find?_closureOf (h via List.mem_cons_self) s)
    rw [hadd]
    unfold closureOf
    rw [flatten_role]

/-- What the declared roles offer a type for a signature. -/
theorem find?_offersTo {reg : Registry} {t : AdoptingType}
    (h : ∀ via ∈ t.declaredRoles, reg.ResolvesWithin reg.size via) (s : Signature) :
    (reg.offersTo t).find? s =
      if t.owns s then none else present (reg.candidatesFor t.declaredRoles s) := by
  split_ifs with hs
  · exact find?_offersTo_of_owns reg hs
  · exact find?_offersTo_of_not_owns h (by simpa using hs)

end Registry

/-! ## Decisions -/

/-- The candidates that a rule keeps. -/
def Candidate.keptBy (keep : RoleId → Signature → Bool) (s : Signature)
    (cs : List Candidate) : List Candidate :=
  cs.filter fun c => keep c.origin s

namespace Tally

/-- Takes in the offers for a signature, of which a rule keeps some. -/
def settle (keep : RoleId → Signature → Bool) (tally : Tally) (offer : Signature × List Candidate) :
    Tally :=
  tally.add offer.1 offer.2.length (.ofSurvivors (Candidate.keptBy keep offer.1 offer.2))

/-- The conflict that offers lead to, if a rule keeps more than one of them. -/
def conflict? (keep : RoleId → Signature → Bool) (offer : Signature × List Candidate) :
    Option SignatureConflict :=
  match Candidate.keptBy keep offer.1 offer.2 with
  | c :: c' :: cs => some ⟨offer.1, RoleId.sort ((c :: c' :: cs).map Candidate.origin)⟩
  | _ => none

/-- The method that offers lead to, if a rule keeps one of them. -/
def selected? (keep : RoleId → Signature → Bool) (s : Signature) (cs : List Candidate) :
    Option MethodEntry :=
  match Candidate.keptBy keep s cs with
  | [c] => some ⟨c.implementation, .role c.origin c.via⟩
  | _ => none

/-- Offers of different origins lead to no conflict iff the rule keeps at most one of them. -/
theorem conflict?_eq_none {keep : RoleId → Signature → Bool} {s : Signature} {cs : List Candidate}
    (hnodup : ((Candidate.keptBy keep s cs).map Candidate.origin).Nodup) :
    conflict? keep (s, cs) = none ↔ ∀ c ∈ Candidate.keptBy keep s cs,
      ∀ c' ∈ Candidate.keptBy keep s cs, c.origin = c'.origin := by
  unfold conflict?
  constructor
  · intro h c hc c' hc'
    rcases hk : Candidate.keptBy keep s cs with _ | ⟨d, _ | ⟨d', ds⟩⟩
    · rw [hk] at hc
      exact absurd hc List.not_mem_nil
    · rw [hk, List.mem_singleton] at hc hc'
      rw [hc, hc']
    · simp only [hk] at h
      cases h
  · intro h
    rcases eq_nil_or_eq_singleton hnodup h with hk | ⟨d, hk⟩
    · simp only [hk]
    · simp only [hk]

theorem conflicts_foldl_settle (keep : RoleId → Signature → Bool)
    (offers : List (Signature × List Candidate)) (tally : Tally) :
    (offers.foldl (settle keep) tally).conflicts =
      tally.conflicts ++ offers.filterMap (conflict? keep) := by
  induction offers generalizing tally with
  | nil => simp
  | cons offer offers ih =>
    rw [List.foldl_cons, ih, List.filterMap_cons]
    unfold settle conflict?
    rcases Candidate.keptBy keep offer.1 offer.2 with _ | ⟨c, _ | ⟨c', cs⟩⟩
    · rfl
    · rfl
    · simp [add, Decision.ofSurvivors]

theorem find?_settle (keep : RoleId → Signature → Bool) (tally : Tally)
    (offer : Signature × List Candidate) (s : Signature) :
    (settle keep tally offer).entries.find? s =
      if offer.1 = s then (selected? keep offer.1 offer.2).or (tally.entries.find? s)
      else tally.entries.find? s := by
  unfold settle selected?
  rcases Candidate.keptBy keep offer.1 offer.2 with _ | ⟨c, _ | ⟨c', cs⟩⟩
  · simp [add, Decision.ofSurvivors]
  · simp only [add, Decision.ofSurvivors, SignatureMap.find?_insert]
    split_ifs <;> rfl
  · simp [add, Decision.ofSurvivors]

theorem find?_foldl_settle (keep : RoleId → Signature → Bool) (offers : Offers) (tally : Tally)
    (s : Signature) :
    (offers.toList.foldl (settle keep) tally).entries.find? s =
      (offers.find? s).elim (tally.entries.find? s) fun cs =>
        (selected? keep s cs).or (tally.entries.find? s) :=
  SignatureMap.foldl_lookup (fun (tally : Tally) s => tally.entries.find? s) (settle keep)
    (fun held e => (selected? keep e.1 e.2).or held)
    (fun tally e s => by
      rw [find?_settle]) offers tally s

end Tally

namespace AdoptingType

/-- The tally of a type when all offers have been settled by a rule. -/
def tally (t : AdoptingType) (keep : RoleId → Signature → Bool) (offers : Offers) : Tally :=
  offers.toList.foldl (Tally.settle keep) (Tally.ofOwn t)

/-- What the tally of a type comes to. -/
def outcomeOfTally (t : AdoptingType) (tally : Tally) : Outcome :=
  if tally.conflicts.isEmpty then .ok ⟨t.name, tally.entries⟩
  else .error (.roleConflict (.type t.name) tally.conflicts)

theorem outcomeOfTally_eq_ok {t : AdoptingType} {tally : Tally} {table : MethodTable} :
    t.outcomeOfTally tally = .ok table ↔
      tally.conflicts = [] ∧ table = ⟨t.name, tally.entries⟩ := by
  unfold outcomeOfTally
  cases hc : tally.conflicts with
  | nil => simp [eq_comm]
  | cons c cs => simp

theorem find?_tally (t : AdoptingType) (keep : RoleId → Signature → Bool) (offers : Offers)
    (s : Signature) :
    (t.tally keep offers).entries.find? s =
      (offers.find? s).elim ((t.ownMethods.find? s).map fun i => ⟨i, .own⟩) fun cs =>
        (Tally.selected? keep s cs).or ((t.ownMethods.find? s).map fun i => ⟨i, .own⟩) := by
  have hown : (Tally.ofOwn t).entries.find? s =
      (t.ownMethods.find? s).map fun i => ⟨i, .own⟩ := SignatureMap.find?_map _ _ _
  rw [tally, Tally.find?_foldl_settle, hown]

end AdoptingType

/-- The outcome of a type by the definitions of its roles, if its hook answers by a rule. -/
def Registry.outcomeOf (reg : Registry) (config : Config) (t : AdoptingType)
    (keep : RoleId → Signature → Bool) : Outcome := do
  reg.check config t
  t.outcomeOfTally (t.tally keep (reg.offersTo t))

namespace Registry

variable {reg : Registry} {config : Config} {t : AdoptingType}

theorem outcomeOf_of_check_eq_error {error : CompositionError}
    (h : reg.check config t = .error error) (keep : RoleId → Signature → Bool) :
    reg.outcomeOf config t keep = .error error := by
  unfold outcomeOf
  rw [h]
  rfl

theorem outcomeOf_of_check_eq_ok (h : reg.check config t = .ok ())
    (keep : RoleId → Signature → Bool) :
    reg.outcomeOf config t keep = t.outcomeOfTally (t.tally keep (reg.offersTo t)) := by
  unfold outcomeOf
  rw [h]
  rfl

end Registry

end RoleComposition
