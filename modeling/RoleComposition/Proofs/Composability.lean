import RoleComposition.Proofs.Capabilities

/-!
# When a type composes

The outcome of a type, said by what its declared roles reach: `Composable` lists the conditions
under which it has a table, and `Fits` says what the table then holds. Main statements:
`outcomeOf_isOk` and `fits_of_outcomeOf`.
-/

namespace RoleComposition.Registry

/-- A registered role provides a body for a signature. -/
def Provides (reg : Registry) (o : RoleId) (s : Signature) (i : Implementation) : Prop :=
  ∃ d, reg.lookup o = .ok d ∧ d.provided.find? s = some i

/-- A role is the first of the declared ones that reaches another role. -/
def FirstReaching (reg : Registry) (declared : List RoleId) (via o : RoleId) : Prop :=
  ∃ before after, declared = before ++ via :: after ∧ reg.Reaches via o ∧
    ∀ v ∈ before, ¬ reg.Reaches v o

/-- A role that the declared ones reach provides a signature, and a rule keeps it. -/
structure Keeps (reg : Registry) (declared : List RoleId) (keep : RoleId → Signature → Bool)
    (s : Signature) (o : RoleId) : Prop where
  reached : reg.ReachedFrom declared o
  provides : ∃ i, reg.Provides o s i
  kept : keep o s = true

/-- The conditions under which a type composes when its hook answers by a rule. -/
structure Composable (reg : Registry) (config : Config) (t : AdoptingType)
    (keep : RoleId → Signature → Bool) : Prop where
  registered : ∀ b, reg.ReachedFrom t.declaredRoles b → reg.contains b = true
  acyclic : ∀ b, reg.ReachedFrom t.declaredRoles b → ¬ reg.OnCycle b
  storeless : config.storageCheck = .atComposition →
    ∀ b d, reg.ReachedFrom t.declaredRoles b → reg.lookup b = .ok d → d.storage = []
  capable : ∀ b d s, reg.ReachedFrom t.declaredRoles b → reg.lookup b = .ok d →
    d.required.contains s = true →
      t.owns s = true ∨ ∃ o i, reg.ReachedFrom t.declaredRoles o ∧ reg.Provides o s i
  decided : ∀ s, t.owns s = false → ∀ o o', reg.Keeps t.declaredRoles keep s o →
    reg.Keeps t.declaredRoles keep s o' → o = o'

/-- A table holds the type's own methods, and of the other signatures exactly those of which one
origin is kept, with that origin's body and the first declared role that reaches it. -/
structure Fits (reg : Registry) (t : AdoptingType) (keep : RoleId → Signature → Bool)
    (table : MethodTable) : Prop where
  typeName : table.typeName = t.name
  own : ∀ s i, t.ownMethods.find? s = some i → table.get? s = some ⟨i, .own⟩
  role : ∀ s, t.owns s = false → ∀ entry, table.get? s = some entry ↔
    ∃ o via i, reg.Keeps t.declaredRoles keep s o ∧
      (∀ o', reg.Keeps t.declaredRoles keep s o' → o' = o) ∧
      reg.FirstReaching t.declaredRoles via o ∧ reg.Provides o s i ∧
      entry = ⟨i, .role o via⟩

variable {reg : Registry} {declared : List RoleId} {keep : RoleId → Signature → Bool}
  {s : Signature} {o : RoleId}

theorem Provides.inj {i i' : Implementation} (h : reg.Provides o s i) (h' : reg.Provides o s i') :
    i = i' := by
  obtain ⟨d, hd, hi⟩ := h
  obtain ⟨d', hd', hi'⟩ := h'
  rw [hd] at hd'
  cases hd'
  rw [hi] at hi'
  exact Option.some.inj hi'

theorem firstReaching_cons {v via : RoleId} :
    reg.FirstReaching (v :: declared) via o ↔
      via = v ∧ reg.Reaches v o ∨ ¬ reg.Reaches v o ∧ reg.FirstReaching declared via o := by
  constructor
  · rintro ⟨before, after, hl, hvia, hbefore⟩
    cases before with
    | nil =>
      cases hl
      exact .inl ⟨rfl, hvia⟩
    | cons w before =>
      cases hl
      refine .inr ⟨hbefore v List.mem_cons_self, before, after, rfl, hvia, fun u hu => ?_⟩
      exact hbefore u (List.mem_cons_of_mem _ hu)
  · rintro (⟨rfl, hv⟩ | ⟨hv, before, after, rfl, hvia, hbefore⟩)
    · exact ⟨[], declared, rfl, hv, by simp⟩
    · refine ⟨v :: before, after, rfl, hvia, fun u hu => ?_⟩
      rcases List.mem_cons.1 hu with rfl | hu
      · exact hv
      · exact hbefore u hu

theorem exists_firstReaching (h : reg.ReachedFrom declared o) :
    ∃ via, reg.FirstReaching declared via o := by
  obtain ⟨a, ha, hao⟩ := h
  induction declared with
  | nil => simp at ha
  | cons v declared ih =>
    by_cases hv : reg.Reaches v o
    · exact ⟨v, firstReaching_cons.2 (.inl ⟨rfl, hv⟩)⟩
    · rcases List.mem_cons.1 ha with rfl | ha
      · exact absurd hao hv
      · obtain ⟨via, hvia⟩ := ih ha
        exact ⟨via, firstReaching_cons.2 (.inr ⟨hv, hvia⟩)⟩

theorem FirstReaching.reachedFrom {via : RoleId} (h : reg.FirstReaching declared via o) :
    reg.ReachedFrom declared o := by
  obtain ⟨before, after, rfl, hvia, -⟩ := h
  exact ⟨via, by simp, hvia⟩

/-! ## Candidates -/

theorem mem_offersBelow_iff {n : Nat} {id : RoleId} (h : reg.ResolvesWithin n id)
    {e : ClosureEntry} :
    e ∈ reg.offersBelow n s id ↔
      reg.Reaches id e.origin ∧ reg.Provides e.origin s e.implementation := by
  rw [mem_offersBelow h, offer_eq_some]
  rfl

/-- One origin has one body for a signature. -/
theorem eq_of_mem_offersBelow {n : Nat} {id : RoleId} (h : reg.ResolvesWithin n id) :
    ∀ a ∈ reg.offersBelow n s id, ∀ b ∈ reg.offersBelow n s id, a.origin = b.origin → a = b := by
  rintro ⟨o, i⟩ ha ⟨o', i'⟩ hb hab
  have hab' : o = o' := hab
  subst hab'
  have hi : i = i' := ((mem_offersBelow_iff h).1 ha).2.inj ((mem_offersBelow_iff h).1 hb).2
  rw [hi]

/-- The candidates of one declared role. -/
theorem mem_firstMet_offersBelow {n : Nat} {via : RoleId} (h : reg.ResolvesWithin n via)
    {c : Candidate} :
    c ∈ firstMet Candidate.origin
        ((reg.offersBelow n s via).map (ClosureEntry.through via)) ↔
      c.via = via ∧ reg.Reaches via c.origin ∧ reg.Provides c.origin s c.implementation := by
  rw [← firstMet_map_through, List.mem_map]
  simp only [mem_firstMet_of_inj (eq_of_mem_offersBelow h), mem_offersBelow_iff h]
  constructor
  · rintro ⟨e, he, rfl⟩
    exact ⟨rfl, he⟩
  · obtain ⟨o, v, i⟩ := c
    rintro ⟨rfl, he⟩
    exact ⟨⟨o, i⟩, he, rfl⟩

/-- The candidates of all declared roles: each origin comes through the first that reaches it. -/
theorem mem_candidatesFor (h : ∀ via ∈ declared, reg.ResolvesWithin reg.size via)
    {c : Candidate} :
    c ∈ reg.candidatesFor declared s ↔
      reg.FirstReaching declared c.via c.origin ∧ reg.Provides c.origin s c.implementation := by
  unfold candidatesFor
  induction declared with
  | nil =>
    constructor
    · intro hc
      simp [firstMet] at hc
    · rintro ⟨⟨before, after, hl, -⟩, -⟩
      simp at hl
  | cons v declared ih =>
    have hv := h v List.mem_cons_self
    rw [List.flatMap_cons, mem_firstMet_append, mem_firstMet_offersBelow hv,
      ih fun b hb => h b (List.mem_cons_of_mem _ hb), firstReaching_cons]
    -- the first role stands in the way of every origin that it offers the method from
    have hkeys : c.origin ∈ ((reg.offersBelow reg.size s v).map
          (ClosureEntry.through v)).map Candidate.origin ↔
        ∃ i, reg.Reaches v c.origin ∧ reg.Provides c.origin s i := by
      rw [List.map_map]
      constructor
      · intro hmem
        obtain ⟨e, he, ho⟩ := List.mem_map.1 hmem
        rw [mem_offersBelow_iff hv] at he
        have ho' : e.origin = c.origin := ho
        exact ⟨e.implementation, ho' ▸ he⟩
      · rintro ⟨i, hi⟩
        exact List.mem_map.2 ⟨⟨c.origin, i⟩, (mem_offersBelow_iff hv).2 hi, rfl⟩
    rw [hkeys]
    constructor
    · rintro (⟨hvia, hreach, hprov⟩ | ⟨hnot, hfirst, hprov⟩)
      · exact ⟨.inl ⟨hvia, hreach⟩, hprov⟩
      · exact ⟨.inr ⟨fun hreach => hnot ⟨_, hreach, hprov⟩, hfirst⟩, hprov⟩
    · rintro ⟨⟨hvia, hreach⟩ | ⟨hnot, hfirst⟩, hprov⟩
      · exact .inl ⟨hvia, hreach, hprov⟩
      · refine .inr ⟨?_, hfirst, hprov⟩
        rintro ⟨-, hreach, -⟩
        exact hnot hreach

/-- The candidates that a rule keeps, by their origins. -/
theorem mem_keptBy (h : ∀ via ∈ declared, reg.ResolvesWithin reg.size via) {c : Candidate} :
    c ∈ Candidate.keptBy keep s (reg.candidatesFor declared s) ↔
      reg.Keeps declared keep s c.origin ∧ reg.FirstReaching declared c.via c.origin ∧
        reg.Provides c.origin s c.implementation := by
  rw [Candidate.keptBy, List.mem_filter, mem_candidatesFor h]
  constructor
  · rintro ⟨⟨hfirst, hprov⟩, hkeep⟩
    exact ⟨⟨hfirst.reachedFrom, ⟨_, hprov⟩, hkeep⟩, hfirst, hprov⟩
  · rintro ⟨hkeeps, hfirst, hprov⟩
    exact ⟨⟨hfirst, hprov⟩, hkeeps.kept⟩

theorem exists_mem_keptBy (h : ∀ via ∈ declared, reg.ResolvesWithin reg.size via)
    (hkeeps : reg.Keeps declared keep s o) :
    ∃ c ∈ Candidate.keptBy keep s (reg.candidatesFor declared s), c.origin = o := by
  obtain ⟨via, hvia⟩ := exists_firstReaching hkeeps.reached
  obtain ⟨i, hi⟩ := hkeeps.provides
  exact ⟨⟨o, via, i⟩, (mem_keptBy h).2 ⟨hkeeps, hvia, hi⟩, rfl⟩

theorem nodup_origins_keptBy (reg : Registry) (declared : List RoleId)
    (keep : RoleId → Signature → Bool) (s : Signature) :
    ((Candidate.keptBy keep s (reg.candidatesFor declared s)).map Candidate.origin).Nodup :=
  (nodup_firstMet _).sublist (List.filter_sublist.map _)

/-! ## The checks -/

section Checks

variable {config : Config} {t : AdoptingType} {order : List RoleDefinition}
  (horder : reg.resolutionOrder t.declaredRoles = .ok order)

include horder

theorem mem_order_of_lookup {b : RoleId} {d : RoleDefinition} (hd : reg.lookup b = .ok d) :
    d ∈ order ↔ reg.ReachedFrom t.declaredRoles b := by
  have hid := id_of_lookup hd
  subst hid
  rw [mem_resolutionOrder horder]
  exact and_iff_left hd

/-- The check of storage, said of the roles that are reached. -/
theorem checkStorage_isOk : Engine.checkStorage config order = .ok () ↔
    (config.storageCheck = .atComposition →
      ∀ b d, reg.ReachedFrom t.declaredRoles b → reg.lookup b = .ok d → d.storage = []) := by
  rw [Engine.checkStorage_eq_ok]
  refine imp_congr_right fun _ => ⟨?_, ?_⟩
  · exact fun h b d hb hd => h d ((mem_order_of_lookup horder hd).2 hb)
  · intro h r hr
    obtain ⟨hreached, hd⟩ := (mem_resolutionOrder horder).1 hr
    exact h r.id r hreached hd

theorem satisfies_iff : t.satisfies order s = true ↔
    t.owns s = true ∨ ∃ o i, reg.ReachedFrom t.declaredRoles o ∧ reg.Provides o s i := by
  rw [AdoptingType.satisfies_eq_true]
  refine or_congr_right ⟨?_, ?_⟩
  · rintro ⟨r, hr, hs⟩
    obtain ⟨i, hi⟩ := SignatureMap.contains_iff.1 hs
    obtain ⟨hreached, hd⟩ := (mem_resolutionOrder horder).1 hr
    exact ⟨r.id, i, hreached, r, hd, hi⟩
  · rintro ⟨o, i, ho, d, hd, hi⟩
    exact ⟨d, (mem_order_of_lookup horder hd).2 ho, SignatureMap.contains_iff.2 ⟨i, hi⟩⟩

/-- The check of capabilities, said of the roles that are reached. -/
theorem validate_isOk : t.validate order = .ok () ↔
    ∀ b d s, reg.ReachedFrom t.declaredRoles b → reg.lookup b = .ok d →
      d.required.contains s = true →
        t.owns s = true ∨ ∃ o i, reg.ReachedFrom t.declaredRoles o ∧ reg.Provides o s i := by
  rw [AdoptingType.validate_eq_ok]
  constructor
  · intro h b d s hb hd hs
    exact (satisfies_iff horder).1 (h d ((mem_order_of_lookup horder hd).2 hb) s hs)
  · intro h r hr s hs
    obtain ⟨hreached, hd⟩ := (mem_resolutionOrder horder).1 hr
    exact (satisfies_iff horder).2 (h r.id r s hreached hd hs)

end Checks

/-- The checks before the merge pass exactly under the first four conditions. -/
theorem check_isOk {config : Config} {t : AdoptingType} :
    reg.check config t = .ok () ↔
      (∀ b, reg.ReachedFrom t.declaredRoles b → reg.contains b = true) ∧
      (∀ b, reg.ReachedFrom t.declaredRoles b → ¬ reg.OnCycle b) ∧
      (config.storageCheck = .atComposition →
        ∀ b d, reg.ReachedFrom t.declaredRoles b → reg.lookup b = .ok d → d.storage = []) ∧
      ∀ b d s, reg.ReachedFrom t.declaredRoles b → reg.lookup b = .ok d →
        d.required.contains s = true →
          t.owns s = true ∨ ∃ o i, reg.ReachedFrom t.declaredRoles o ∧ reg.Provides o s i := by
  rw [check_eq_ok, ← and_assoc, ← resolutionOrder_isOk]
  constructor
  · rintro ⟨order, horder, hstorage, hvalidate⟩
    exact ⟨⟨order, horder⟩, (checkStorage_isOk horder).1 hstorage,
      (validate_isOk horder).1 hvalidate⟩
  · rintro ⟨⟨order, horder⟩, hstoreless, hcapable⟩
    exact ⟨order, horder, (checkStorage_isOk horder).2 hstoreless,
      (validate_isOk horder).2 hcapable⟩

theorem resolvesWithin_of_check {config : Config} {t : AdoptingType}
    (h : reg.check config t = .ok ()) :
    ∀ via ∈ t.declaredRoles, reg.ResolvesWithin reg.size via := by
  obtain ⟨order, horder, -⟩ := check_eq_ok.1 h
  exact fun via hvia => resolvesWithin_of_reachedFrom horder ⟨via, hvia, .refl⟩

/-! ## The decision -/

variable {t : AdoptingType}

/-- No signature is in conflict iff of each one at most one origin is kept. -/
theorem conflicts_eq_nil (h : ∀ via ∈ t.declaredRoles, reg.ResolvesWithin reg.size via) :
    (t.tally keep (reg.offersTo t)).conflicts = [] ↔
      ∀ s, t.owns s = false → ∀ o o', reg.Keeps t.declaredRoles keep s o →
        reg.Keeps t.declaredRoles keep s o' → o = o' := by
  have hnodup := nodup_origins_keptBy reg t.declaredRoles keep
  rw [AdoptingType.tally, Tally.conflicts_foldl_settle]
  show [] ++ _ = [] ↔ _
  rw [List.nil_append, List.filterMap_eq_nil_iff]
  constructor
  · intro hnone s hs o o' ho ho'
    obtain ⟨c, hc, rfl⟩ := exists_mem_keptBy h ho
    obtain ⟨c', hc', rfl⟩ := exists_mem_keptBy h ho'
    have hfind := find?_offersTo_of_not_owns h hs
    -- a signature with an origin that is kept is offered, and so it has been settled
    have hne : reg.candidatesFor t.declaredRoles s ≠ [] := by
      intro hnil
      rw [hnil] at hc
      simp [Candidate.keptBy] at hc
    rw [present_eq_some.2 ⟨hne, rfl⟩] at hfind
    have hcount := hnone _ (SignatureMap.find?_eq_some.1 hfind)
    exact (Tally.conflict?_eq_none (hnodup s)).1 hcount c hc c' hc'
  · rintro hunique ⟨s, cs⟩ hcs
    have hfind := SignatureMap.find?_eq_some.2 hcs
    rw [find?_offersTo h] at hfind
    split_ifs at hfind with howns
    obtain ⟨-, rfl⟩ := present_eq_some.1 hfind
    refine (Tally.conflict?_eq_none (hnodup s)).2 fun c hc c' hc' => ?_
    exact hunique s (by simpa using howns) _ _ ((mem_keptBy h).1 hc).1 ((mem_keptBy h).1 hc').1

/-- A type composes exactly under the conditions. -/
theorem outcomeOf_isOk {config : Config} :
    (∃ table, reg.outcomeOf config t keep = .ok table) ↔ reg.Composable config t keep := by
  unfold outcomeOf
  cases hcheck : reg.check config t with
  | error error =>
    constructor
    · rintro ⟨table, h⟩
      cases h
    · intro hc
      have hok : reg.check config t = .ok () := check_isOk.2
        ⟨hc.registered, hc.acyclic, hc.storeless, hc.capable⟩
      rw [hcheck] at hok
      cases hok
  | ok _ =>
    obtain ⟨hreg, hacyclic, hstoreless, hcapable⟩ := check_isOk.1 hcheck
    have hr := resolvesWithin_of_check hcheck
    show (∃ table, t.outcomeOfTally (t.tally keep (reg.offersTo t)) = .ok table) ↔ _
    simp only [AdoptingType.outcomeOfTally_eq_ok, exists_and_left, exists_eq, and_true]
    rw [conflicts_eq_nil hr]
    constructor
    · exact fun h => ⟨hreg, hacyclic, hstoreless, hcapable, h⟩
    · exact fun h => h.decided

/-- The only candidate that is kept. -/
theorem selected?_eq_some {cs : List Candidate} {entry : MethodEntry} :
    Tally.selected? keep s cs = some entry ↔
      ∃ c, Candidate.keptBy keep s cs = [c] ∧
        entry = ⟨c.implementation, .role c.origin c.via⟩ := by
  unfold Tally.selected?
  rcases Candidate.keptBy keep s cs with _ | ⟨c, _ | ⟨c', cs⟩⟩ <;> simp [eq_comm]

theorem keptBy_eq_singleton (h : ∀ via ∈ declared, reg.ResolvesWithin reg.size via)
    {c : Candidate} :
    Candidate.keptBy keep s (reg.candidatesFor declared s) = [c] ↔
      reg.Keeps declared keep s c.origin ∧
        (∀ o', reg.Keeps declared keep s o' → o' = c.origin) ∧
        reg.FirstReaching declared c.via c.origin ∧ reg.Provides c.origin s c.implementation := by
  constructor
  · intro hsingle
    have hc : c ∈ Candidate.keptBy keep s (reg.candidatesFor declared s) := by
      rw [hsingle]
      exact List.mem_singleton_self c
    obtain ⟨hkeeps, hfirst, hprov⟩ := (mem_keptBy h).1 hc
    refine ⟨hkeeps, fun o' ho' => ?_, hfirst, hprov⟩
    obtain ⟨c', hc', rfl⟩ := exists_mem_keptBy h ho'
    rw [hsingle, List.mem_singleton] at hc'
    rw [hc']
  · rintro ⟨hkeeps, hunique, hfirst, hprov⟩
    have hc := (mem_keptBy h).2 ⟨hkeeps, hfirst, hprov⟩
    have hall : ∀ c' ∈ Candidate.keptBy keep s (reg.candidatesFor declared s),
        c'.origin = c.origin := fun c' hc' => hunique _ ((mem_keptBy h).1 hc').1
    rcases eq_nil_or_eq_singleton (nodup_origins_keptBy reg declared keep s)
      fun a ha b hb => (hall a ha).trans (hall b hb).symm with hk | ⟨d, hk⟩
    · rw [hk] at hc
      exact absurd hc List.not_mem_nil
    · rw [hk, List.mem_singleton] at hc
      rw [hk, hc]

/-- The table of a type that composes. -/
theorem fits_of_outcomeOf {config : Config} {table : MethodTable}
    (h : reg.outcomeOf config t keep = .ok table) : reg.Fits t keep table := by
  unfold outcomeOf at h
  cases hcheck : reg.check config t with
  | error error =>
    rw [hcheck] at h
    cases h
  | ok _ =>
    rw [hcheck] at h
    obtain ⟨-, rfl⟩ := AdoptingType.outcomeOfTally_eq_ok.1 h
    have hr := resolvesWithin_of_check hcheck
    refine ⟨rfl, ?_, ?_⟩
    · intro s i hi
      have howns : t.owns s = true := SignatureMap.contains_iff.2 ⟨i, hi⟩
      show (t.tally keep (reg.offersTo t)).entries.find? s = _
      rw [AdoptingType.find?_tally, find?_offersTo hr, if_pos howns, hi]
      rfl
    · intro s hs entry
      have hown : t.ownMethods.find? s = none := by
        rw [AdoptingType.owns, SignatureMap.contains_eq] at hs
        exact Option.isNone_iff_eq_none.1 (by simpa using hs)
      have hget : (t.tally keep (reg.offersTo t)).entries.find? s =
          Tally.selected? keep s (reg.candidatesFor t.declaredRoles s) := by
        rw [AdoptingType.find?_tally, find?_offersTo_of_not_owns hr hs, hown]
        cases reg.candidatesFor t.declaredRoles s <;> simp [Tally.selected?, Candidate.keptBy]
      show (t.tally keep (reg.offersTo t)).entries.find? s = some entry ↔ _
      rw [hget, selected?_eq_some]
      simp only [keptBy_eq_singleton hr]
      constructor
      · rintro ⟨⟨o, via, i⟩, ⟨hkeeps, hunique, hfirst, hprov⟩, rfl⟩
        exact ⟨o, via, i, hkeeps, hunique, hfirst, hprov, rfl⟩
      · rintro ⟨o, via, i, hkeeps, hunique, hfirst, hprov, rfl⟩
        exact ⟨⟨o, via, i⟩, ⟨hkeeps, hunique, hfirst, hprov⟩, rfl⟩

end RoleComposition.Registry
