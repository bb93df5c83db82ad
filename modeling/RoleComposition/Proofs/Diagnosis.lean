import RoleComposition.Proofs.Composability

/-!
# Why a type does not compose

The stages of a merge fail in a fixed order: the roles do not resolve, one of them brings storage,
a required signature is not there, or signatures are contested. `Diagnosis` says of an error that
it comes from the first stage that fails, and that it lists all that this stage has found. Main
statements: `diagnosis_of_outcomeOf`, and `ListsMissing.eq` with `ListsConflicts.eq` (such a list is
determined by what the declared roles reach).
-/

namespace RoleComposition

namespace Registry

/-- A registered role requires a signature. -/
def Requires (reg : Registry) (b : RoleId) (s : Signature) : Prop :=
  ∃ d, reg.lookup b = .ok d ∧ d.required.contains s = true

/-- What some roots reach is registered and lies on no cycle. -/
structure Resolves (reg : Registry) (roots : List RoleId) : Prop where
  registered : ∀ b, reg.ReachedFrom roots b → reg.contains b = true
  acyclic : ∀ b, reg.ReachedFrom roots b → ¬ reg.OnCycle b

/-- Where the check of storage is left to composition, no role that some roots reach has any. -/
def Storeless (reg : Registry) (config : Config) (roots : List RoleId) : Prop :=
  config.storageCheck = .atComposition →
    ∀ b d, reg.ReachedFrom roots b → reg.lookup b = .ok d → d.storage = []

/-- A role that a type reaches requires a signature which neither the type brings nor any role that
it reaches. -/
structure Lacks (reg : Registry) (t : AdoptingType) (s : Signature) : Prop where
  required : ∃ b, reg.ReachedFrom t.declaredRoles b ∧ reg.Requires b s
  notOwn : t.owns s = false
  notProvided : ∀ o i, reg.ReachedFrom t.declaredRoles o → ¬ reg.Provides o s i

/-- Of a signature that is not the type's own, a rule keeps more than one origin. -/
structure Contested (reg : Registry) (t : AdoptingType) (keep : RoleId → Signature → Bool)
    (s : Signature) : Prop where
  notOwn : t.owns s = false
  several : ∃ o o', reg.Keeps t.declaredRoles keep s o ∧ reg.Keeps t.declaredRoles keep s o' ∧
    o ≠ o'

/-- A list of missing capabilities is complete and in order: the signatures that a type lacks, each
with the roles that it reaches and that require it. -/
structure ListsMissing (reg : Registry) (t : AdoptingType) (missing : List MissingCapability) :
    Prop where
  ascending : missing.Pairwise fun a b => a.signature < b.signature
  mem_iff : ∀ m, m ∈ missing ↔ reg.Lacks t m.signature ∧ RoleId.Ascending m.requiredBy ∧
    ∀ b, b ∈ m.requiredBy ↔ reg.ReachedFrom t.declaredRoles b ∧ reg.Requires b m.signature

/-- A list of conflicts is complete and in order: the contested signatures, each with the origins
of which a rule keeps it. -/
structure ListsConflicts (reg : Registry) (t : AdoptingType) (keep : RoleId → Signature → Bool)
    (conflicts : List SignatureConflict) : Prop where
  ascending : conflicts.Pairwise fun a b => a.signature < b.signature
  mem_iff : ∀ c, c ∈ conflicts ↔ reg.Contested t keep c.signature ∧ RoleId.Ascending c.roles ∧
    ∀ o, o ∈ c.roles ↔ reg.Keeps t.declaredRoles keep c.signature o

/-- An error is that of the first stage which fails, with all that this stage finds. -/
inductive Diagnosis (reg : Registry) (config : Config) (t : AdoptingType)
    (keep : RoleId → Signature → Bool) : CompositionError → Prop
  | unresolved {error : CompositionError} :
      ¬ reg.Resolves t.declaredRoles → reg.Faulty t.declaredRoles error →
      Diagnosis reg config t keep error
  | storage {before after : List RoleDefinition} {role : RoleDefinition} :
      reg.Resolves t.declaredRoles → config.storageCheck = .atComposition →
      reg.resolutionOrder t.declaredRoles = .ok (before ++ role :: after) →
      (∀ r ∈ before, r.storage = []) → role.storage ≠ [] →
      Diagnosis reg config t keep (.storageExtension role.id role.storage)
  | incapable {missing : List MissingCapability} :
      reg.Resolves t.declaredRoles → reg.Storeless config t.declaredRoles →
      (∃ s, reg.Lacks t s) → reg.ListsMissing t missing →
      Diagnosis reg config t keep (.missingCapability t.name missing)
  | conflict {conflicts : List SignatureConflict} :
      reg.Resolves t.declaredRoles → reg.Storeless config t.declaredRoles →
      (∀ s, ¬ reg.Lacks t s) → (∃ s, reg.Contested t keep s) →
      reg.ListsConflicts t keep conflicts →
      Diagnosis reg config t keep (.roleConflict (.type t.name) conflicts)

end Registry

/-! ## Checks over a list of roles -/

/-- The role that fails a check over several roles is the first that does. -/
theorem forM_eq_error {α : Type} {f : α → Except CompositionError Unit} {l : List α}
    {error : CompositionError} (h : l.forM f = .error error) :
    ∃ before a after, l = before ++ a :: after ∧ (∀ b ∈ before, f b = .ok ()) ∧
      f a = .error error := by
  induction l with
  | nil => cases h
  | cons a l ih =>
    rw [forM_cons] at h
    cases ha : f a with
    | error error' =>
      rw [ha] at h
      cases h
      exact ⟨[], a, l, rfl, by simp, ha⟩
    | ok _ =>
      rw [ha] at h
      obtain ⟨before, b, after, rfl, hbefore, hb⟩ := ih h
      exact ⟨a :: before, b, after, rfl, List.forall_mem_cons.2 ⟨ha, hbefore⟩, hb⟩

/-- The role whose storage is refused is the first of the list that has any. -/
theorem Engine.exists_storage_of_checkStorage {config : Config} {roles : List RoleDefinition}
    {error : CompositionError} (h : Engine.checkStorage config roles = .error error) :
    config.storageCheck = .atComposition ∧ ∃ before role after,
      roles = before ++ role :: after ∧ (∀ r ∈ before, r.storage = []) ∧ role.storage ≠ [] ∧
        error = .storageExtension role.id role.storage := by
  unfold Engine.checkStorage at h
  cases hconfig : config.storageCheck with
  | atRegistration =>
    rw [hconfig] at h
    cases h
  | atComposition =>
    rw [hconfig] at h
    obtain ⟨before, role, after, hroles, hbefore, hrole⟩ := forM_eq_error h
    obtain ⟨hstorage, herror⟩ := RoleDefinition.checkStorage_eq_error hrole
    exact ⟨rfl, before, role, after, hroles,
      fun r hr => RoleDefinition.checkStorage_eq_ok.1 (hbefore r hr), hstorage, herror⟩

namespace Registry

variable {reg : Registry} {config : Config} {t : AdoptingType} {keep : RoleId → Signature → Bool}

/-! ## Lists are determined by what they list -/

theorem ListsMissing.eq {missing missing' : List MissingCapability}
    (h : reg.ListsMissing t missing) (h' : reg.ListsMissing t missing') : missing = missing' :=
  eq_of_ascending_signatures MissingCapability.signature h.ascending h'.ascending fun m =>
    (h.mem_iff m).trans (h'.mem_iff m).symm

theorem ListsConflicts.eq {conflicts conflicts' : List SignatureConflict}
    (h : reg.ListsConflicts t keep conflicts) (h' : reg.ListsConflicts t keep conflicts') :
    conflicts = conflicts' :=
  eq_of_ascending_signatures SignatureConflict.signature h.ascending h'.ascending fun c =>
    (h.mem_iff c).trans (h'.mem_iff c).symm

/-! ## Stages -/

theorem resolutionOrder_isOk_iff_resolves {roots : List RoleId} :
    (∃ order, reg.resolutionOrder roots = .ok order) ↔ reg.Resolves roots :=
  resolutionOrder_isOk.trans ⟨fun h => ⟨h.1, h.2⟩, fun h => ⟨h.registered, h.acyclic⟩⟩

/-- Whatever the reached roles require is there iff the type lacks nothing. -/
theorem capable_iff_not_lacks :
    (∀ b d s, reg.ReachedFrom t.declaredRoles b → reg.lookup b = .ok d →
      d.required.contains s = true →
        t.owns s = true ∨ ∃ o i, reg.ReachedFrom t.declaredRoles o ∧ reg.Provides o s i) ↔
      ∀ s, ¬ reg.Lacks t s := by
  constructor
  · rintro h s ⟨⟨b, hb, d, hd, hs⟩, hown, hnone⟩
    rcases h b d s hb hd hs with howns | ⟨o, i, ho, hi⟩
    · rw [hown] at howns
      cases howns
    · exact hnone o i ho hi
  · intro h b d s hb hd hs
    by_contra hnot
    rw [not_or] at hnot
    exact h s ⟨⟨b, hb, d, hd, hs⟩, by simpa using hnot.1, fun o i ho hi => hnot.2 ⟨o, i, ho, hi⟩⟩

/-- At most one origin of each signature is kept iff none is contested. -/
theorem decided_iff_not_contested :
    (∀ s, t.owns s = false → ∀ o o', reg.Keeps t.declaredRoles keep s o →
      reg.Keeps t.declaredRoles keep s o' → o = o') ↔ ∀ s, ¬ reg.Contested t keep s := by
  constructor
  · rintro h s ⟨hs, o, o', ho, ho', hne⟩
    exact hne (h s hs o o' ho ho')
  · intro h s hs o o' ho ho'
    by_contra hne
    exact h s ⟨hs, o, o', ho, ho', hne⟩

/-- The conditions under which a type composes, stage by stage. -/
theorem composable_iff :
    reg.Composable config t keep ↔ reg.Resolves t.declaredRoles ∧
      reg.Storeless config t.declaredRoles ∧ (∀ s, ¬ reg.Lacks t s) ∧
        ∀ s, ¬ reg.Contested t keep s := by
  constructor
  · intro h
    exact ⟨⟨h.registered, h.acyclic⟩, h.storeless, capable_iff_not_lacks.1 h.capable,
      decided_iff_not_contested.1 h.decided⟩
  · rintro ⟨hres, hstore, hcap, hdec⟩
    exact ⟨hres.registered, hres.acyclic, hstore, capable_iff_not_lacks.2 hcap,
      decided_iff_not_contested.2 hdec⟩

/-- The checks before the hook is asked pass exactly if the first three stages do. -/
theorem check_eq_ok_iff :
    reg.check config t = .ok () ↔ reg.Resolves t.declaredRoles ∧
      reg.Storeless config t.declaredRoles ∧ ∀ s, ¬ reg.Lacks t s := by
  rw [check_isOk, ← capable_iff_not_lacks]
  constructor
  · rintro ⟨hreg, hacyclic, hstore, hcap⟩
    exact ⟨⟨hreg, hacyclic⟩, hstore, hcap⟩
  · rintro ⟨hres, hstore, hcap⟩
    exact ⟨hres.registered, hres.acyclic, hstore, hcap⟩

section Order

variable {order : List RoleDefinition} (horder : reg.resolutionOrder t.declaredRoles = .ok order)

include horder

theorem exists_requiring_iff {s : Signature} {b : RoleId} :
    (∃ r ∈ order, r.required.contains s = true ∧ r.id = b) ↔
      reg.ReachedFrom t.declaredRoles b ∧ reg.Requires b s := by
  constructor
  · rintro ⟨r, hr, hs, rfl⟩
    obtain ⟨hreached, hd⟩ := (mem_resolutionOrder horder).1 hr
    exact ⟨hreached, r, hd, hs⟩
  · rintro ⟨hreached, d, hd, hs⟩
    exact ⟨d, (mem_order_of_lookup horder hd).2 hreached, hs, id_of_lookup hd⟩

/-- What a type lacks is what it misses among the roles that it resolves to. -/
theorem lacks_iff {s : Signature} : reg.Lacks t s ↔ t.Misses order s := by
  have hsome : (∃ r ∈ order, r.required.contains s = true) ↔
      ∃ b, reg.ReachedFrom t.declaredRoles b ∧ reg.Requires b s := by
    simp only [← exists_requiring_iff horder]
    exact ⟨fun ⟨r, hr, hs⟩ => ⟨r.id, r, hr, hs, rfl⟩, fun ⟨_, r, hr, hs, _⟩ => ⟨r, hr, hs⟩⟩
  rw [AdoptingType.misses_iff, hsome, ← Bool.not_eq_true, satisfies_iff horder, not_or,
    Bool.not_eq_true]
  constructor
  · rintro ⟨hrequired, hown, hnone⟩
    exact ⟨hrequired, hown, fun ⟨o, i, ho, hi⟩ => hnone o i ho hi⟩
  · rintro ⟨hrequired, hown, hnone⟩
    exact ⟨hrequired, hown, fun o i ho hi => hnone ⟨o, i, ho, hi⟩⟩

/-- What the check of capabilities reports is complete and in order. -/
theorem listsMissing_missingCapabilities : reg.ListsMissing t (t.missingCapabilities order) := by
  have h := t.listsMissed_missingCapabilities order
  refine ⟨h.ascending, fun m => (h.mem_iff m).trans ?_⟩
  simp only [lacks_iff horder, exists_requiring_iff horder]

end Order

/-! ## Conflicts -/

theorem mem_origins_keptBy {declared : List RoleId} {s : Signature} {o : RoleId}
    (h : ∀ via ∈ declared, reg.ResolvesWithin reg.size via) :
    o ∈ (Candidate.keptBy keep s (reg.candidatesFor declared s)).map Candidate.origin ↔
      reg.Keeps declared keep s o := by
  rw [List.mem_map]
  constructor
  · rintro ⟨c, hc, rfl⟩
    exact ((mem_keptBy h).1 hc).1
  · exact exists_mem_keptBy h

/-- A conflict names its signature and the origins that are kept, in order. -/
theorem eq_of_conflict? {s : Signature} {cs : List Candidate} {c : SignatureConflict}
    (h : Tally.conflict? keep (s, cs) = some c) :
    c = ⟨s, RoleId.sort ((Candidate.keptBy keep s cs).map Candidate.origin)⟩ := by
  unfold Tally.conflict? at h
  rcases hk : Candidate.keptBy keep s cs with _ | ⟨d, _ | ⟨d', ds⟩⟩
  · simp [hk] at h
  · simp [hk] at h
  · simp only [hk, Option.some.injEq] at h
    exact h.symm

/-- A signature that is offered comes with one candidate of each role that provides it. -/
theorem mem_offersTo (h : ∀ via ∈ t.declaredRoles, reg.ResolvesWithin reg.size via) {s : Signature}
    {cs : List Candidate} :
    (s, cs) ∈ (reg.offersTo t).toList ↔
      t.owns s = false ∧ cs ≠ [] ∧ cs = reg.candidatesFor t.declaredRoles s := by
  rw [← SignatureMap.find?_eq_some, find?_offersTo h]
  split_ifs with howns
  · simp [howns]
  · rw [present_eq_some]
    constructor
    · rintro ⟨hne, rfl⟩
      exact ⟨by simpa using howns, hne, rfl⟩
    · rintro ⟨-, hne, rfl⟩
      exact ⟨hne, rfl⟩

/-- A contested signature is offered, and settling the offers finds the conflict. -/
theorem contested_iff {s : Signature}
    (h : ∀ via ∈ t.declaredRoles, reg.ResolvesWithin reg.size via) :
    reg.Contested t keep s ↔
      ∃ cs, (s, cs) ∈ (reg.offersTo t).toList ∧ Tally.conflict? keep (s, cs) ≠ none := by
  have hnodup := nodup_origins_keptBy reg t.declaredRoles keep s
  constructor
  · rintro ⟨hs, o, o', ho, ho', hne⟩
    obtain ⟨c, hc, rfl⟩ := exists_mem_keptBy h ho
    obtain ⟨c', hc', rfl⟩ := exists_mem_keptBy h ho'
    refine ⟨_, (mem_offersTo h).2 ⟨hs, List.ne_nil_of_mem (List.mem_filter.1 hc).1, rfl⟩, ?_⟩
    intro hnone
    exact hne ((Tally.conflict?_eq_none hnodup).1 hnone c hc c' hc')
  · rintro ⟨cs, hcs, hsome⟩
    obtain ⟨hs, -, rfl⟩ := (mem_offersTo h).1 hcs
    refine ⟨hs, ?_⟩
    by_contra hnone
    refine hsome ((Tally.conflict?_eq_none hnodup).2 fun c hc c' hc' => ?_)
    by_contra hne
    exact hnone ⟨_, _, ((mem_keptBy h).1 hc).1, ((mem_keptBy h).1 hc').1, hne⟩

/-- The conflicts that settling the offers comes to are complete and in order. -/
theorem listsConflicts_tally (h : ∀ via ∈ t.declaredRoles, reg.ResolvesWithin reg.size via) :
    reg.ListsConflicts t keep (t.tally keep (reg.offersTo t)).conflicts := by
  have hconflicts : (t.tally keep (reg.offersTo t)).conflicts =
      (reg.offersTo t).toList.filterMap (Tally.conflict? keep) :=
    Tally.conflicts_foldl_settle keep _ _
  rw [hconflicts]
  refine ⟨?_, fun c => ?_⟩
  · refine List.Pairwise.filterMap _ ?_ (reg.offersTo t).ascending
    rintro ⟨s, cs⟩ ⟨s', cs'⟩ hss' c hc c' hc'
    rw [eq_of_conflict? hc, eq_of_conflict? hc']
    exact hss'
  · rw [List.mem_filterMap, contested_iff h]
    have hnodup := nodup_origins_keptBy reg t.declaredRoles keep
    constructor
    · rintro ⟨⟨s, cs⟩, hcs, hc⟩
      obtain ⟨-, -, rfl⟩ := (mem_offersTo h).1 hcs
      rw [eq_of_conflict? hc]
      refine ⟨⟨_, hcs, by simp [hc]⟩, RoleId.ascending_sort (hnodup s), fun o => ?_⟩
      rw [RoleId.mem_sort, mem_origins_keptBy h]
    · rintro ⟨⟨cs, hcs, hsome⟩, hascending, hmem⟩
      obtain ⟨-, -, rfl⟩ := (mem_offersTo h).1 hcs
      obtain ⟨c', hc'⟩ := Option.ne_none_iff_exists'.1 hsome
      have hroles : c.roles = c'.roles := by
        rw [eq_of_conflict? hc']
        refine hascending.eq_of_mem_iff (RoleId.ascending_sort (hnodup _)) fun o => ?_
        rw [hmem, RoleId.mem_sort, mem_origins_keptBy h]
      refine ⟨_, hcs, hc'.trans (congrArg some ?_)⟩
      have hsignature : c'.signature = c.signature := by rw [eq_of_conflict? hc']
      obtain ⟨s, roles⟩ := c
      obtain ⟨s', roles'⟩ := c'
      cases hsignature
      cases hroles
      rfl

/-! ## The diagnosis -/

/-- The error of a type that does not compose. -/
theorem diagnosis_of_outcomeOf {error : CompositionError}
    (h : reg.outcomeOf config t keep = .error error) : reg.Diagnosis config t keep error := by
  unfold outcomeOf at h
  cases hcheck : reg.check config t with
  | error error' =>
    rw [hcheck] at h
    cases h
    rcases check_eq_error hcheck with horder | ⟨order, horder, hstage⟩
    · refine .unresolved (fun hres => ?_) (faulty_of_resolutionOrder horder)
      obtain ⟨order, hok⟩ := resolutionOrder_isOk_iff_resolves.2 hres
      rw [horder] at hok
      cases hok
    · have hres := resolutionOrder_isOk_iff_resolves.1 ⟨order, horder⟩
      rcases hstage with hstorage | ⟨hstorage, hvalidate⟩
      · obtain ⟨hconfig, before, role, after, rfl, hbefore, hrole, rfl⟩ :=
          Engine.exists_storage_of_checkStorage hstorage
        exact .storage hres hconfig horder hbefore hrole
      · rw [AdoptingType.validate_eq_error hvalidate]
        refine .incapable hres ((checkStorage_isOk horder).1 hstorage) ?_
          (listsMissing_missingCapabilities horder)
        -- a check that fails has found something
        by_contra hnone
        have hcapable := (validate_isOk horder).2
          (capable_iff_not_lacks.2 fun s hs => hnone ⟨s, hs⟩)
        rw [hvalidate] at hcapable
        cases hcapable
  | ok _ =>
    rw [hcheck] at h
    obtain ⟨hres, hstore, hcap⟩ := check_eq_ok_iff.1 hcheck
    have hwithin := resolvesWithin_of_check hcheck
    replace h : t.outcomeOfTally (t.tally keep (reg.offersTo t)) = .error error := h
    unfold AdoptingType.outcomeOfTally at h
    split_ifs at h with hempty
    cases h
    refine .conflict hres hstore hcap ?_ (listsConflicts_tally hwithin)
    by_contra hnone
    have hnil : (t.tally keep (reg.offersTo t)).conflicts = [] := (conflicts_eq_nil hwithin).2
      (decided_iff_not_contested.2 fun s hs => hnone ⟨s, hs⟩)
    rw [hnil] at hempty
    exact hempty rfl

end Registry

end RoleComposition
