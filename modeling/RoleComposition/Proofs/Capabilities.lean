import RoleComposition.Proofs.Ascending
import RoleComposition.Proofs.Deciding

/-!
# What roles require of a type

The check of capabilities looks at a type and a list of roles, and at nothing that these compose.
What it reports is complete and in order, and depends on which roles are in the list, not on where
they stand or how often. Main statements: `listsMissed_missingCapabilities`, `ListsMissed.eq` and
`validate_of_roles`.
-/

namespace RoleComposition

theorem mem_requiring {roles : List RoleDefinition} {s : Signature} {b : RoleId} :
    b ∈ requiring roles s ↔ ∃ r ∈ roles, r.required.contains s = true ∧ r.id = b := by
  unfold requiring
  rw [List.mem_map]
  simp only [List.mem_filter, and_assoc]

theorem requiring_ne_nil {roles : List RoleDefinition} {s : Signature} :
    requiring roles s ≠ [] ↔ ∃ r ∈ roles, r.required.contains s = true := by
  rw [requiring, Ne, List.map_eq_nil_iff, List.filter_eq_nil_iff]
  simp

namespace AdoptingType

variable {t : AdoptingType} {roles roles' : List RoleDefinition} {s : Signature}

/-- One of some roles requires a signature that neither the type brings nor any of these roles. -/
structure Misses (t : AdoptingType) (roles : List RoleDefinition) (s : Signature) : Prop where
  required : ∃ r ∈ roles, r.required.contains s = true
  notOwn : t.owns s = false
  notProvided : ∀ r ∈ roles, r.provided.contains s = false

/-- A list of missing capabilities is complete and in order: the signatures that are missed, each
with those of the roles that require it. -/
structure ListsMissed (t : AdoptingType) (roles : List RoleDefinition)
    (missing : List MissingCapability) : Prop where
  ascending : missing.Pairwise fun a b => a.signature < b.signature
  mem_iff : ∀ m, m ∈ missing ↔ t.Misses roles m.signature ∧ RoleId.Ascending m.requiredBy ∧
    ∀ b, b ∈ m.requiredBy ↔ ∃ r ∈ roles, r.required.contains m.signature = true ∧ r.id = b

theorem satisfies_eq_true : t.satisfies roles s = true ↔
    t.owns s = true ∨ ∃ r ∈ roles, r.provided.contains s = true := by
  rw [satisfies, Bool.or_eq_true, List.any_eq_true]

theorem satisfies_eq_false : t.satisfies roles s = false ↔
    t.owns s = false ∧ ∀ r ∈ roles, r.provided.contains s = false := by
  rw [satisfies, Bool.or_eq_false_iff, List.any_eq_false]
  simp only [Bool.not_eq_true]

theorem misses_iff :
    t.Misses roles s ↔
      (∃ r ∈ roles, r.required.contains s = true) ∧ t.satisfies roles s = false := by
  rw [satisfies_eq_false]
  exact ⟨fun h => ⟨h.required, h.notOwn, h.notProvided⟩, fun ⟨hr, hown, hnone⟩ => ⟨hr, hown, hnone⟩⟩

/-- What a list of missing capabilities holds. -/
theorem mem_missingCapabilities {m : MissingCapability} :
    m ∈ t.missingCapabilities roles ↔ t.Misses roles m.signature ∧
      m.requiredBy = RoleId.sortedSet (requiring roles m.signature) := by
  have hentry (s : Signature) (ids : List RoleId) : (s, ids) ∈ (requirers roles).toList ↔
      requiring roles s ≠ [] ∧ requiring roles s = ids := by
    rw [← SignatureMap.find?_eq_some, find?_requirers, present_eq_some]
  obtain ⟨s, by'⟩ := m
  unfold missingCapabilities SignatureMap.filter
  simp only [List.mem_map, List.mem_filter, Prod.exists, hentry, Bool.not_eq_true',
    MissingCapability.mk.injEq, misses_iff, ← requiring_ne_nil]
  constructor
  · rintro ⟨s', ids, ⟨⟨hne, rfl⟩, hs⟩, rfl, rfl⟩
    exact ⟨⟨hne, hs⟩, rfl⟩
  · rintro ⟨⟨hne, hs⟩, rfl⟩
    exact ⟨s, _, ⟨⟨hne, rfl⟩, hs⟩, rfl, rfl⟩

/-- What the check of capabilities reports is complete and in order. -/
theorem listsMissed_missingCapabilities (t : AdoptingType) (roles : List RoleDefinition) :
    t.ListsMissed roles (t.missingCapabilities roles) := by
  refine ⟨?_, fun m => ?_⟩
  · unfold missingCapabilities
    exact List.pairwise_map.2 (SignatureMap.ascending _)
  · rw [mem_missingCapabilities]
    refine and_congr_right fun _ => ⟨?_, ?_⟩
    · intro hby
      rw [hby]
      refine ⟨RoleId.ascending_sortedSet _, fun b => ?_⟩
      rw [RoleId.mem_sortedSet, mem_requiring]
    · rintro ⟨hascending, hmem⟩
      refine hascending.eq_of_mem_iff (RoleId.ascending_sortedSet _) fun b => ?_
      rw [hmem, RoleId.mem_sortedSet, mem_requiring]

theorem ListsMissed.eq {missing missing' : List MissingCapability}
    (h : t.ListsMissed roles missing) (h' : t.ListsMissed roles missing') : missing = missing' :=
  eq_of_ascending_signatures MissingCapability.signature h.ascending h'.ascending fun m =>
    (h.mem_iff m).trans (h'.mem_iff m).symm

/-- What is missed depends on which roles are listed, not on how. -/
theorem misses_congr (same : ∀ r, r ∈ roles' ↔ r ∈ roles) :
    t.Misses roles' s ↔ t.Misses roles s := by
  rw [misses_iff, misses_iff, satisfies_eq_false, satisfies_eq_false]
  simp only [same]

theorem missingCapabilities_congr (same : ∀ r, r ∈ roles' ↔ r ∈ roles) :
    t.missingCapabilities roles' = t.missingCapabilities roles := by
  have h' := t.listsMissed_missingCapabilities roles'
  refine ListsMissed.eq ⟨h'.ascending, fun m => (h'.mem_iff m).trans ?_⟩
    (t.listsMissed_missingCapabilities roles)
  simp only [misses_congr same, same]

/-- A type passes the check of capabilities iff each signature that a listed role requires is its
own or provided by a listed role, in public or not. Else the error lists all that are missed, each
with the listed roles that require it. Neither the order of the roles nor repeats make a
difference. -/
theorem validate_of_roles (t : AdoptingType) (roles : List RoleDefinition) :
    (t.validate roles = .ok () ↔ ∀ r ∈ roles, ∀ s, r.required.contains s = true →
      t.owns s = true ∨ ∃ p ∈ roles, p.provided.contains s = true) ∧
    (t.validate roles ≠ .ok () → ∃ missing, missing ≠ [] ∧ t.ListsMissed roles missing ∧
      t.validate roles = .error (.missingCapability t.name missing)) ∧
    ∀ roles', (∀ r, r ∈ roles' ↔ r ∈ roles) → t.validate roles' = t.validate roles := by
  refine ⟨?_, fun hfail => ?_, fun roles' same => ?_⟩
  · rw [validate_eq_ok]
    simp only [satisfies_eq_true]
  · have hlists := t.listsMissed_missingCapabilities roles
    refine ⟨t.missingCapabilities roles, fun hnil => ?_, hlists, ?_⟩
    · exact hfail (by simp [validate, hnil])
    · cases hrun : t.validate roles with
      | ok _ => exact absurd hrun hfail
      | error error => rw [validate_eq_error hrun]
  · unfold validate
    rw [missingCapabilities_congr same]

end AdoptingType

namespace Sample

/-- A role that requires signatures, and keeps the bodies that it provides to itself. -/
def asking (name : String) (required provided : List Signature) : RoleDefinition :=
  provided.foldl (fun r s => r.providesPrivate s (.standIn (.role ⟨name⟩) s))
    (required.foldl RoleDefinition.requires (.named ⟨name⟩))

/-- Roles of which one is named again. All ask for a bow, and one asks of the type itself what it
offers on values. -/
def household : List RoleDefinition :=
  let porter := asking "porter" [⟨.onInstance, "bow"⟩, ⟨.onType, "open"⟩] [⟨.onInstance, "open"⟩]
  [porter, asking "cook" [⟨.onInstance, "bow"⟩, ⟨.onInstance, "serve"⟩] [⟨.onInstance, "serve"⟩],
    porter]

end Sample

/-- What is provided on another level is missed, what is provided in private is not. -/
theorem validate_of_roles_household :
    let guest : AdoptingType := { name := "guest" }
    ∃ missing, guest.validate Sample.household = .error (.missingCapability "guest" missing) ∧
      guest.ListsMissed Sample.household missing ∧
      missing.map MissingCapability.signature = [⟨.onInstance, "bow"⟩, ⟨.onType, "open"⟩] ∧
      guest.validate Sample.household.tail = guest.validate Sample.household := by
  intro guest
  have hfail : guest.validate Sample.household ≠ .ok () := by decide +kernel
  have hsignatures : (guest.missingCapabilities Sample.household).map MissingCapability.signature =
      [⟨.onInstance, "bow"⟩, ⟨.onType, "open"⟩] := by
    decide +kernel
  obtain ⟨-, hmissing, hcongr⟩ := guest.validate_of_roles Sample.household
  obtain ⟨missing, -, hlists, herror⟩ := hmissing hfail
  have heq := hlists.eq (guest.listsMissed_missingCapabilities Sample.household)
  refine ⟨missing, herror, hlists, heq ▸ hsignatures, hcongr _ fun r => ?_⟩
  simp only [Sample.household, List.tail_cons, List.mem_cons, List.not_mem_nil]
  tauto

end RoleComposition
