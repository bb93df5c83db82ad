import RoleComposition.Proofs.Composability
import RoleComposition.Proofs.Revisions

/-!
# Bodies do not matter

No part of a composition looks at a method body. Definitions that differ in their bodies only come
to the same outcome: the same error, or tables that differ in their bodies only. To say so, the
outline of a definition holds one blank body in the place of each of its own, and the outcome of the
outlines is the outline of the outcome. Main statements: `outcomeOf_outline` and
`sameUpToBodies_of_outline`.
-/

namespace RoleComposition

/-- A body that stands for any. -/
def Implementation.blank : Implementation := ⟨"", .given 0, Body.placeholder⟩

/-- The same signatures, without their bodies. -/
def SignatureMap.blanked (m : SignatureMap Implementation) : SignatureMap Implementation :=
  m.map fun _ _ => .blank

/-- The definition without its bodies. -/
def RoleDefinition.outline (r : RoleDefinition) : RoleDefinition :=
  { r with provided := r.provided.blanked }

/-- The type without its bodies. -/
def AdoptingType.outline (t : AdoptingType) : AdoptingType :=
  { t with ownMethods := t.ownMethods.blanked }

/-- The registry without the bodies of its roles, before any closure is gathered. -/
def Registry.outline (reg : Registry) : Registry :=
  ⟨reg.entries.map fun e => { definition := e.definition.outline }⟩

/-- The offer without its body. -/
def ClosureEntry.outline (e : ClosureEntry) : ClosureEntry := { e with implementation := .blank }

/-- The candidate without its body. -/
def Candidate.outline (c : Candidate) : Candidate := { c with implementation := .blank }

/-- The method without its body. -/
def MethodEntry.outline (e : MethodEntry) : MethodEntry := { e with implementation := .blank }

/-- The table without its bodies. -/
def MethodTable.outline (t : MethodTable) : MethodTable :=
  { t with entries := t.entries.map fun _ e => e.outline }

/-- Both outcomes are tables of one type with the same signatures, each with the same provider, and
so with the same digest, or both are the same error. -/
inductive SameUpToBodies : Outcome → Outcome → Prop
  | tables {table table' : MethodTable} : table'.typeName = table.typeName →
      (∀ s, (table'.get? s).map MethodEntry.provider = (table.get? s).map MethodEntry.provider) →
      table'.digest = table.digest → SameUpToBodies (.ok table) (.ok table')
  | errors (error : CompositionError) : SameUpToBodies (.error error) (.error error)

/-! ## Outlines are revisions -/

theorem RoleDefinition.revises_outline : Revises outline :=
  ⟨fun _ => rfl, fun _ => rfl, fun _ => rfl⟩

theorem Registry.outline_eq_revised (reg : Registry) :
    reg.outline = reg.revised RoleDefinition.outline := rfl

/-! ## Checks -/

theorem SignatureMap.contains_map {α β : Type} (f : Signature → α → β) (m : SignatureMap α)
    (s : Signature) : (m.map f).contains s = m.contains s := List.any_map

namespace AdoptingType

variable {t : AdoptingType}

theorem owns_outline (t : AdoptingType) (s : Signature) : t.outline.owns s = t.owns s :=
  SignatureMap.contains_map _ _ s

theorem satisfies_outline (t : AdoptingType) (roles : List RoleDefinition) (s : Signature) :
    t.outline.satisfies (roles.map RoleDefinition.outline) s = t.satisfies roles s := by
  have hprovided (r : RoleDefinition) : r.outline.provided.contains s = r.provided.contains s :=
    SignatureMap.contains_map _ _ s
  unfold satisfies
  rw [owns_outline, List.any_map]
  simp only [Function.comp_def, hprovided]

theorem validate_outline (t : AdoptingType) (roles : List RoleDefinition) :
    t.outline.validate (roles.map RoleDefinition.outline) = t.validate roles := by
  have hrequirers : requirers (roles.map RoleDefinition.outline) = requirers roles :=
    List.foldl_map
  unfold validate missingCapabilities
  rw [hrequirers]
  simp only [satisfies_outline]
  rfl

end AdoptingType

theorem Registry.check_outline (reg : Registry) (config : Config) (t : AdoptingType) :
    reg.outline.check config t.outline = reg.check config t := by
  unfold check
  rw [show t.outline.declaredRoles = t.declaredRoles from rfl, outline_eq_revised,
    resolutionOrder_revised RoleDefinition.revises_outline]
  cases reg.resolutionOrder t.declaredRoles with
  | error error => rfl
  | ok order =>
    show (do
      Engine.checkStorage config (order.map RoleDefinition.outline)
      t.outline.validate (order.map RoleDefinition.outline)) = _
    rw [Engine.checkStorage_map_of_revises RoleDefinition.revises_outline,
      AdoptingType.validate_outline]
    rfl

/-! ## Offers -/

theorem map_present {α β : Type} (f : α → β) (l : List α) :
    (present l).map (List.map f) = present (l.map f) := by
  cases l <;> rfl

namespace Registry

variable {reg : Registry} {t : AdoptingType}

theorem offer_outline (reg : Registry) (s : Signature) (id : RoleId) :
    reg.outline.offer s id = (reg.offer s id).map ClosureEntry.outline := by
  unfold offer
  rw [outline_eq_revised, lookup_revised RoleDefinition.revises_outline]
  cases reg.lookup id with
  | error error => rfl
  | ok d =>
    show (d.provided.blanked.find? s).map _ = ((d.provided.find? s).map _).map _
    rw [SignatureMap.blanked, SignatureMap.find?_map]
    cases d.provided.find? s <;> rfl

theorem candidatesFor_outline (reg : Registry) (declared : List RoleId) (s : Signature) :
    reg.outline.candidatesFor declared s =
      (reg.candidatesFor declared s).map Candidate.outline := by
  have hbelow (via : RoleId) :
      (reg.outline.offersBelow reg.size s via).map (ClosureEntry.through via) =
        ((reg.offersBelow reg.size s via).map (ClosureEntry.through via)).map
          Candidate.outline := by
    unfold offersBelow
    rw [funext (offer_outline reg s), outline_eq_revised,
      walk_revised RoleDefinition.revises_outline, ← List.map_filterMap, List.map_map, List.map_map]
    rfl
  have same (c : Candidate) : c.outline.origin = c.origin := rfl
  have hsize : reg.outline.size = reg.size := reg.size_revised _
  unfold candidatesFor
  rw [hsize, map_firstMet same, List.map_flatMap, funext hbelow]

theorem offersTo_outline
    (h : ∀ via ∈ t.declaredRoles, reg.ResolvesWithin reg.size via)
    (h' : ∀ via ∈ t.outline.declaredRoles, reg.outline.ResolvesWithin reg.outline.size via) :
    reg.outline.offersTo t.outline =
      (reg.offersTo t).map fun _ cs => cs.map Candidate.outline := by
  refine SignatureMap.ext_find? fun s => ?_
  rw [SignatureMap.find?_map, find?_offersTo h, find?_offersTo h',
    AdoptingType.owns_outline]
  split_ifs
  · rfl
  · rw [map_present, ← candidatesFor_outline]
    rfl

end Registry

/-! ## Decisions -/

namespace Tally

variable {keep : RoleId → Signature → Bool}

theorem keptBy_outline (keep : RoleId → Signature → Bool) (s : Signature) (cs : List Candidate) :
    Candidate.keptBy keep s (cs.map Candidate.outline) =
      (Candidate.keptBy keep s cs).map Candidate.outline := List.filter_map

theorem conflict?_outline (keep : RoleId → Signature → Bool) (s : Signature)
    (cs : List Candidate) :
    conflict? keep (s, cs.map Candidate.outline) = conflict? keep (s, cs) := by
  unfold conflict?
  rw [keptBy_outline]
  rcases Candidate.keptBy keep s cs with _ | ⟨c, _ | ⟨c', kept⟩⟩
  · rfl
  · rfl
  · simp [Function.comp_def, Candidate.outline]

theorem selected?_outline (keep : RoleId → Signature → Bool) (s : Signature)
    (cs : List Candidate) :
    selected? keep s (cs.map Candidate.outline) =
      (selected? keep s cs).map MethodEntry.outline := by
  unfold selected?
  rw [keptBy_outline]
  rcases Candidate.keptBy keep s cs with _ | ⟨c, _ | ⟨c', kept⟩⟩ <;> rfl

end Tally

namespace AdoptingType

variable {t : AdoptingType} {keep : RoleId → Signature → Bool}

theorem conflicts_tally_outline (t : AdoptingType) (keep : RoleId → Signature → Bool)
    (offers : Offers) :
    (t.outline.tally keep (offers.map fun _ cs => cs.map Candidate.outline)).conflicts =
      (t.tally keep offers).conflicts := by
  unfold tally
  rw [Tally.conflicts_foldl_settle, Tally.conflicts_foldl_settle]
  show [] ++ List.filterMap _ (List.map _ _) = [] ++ _
  rw [List.filterMap_map]
  congr 2
  funext offer
  exact Tally.conflict?_outline keep offer.1 offer.2

theorem entries_tally_outline (t : AdoptingType) (keep : RoleId → Signature → Bool)
    (offers : Offers) :
    (t.outline.tally keep (offers.map fun _ cs => cs.map Candidate.outline)).entries =
      (t.tally keep offers).entries.map fun _ e => e.outline := by
  refine SignatureMap.ext_find? fun s => ?_
  have hown : (t.outline.ownMethods.find? s).map (fun i => MethodEntry.mk i .own) =
      ((t.ownMethods.find? s).map fun i => MethodEntry.mk i .own).map MethodEntry.outline := by
    show (t.ownMethods.blanked.find? s).map _ = _
    rw [SignatureMap.blanked, SignatureMap.find?_map]
    cases t.ownMethods.find? s <;> rfl
  rw [SignatureMap.find?_map, find?_tally, find?_tally, SignatureMap.find?_map, hown]
  cases offers.find? s with
  | none => rfl
  | some cs =>
    show (Tally.selected? keep s (cs.map Candidate.outline)).or _ = _
    rw [Tally.selected?_outline, ← Option.map_or]
    rfl

theorem outcomeOfTally_outline (t : AdoptingType) {tally tally' : Tally}
    (hconflicts : tally'.conflicts = tally.conflicts)
    (hentries : tally'.entries = tally.entries.map fun _ e => e.outline) :
    t.outline.outcomeOfTally tally' = (t.outcomeOfTally tally).map MethodTable.outline := by
  unfold outcomeOfTally
  rw [hconflicts, hentries]
  split_ifs <;> rfl

end AdoptingType

/-! ## Outcomes -/

/-- The outcome of outlines is the outline of the outcome. -/
theorem Registry.outcomeOf_outline (reg : Registry) (config : Config) (t : AdoptingType)
    (keep : RoleId → Signature → Bool) :
    reg.outline.outcomeOf config t.outline keep =
      (reg.outcomeOf config t keep).map MethodTable.outline := by
  have hsame := check_outline reg config t
  unfold outcomeOf
  cases hcheck : reg.check config t with
  | error error =>
    rw [hsame, hcheck]
    rfl
  | ok _ =>
    rw [hcheck] at hsame
    rw [hsame, offersTo_outline (resolvesWithin_of_check hcheck) (resolvesWithin_of_check hsame)]
    exact t.outcomeOfTally_outline (t.conflicts_tally_outline keep _)
      (t.entries_tally_outline keep _)

theorem MethodTable.digest_outline (table : MethodTable) : table.outline.digest = table.digest := by
  have hprovenance : table.outline.provenance = table.provenance :=
    List.flatMap_map _ _ table.entries.toList
  unfold digest provenanceBytes
  rw [hprovenance]

/-- Outcomes with the same outline differ in their bodies only. -/
theorem sameUpToBodies_of_outline {outcome outcome' : Outcome}
    (h : outcome'.map MethodTable.outline = outcome.map MethodTable.outline) :
    SameUpToBodies outcome outcome' := by
  cases outcome with
  | error error =>
    cases outcome' with
    | error error' =>
      obtain rfl := Except.error.inj h
      exact .errors _
    | ok table' => cases h
  | ok table =>
    cases outcome' with
    | error error' => cases h
    | ok table' =>
      have heq : table'.outline = table.outline := Except.ok.inj h
      have hname : table'.outline.typeName = table.outline.typeName := by rw [heq]
      refine .tables hname (fun s => ?_) ?_
      · have hs := congrArg (fun table => (table.get? s).map MethodEntry.provider) heq
        have hget (table : MethodTable) : table.outline.get? s =
            (table.get? s).map MethodEntry.outline := SignatureMap.find?_map _ _ _
        simp only [hget, Option.map_map] at hs
        exact hs
      · rw [← table'.digest_outline, heq, table.digest_outline]

end RoleComposition
