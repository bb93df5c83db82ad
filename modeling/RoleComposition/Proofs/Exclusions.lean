import RoleComposition.Proofs.Audits
import RoleComposition.Proofs.Promptness
import RoleComposition.Proofs.Registering
import RoleComposition.Proofs.Revisions

/-!
# Excluded methods

A hook that excludes methods lets a type come to what it would come to if the roles did not provide
them, so long as what the roles require is there either way. Candidates are thinned out by their
origins, and so it does not matter whether the excluded ones are left out before or after those that
are met again. Main statements: `candidatesFor_without` and `outcome_of_excluded`.
-/

namespace RoleComposition

/-- The definition without the methods of the role that are excluded. -/
def RoleDefinition.without (r : RoleDefinition) (x : Exclusions) : RoleDefinition :=
  { r with
    provided := r.provided.filter fun s _ => x.keeps r.id s
    publics := r.publics.filter fun s _ => x.keeps r.id s }

/-- If the roles that a type declares resolve and get past the check of storage, then all that they
require is there. -/
def Registry.Capable (reg : Registry) (config : Config) (t : AdoptingType) : Prop :=
  ∀ order, reg.resolutionOrder t.declaredRoles = .ok order →
    Engine.checkStorage config order = .ok () → t.validate order = .ok ()

/-! ## Thinning out -/

/-- It does not matter whether elements are left out by their keys before or after those with a key
that has been met. -/
theorem filter_keepNew {α κ : Type} [DecidableEq κ] {key : α → κ} (p : κ → Bool) (held l : List α) :
    (keepNew key held l).filter (fun a => p (key a)) =
      keepNew key (held.filter fun a => p (key a)) (l.filter fun a => p (key a)) := by
  induction l generalizing held with
  | nil => rfl
  | cons a l ih =>
    have hkeep : (held ++ [a]).filter (fun a => p (key a)) =
        (held.filter fun a => p (key a)) ++ bif p (key a) then [a] else [] := by
      rw [List.filter_append, List.filter_singleton]
    rw [keepNew_cons, List.filter_cons]
    cases hp : p (key a) with
    | false =>
      rw [hp, cond_false, List.append_nil] at hkeep
      rw [if_neg Bool.false_ne_true]
      split_ifs
      · exact ih held
      · rw [ih, hkeep]
    | true =>
      rw [hp, cond_true] at hkeep
      -- an element with the key of one that stays would have stayed as well
      have hmet : key a ∈ (held.filter fun a => p (key a)).map key ↔ key a ∈ held.map key := by
        simp only [List.mem_map, List.mem_filter]
        exact exists_congr fun b => ⟨fun h => ⟨h.1.1, h.2⟩, fun h => ⟨⟨h.1, h.2 ▸ hp⟩, h.2⟩⟩
      rw [if_pos rfl, keepNew_cons]
      split_ifs with hold hold' hold'
      · exact ih held
      · exact absurd (hmet.2 hold) hold'
      · exact absurd (hmet.1 hold') hold
      · rw [ih, hkeep]

theorem filter_firstMet {α κ : Type} [DecidableEq κ] {key : α → κ} (p : κ → Bool) (l : List α) :
    (firstMet key l).filter (fun a => p (key a)) = firstMet key (l.filter fun a => p (key a)) :=
  filter_keepNew p [] l

/-- What is left of a list that is held is held if anything is left. -/
theorem filter_map_present {α : Type} {f : List α → List α} (hf : f [] = []) (l : List α) :
    ((present l).map f).filter (fun l => !l.isEmpty) = present (f l) := by
  cases l with
  | nil => rw [hf]; rfl
  | cons a l =>
    show (some (f (a :: l))).filter _ = _
    cases f (a :: l) <;> rfl

/-! ## Roles without excluded methods -/

theorem RoleDefinition.revises_without (x : Exclusions) : Revises (·.without x) :=
  ⟨fun _ => rfl, fun _ => rfl, fun _ => rfl⟩

/-- Without the excluded methods, what is left in public still has a body. -/
theorem RoleDefinition.validate_without {d : RoleDefinition} (h : d.validate = .ok ())
    (x : Exclusions) : (d.without x).validate = .ok () := by
  obtain ⟨hbacked, hacyclic⟩ := validate_eq_ok.1 h
  refine validate_eq_ok.2 ⟨fun s hs => ?_, hacyclic⟩
  obtain ⟨⟨s, u⟩, hpublic, rfl⟩ := List.mem_map.1 hs
  obtain ⟨hpublic, hkeeps⟩ := List.mem_filter.1 hpublic
  obtain ⟨i, hi⟩ := SignatureMap.contains_iff.1 (hbacked s (List.mem_map_of_mem hpublic))
  refine SignatureMap.contains_iff.2 ⟨i, ?_⟩
  show (d.provided.filter fun s _ => x.keeps d.id s).find? s = some i
  rw [SignatureMap.find?_filter, hi, Option.filter_some, if_pos hkeeps]

namespace RegistryBuilder

/-- Roles that can be registered can be registered without the excluded methods. -/
theorem roles_registerEach_without {b : RegistryBuilder} {ds : List RoleDefinition}
    (hempty : b.roles = []) (hids : (ds.map RoleDefinition.id).Nodup)
    (hadmits : ∀ d ∈ ds, b.admits d = true) (x : Exclusions) :
    (b.registerEach (ds.map (·.without x))).roles =
      (b.registerEach ds).roles.map (·.without x) := by
  have hnew (d : RoleDefinition) : b.contains d.id = false := by
    unfold contains
    rw [hempty]
    rfl
  have hids' : ((ds.map (·.without x)).map RoleDefinition.id).Nodup := by
    rw [List.map_map]
    exact hids
  have hadmits' : ∀ d ∈ ds.map (·.without x), b.admits d = true := by
    refine List.forall_mem_map.2 fun d hd => ?_
    obtain ⟨hvalid, hstorage⟩ := admits_iff.1 (hadmits d hd)
    exact admits_iff.2 ⟨RoleDefinition.validate_without hvalid x, hstorage⟩
  rw [roles_registerEach hids fun d _ => hnew d, roles_registerEach hids' fun d _ => hnew d,
    hempty, List.filter_eq_self.2 hadmits, List.filter_eq_self.2 hadmits']
  rfl

theorem freeze_eq_revised {b b' : RegistryBuilder} {f : RoleDefinition → RoleDefinition}
    (h : b'.roles = b.roles.map f) : b'.freeze = b.freeze.revised f := by
  unfold freeze Registry.revised
  rw [h, List.map_map, List.map_map]
  rfl

end RegistryBuilder

namespace Registry

variable {reg : Registry} {config : Config} {t : AdoptingType} {x : Exclusions}

/-- Up to the offers, a merge meets with the same, if what is required is there. -/
theorem check_without (hcap : reg.Capable config t)
    (hcap' : (reg.revised (·.without x)).Capable config t) :
    (reg.revised (·.without x)).check config t = reg.check config t := by
  have hrevises := RoleDefinition.revises_without x
  have horder := resolutionOrder_revised hrevises reg t.declaredRoles
  cases hok : reg.resolutionOrder t.declaredRoles with
  | error error =>
    unfold check
    rw [horder, hok]
    rfl
  | ok order =>
    rw [hok] at horder
    have hstorage := Engine.checkStorage_map_of_revises hrevises config order
    rw [check_of_resolutionOrder hok, check_of_resolutionOrder horder, hstorage]
    cases hstore : Engine.checkStorage config order with
    | error error => rfl
    | ok _ =>
      -- only this check looks at what is provided, and it passes on both sides
      show t.validate (order.map (·.without x)) = t.validate order
      rw [hcap order hok hstore]
      exact hcap' _ horder (hstorage.trans hstore)

theorem offer_without (reg : Registry) (x : Exclusions) (s : Signature) (id : RoleId) :
    (reg.revised (·.without x)).offer s id =
      (reg.offer s id).filter fun e => x.keeps e.origin s := by
  unfold offer
  rw [lookup_revised (RoleDefinition.revises_without x)]
  cases hd : reg.lookup id with
  | error error => rfl
  | ok d =>
    have hid := id_of_lookup hd
    subst hid
    show ((d.provided.filter fun s _ => x.keeps d.id s).find? s).map (ClosureEntry.mk d.id) =
      ((d.provided.find? s).map (ClosureEntry.mk d.id)).filter fun e => x.keeps e.origin s
    rw [SignatureMap.find?_filter, Option.filter_map]
    rfl

/-- The candidates that are left are those that the exclusions keep. -/
theorem candidatesFor_without (reg : Registry) (x : Exclusions) (declared : List RoleId)
    (s : Signature) :
    (reg.revised (·.without x)).candidatesFor declared s =
      Candidate.keptBy x.keeps s (reg.candidatesFor declared s) := by
  have hbelow (via : RoleId) :
      ((reg.revised (·.without x)).offersBelow reg.size s via).map (ClosureEntry.through via) =
        ((reg.offersBelow reg.size s via).map (ClosureEntry.through via)).filter
          fun c => x.keeps c.origin s := by
    unfold offersBelow
    rw [walk_revised (RoleDefinition.revises_without x), funext (offer_without reg x s),
      List.filter_map, List.filter_filterMap]
    rfl
  unfold candidatesFor Candidate.keptBy
  rw [size_revised, filter_firstMet fun o => x.keeps o s, List.filter_flatMap, funext hbelow]

/-- What is left to offer is what the exclusions keep, where there is any. -/
theorem offersTo_without (h : ∀ via ∈ t.declaredRoles, reg.ResolvesWithin reg.size via)
    (h' : ∀ via ∈ t.declaredRoles, (reg.revised (·.without x)).ResolvesWithin
      (reg.revised (·.without x)).size via) :
    (reg.revised (·.without x)).offersTo t =
      ((reg.offersTo t).map (Candidate.keptBy x.keeps)).filter fun _ cs => !cs.isEmpty := by
  refine SignatureMap.ext_find? fun s => ?_
  rw [SignatureMap.find?_filter, SignatureMap.find?_map, find?_offersTo h', find?_offersTo h,
    candidatesFor_without]
  split_ifs
  · rfl
  · exact (filter_map_present (f := Candidate.keptBy x.keeps s) rfl _).symm

end Registry

/-! ## Decisions -/

theorem Candidate.keptBy_all (s : Signature) (cs : List Candidate) :
    Candidate.keptBy (fun _ _ => true) s cs = cs :=
  List.filter_true _

namespace Tally

variable {keep : RoleId → Signature → Bool}

/-- A conflict is one among the candidates that are kept. -/
theorem conflict?_eq_keptBy (keep : RoleId → Signature → Bool) (s : Signature)
    (cs : List Candidate) :
    conflict? keep (s, cs) = conflict? (fun _ _ => true) (s, Candidate.keptBy keep s cs) := by
  unfold conflict?
  rw [Candidate.keptBy_all]

theorem selected?_eq_keptBy (keep : RoleId → Signature → Bool) (s : Signature)
    (cs : List Candidate) :
    selected? keep s cs = selected? (fun _ _ => true) s (Candidate.keptBy keep s cs) := by
  unfold selected?
  rw [Candidate.keptBy_all]

end Tally

namespace AdoptingType

/-- Offers can be settled by a rule, or thinned out by the rule and then settled without it. -/
theorem outcomeOfTally_filter_keptBy (t : AdoptingType) (keep : RoleId → Signature → Bool)
    (offers : Offers) :
    t.outcomeOfTally (t.tally (fun _ _ => true)
      ((offers.map (Candidate.keptBy keep)).filter fun _ cs => !cs.isEmpty)) =
        t.outcomeOfTally (t.tally keep offers) := by
  -- a signature that loses all its candidates is left out on the one side and omitted on the other
  have hconflicts : (t.tally (fun _ _ => true)
      ((offers.map (Candidate.keptBy keep)).filter fun _ cs => !cs.isEmpty)).conflicts =
        (t.tally keep offers).conflicts := by
    unfold tally
    rw [Tally.conflicts_foldl_settle, Tally.conflicts_foldl_settle]
    unfold SignatureMap.filter SignatureMap.map
    rw [List.filterMap_filter, List.filterMap_map]
    refine congrArg _ (List.filterMap_congr fun offer _ => ?_)
    rw [Tally.conflict?_eq_keptBy keep]
    show (if !(Candidate.keptBy keep offer.1 offer.2).isEmpty
      then Tally.conflict? (fun _ _ => true) (offer.1, Candidate.keptBy keep offer.1 offer.2)
      else none) = _
    cases Candidate.keptBy keep offer.1 offer.2 <;> rfl
  have hentries : (t.tally (fun _ _ => true)
      ((offers.map (Candidate.keptBy keep)).filter fun _ cs => !cs.isEmpty)).entries =
        (t.tally keep offers).entries := by
    refine SignatureMap.ext_find? fun s => ?_
    rw [find?_tally, find?_tally, SignatureMap.find?_filter, SignatureMap.find?_map]
    cases offers.find? s with
    | none => rfl
    | some cs =>
      rw [Option.elim_some, Tally.selected?_eq_keptBy keep, Option.map_some, Option.filter_some]
      cases Candidate.keptBy keep s cs <;> rfl
  unfold outcomeOfTally
  rw [hconflicts, hentries]

end AdoptingType

/-- A type whose hook excludes methods comes to what it comes to without a hook over the roles
without these methods. -/
theorem Registry.outcomeOf_without {reg : Registry} {config : Config} {t : AdoptingType}
    {x : Exclusions} (hcap : reg.Capable config t)
    (hcap' : (reg.revised (·.without x)).Capable config t) :
    (reg.revised (·.without x)).outcomeOf config t (fun _ _ => true) =
      reg.outcomeOf config t x.keeps := by
  have hcheck := check_without hcap hcap'
  cases hok : reg.check config t with
  | error error =>
    rw [outcomeOf_of_check_eq_error hok, outcomeOf_of_check_eq_error (hcheck.trans hok)]
  | ok _ =>
    have hok' := hcheck.trans hok
    rw [outcomeOf_of_check_eq_ok hok, outcomeOf_of_check_eq_ok hok',
      offersTo_without (resolvesWithin_of_check hok) (resolvesWithin_of_check hok'),
      AdoptingType.outcomeOfTally_filter_keptBy]

/-- A type whose hook excludes methods, and the same type without a hook over roles that do not
provide these methods, come to the same outcome, each whenever it is composed, if what the roles
require is there over both. -/
theorem outcome_of_excluded {b b' : RegistryBuilder} {config : Config} {rs rs' : List Request}
    {m m' : Moment} {t t' : TypeEntry} {x : Exclusions}
    (hroles : b'.roles = b.roles.map (·.without x)) (hplain : t'.definition.veto = none)
    (hdef : t.definition = t'.definition.withVeto x.hook)
    (hcap : b.freeze.Capable config t'.definition)
    (hcap' : b'.freeze.Capable config t'.definition)
    (hm : m ∈ history (Engine.new b.freeze config) rs)
    (ht : m.engine.find? t.definition.name = some t) (hidle : t.slot ≠ .running)
    (hm' : m' ∈ history (Engine.new b'.freeze config) rs')
    (ht' : m'.engine.find? t'.definition.name = some t') :
    ∃ outcome e e', m.compose t.definition.name = (.ok outcome, e) ∧
      m'.compose t'.definition.name = (.ok outcome, e') := by
  have hprompt : t.definition.Prompt x.keeps := .of_rule (by rw [hdef]; rfl)
  obtain ⟨e, hrun⟩ := compose_of_prompt hm ht hprompt hidle
  obtain ⟨e', hrun'⟩ := compose_of_veto_eq_none hm' ht' hplain
  have hrevised := RegistryBuilder.freeze_eq_revised hroles
  rw [hrevised] at hcap' hrun'
  rw [Registry.outcomeOf_without hcap hcap'] at hrun'
  refine ⟨_, e, e', hrun, ?_⟩
  rw [hrun', hdef]
  rfl

namespace Sample

/-- A role that requires what it gets from the role that it composes. -/
def needing : RoleDefinition :=
  ((RoleDefinition.named ⟨"needing"⟩).requires greet).composes parting.id

/-- Rival roles, of which one that rivals its part is required. -/
def needed : List RoleDefinition := [greeting, parting, staying, needing]

/-- What settles the rivalries, and a method of a role that there is none of. -/
def refusals : Exclusions := .ofList [(greeting.id, greet), (staying.id, part), (⟨"none"⟩, part)]

/-- A type that adopts them, with the hook or without. -/
def choosing (veto : Option Hook) : AdoptingType :=
  { name := "choosing", declaredRoles := [needing.id, staying.id], veto }

/-- That type over what is registered of some roles, at a moment before it is composed. -/
def choosingOver (ds : List RoleDefinition) (veto : Option Hook) : Moment :=
  .between { Engine.new (RegistryBuilder.registerEach {} ds).freeze {} with
    types := [{ definition := choosing veto }] }

theorem choosingOver_mem_history (ds : List RoleDefinition) (veto : Option Hook) :
    choosingOver ds veto ∈ history (Engine.new (RegistryBuilder.registerEach {} ds).freeze {})
      [.declare (choosing veto)] :=
  List.mem_cons_of_mem _ List.mem_cons_self

end Sample

/-- Methods of a role further down and of a declared one, refused by the hook or not there to be
refused: the type composes either way, to one table, and it would not with all of them. -/
theorem outcome_of_excluded_refusals :
    let m := Sample.choosingOver Sample.needed (some Sample.refusals.hook)
    let m' := Sample.choosingOver (Sample.needed.map (·.without Sample.refusals)) none
    (∃ table e e', m.compose "choosing" = (.ok (.ok table), e) ∧
      m'.compose "choosing" = (.ok (.ok table), e') ∧
      table.roleSignatures = [Sample.greet, Sample.part]) ∧
    ((Sample.choosingOver Sample.needed none).compose "choosing").1.map Except.isOk =
      .ok false := by
  intro m m'
  refine ⟨?_, by decide +kernel⟩
  have hroles :
      (RegistryBuilder.registerEach {} (Sample.needed.map (·.without Sample.refusals))).roles =
        (RegistryBuilder.registerEach {} Sample.needed).roles.map (·.without Sample.refusals) :=
    RegistryBuilder.roles_registerEach_without rfl (by decide +kernel) (by decide +kernel)
      Sample.refusals
  have hplain : (TypeEntry.mk (Sample.choosing none) .vacant false).definition.veto = none := rfl
  have hcapable (b : RegistryBuilder)
      (h : ((b.freeze.resolutionOrder (Sample.choosing none).declaredRoles).bind fun order =>
        (Sample.choosing none).validate order).isOk = true) :
      b.freeze.Capable {} (Sample.choosing none) := by
    intro order horder _
    rw [horder] at h
    replace h : ((Sample.choosing none).validate order).isOk = true := h
    cases hvalid : (Sample.choosing none).validate order with
    | ok _ => rfl
    | error error =>
      rw [hvalid] at h
      cases h
  obtain ⟨outcome, e, e', hrun, hrun'⟩ := outcome_of_excluded (x := Sample.refusals)
    (t := { definition := Sample.choosing (some Sample.refusals.hook) }) hroles hplain rfl
    (hcapable _ (by decide +kernel)) (hcapable _ (by decide +kernel))
    (Sample.choosingOver_mem_history _ _) rfl (by simp) (Sample.choosingOver_mem_history _ _) rfl
  replace hrun : m.compose "choosing" = (.ok outcome, e) := hrun
  have hcomposed : (m.compose "choosing").1.map (fun outcome =>
      outcome.toOption.map MethodTable.roleSignatures) =
        .ok (some [Sample.greet, Sample.part]) := by
    decide +kernel
  rw [hrun] at hcomposed
  cases outcome with
  | error error => cases hcomposed
  | ok table =>
    exact ⟨table, e, e', hrun, hrun', Option.some.inj (Except.ok.inj hcomposed)⟩

end RoleComposition
