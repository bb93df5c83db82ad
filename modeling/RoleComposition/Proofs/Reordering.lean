import RoleComposition.Proofs.Counterparts
import RoleComposition.Proofs.Failures

/-!
# The order of declared roles

Types that reach the same roles come to the same outcome, whatever roles they declare to that end
and in what order: their tables agree in everything but the roles through which methods come, and
so do the errors that list what is missing or in conflict. Main statements:
`sameUpToVia_of_tantamount` and `sameUpToVia_of_perm`.
-/

namespace RoleComposition

/-- Where a method comes from, if it is not the type's own, and its body. -/
def MethodEntry.source (e : MethodEntry) : Option RoleId × Implementation :=
  (e.provider.origin?, e.implementation)

/-- The tables of one type have the same signatures, each with the same source. -/
structure MethodTable.SameUpToVia (table table' : MethodTable) : Prop where
  typeName : table'.typeName = table.typeName
  source : ∀ s, (table'.get? s).map MethodEntry.source = (table.get? s).map MethodEntry.source

/-- The error lists everything of its kind. -/
def CompositionError.lists : CompositionError → Bool
  | missingCapability _ _ | roleConflict _ _ => true
  | _ => false

/-- Both outcomes are tables that agree up to the declared roles in between, or both are errors,
which are equal if one of them lists everything of its kind. -/
inductive SameUpToVia : Outcome → Outcome → Prop
  | tables {table table' : MethodTable} : table.SameUpToVia table' →
      SameUpToVia (.ok table) (.ok table')
  | errors {error error' : CompositionError} :
      (error.lists = true ∨ error'.lists = true → error' = error) →
      SameUpToVia (.error error) (.error error')

namespace Registry

/-- Types of one name with the same methods of their own, which reach the same roles. -/
structure Alike (reg : Registry) (t t' : AdoptingType) : Prop where
  name : t'.name = t.name
  ownMethods : t'.ownMethods = t.ownMethods
  reached : ∀ o, reg.ReachedFrom t'.declaredRoles o ↔ reg.ReachedFrom t.declaredRoles o

variable {reg reg' : Registry} {config : Config} {t t' : AdoptingType}
  {keep : RoleId → Signature → Bool} {s : Signature}

namespace Alike

theorem tantamount (h : reg.Alike t t') : reg.Tantamount reg t t' :=
  Counterpart.tantamount ⟨h.name, h.ownMethods, h.reached, fun _ _ => .refl _⟩

theorem composable (h : reg.Alike t t') (hc : reg.Composable config t keep) :
    reg.Composable config t' keep :=
  h.tantamount.composable hc

end Alike

/-! ## Tables -/

/-- A method of one table is there in the table of a tantamount type, from the same source. -/
theorem Fits.exists_source {table table' : MethodTable} (h : reg.Tantamount reg' t t')
    (hfits : reg.Fits t keep table) (hfits' : reg'.Fits t' keep table') {e : MethodEntry}
    (he : table.get? s = some e) : ∃ e', table'.get? s = some e' ∧ e'.source = e.source := by
  cases hs : t.owns s with
  | true =>
    obtain ⟨i, hi⟩ := SignatureMap.contains_iff.1 hs
    rw [hfits.own s i hi] at he
    cases he
    exact ⟨⟨i, .own⟩, hfits'.own s i (h.ownMethods ▸ hi), rfl⟩
  | false =>
    obtain ⟨o, via, i, hkeeps, hunique, -, hprov, rfl⟩ := (hfits.role s hs e).1 he
    obtain ⟨via', hvia'⟩ := exists_firstReaching (h.keeps hkeeps).reached
    refine ⟨⟨i, .role o via'⟩, (hfits'.role s ((h.owns s).trans hs) _).2 ?_, rfl⟩
    exact ⟨o, via', i, h.keeps hkeeps, fun o' ho' => hunique o' (h.symm.keeps ho'), hvia',
      ((h.provides o s i).2 ⟨hkeeps.reached, hprov⟩).2, rfl⟩

theorem Fits.sameUpToVia_of_tantamount {table table' : MethodTable}
    (h : reg.Tantamount reg' t t') (hfits : reg.Fits t keep table)
    (hfits' : reg'.Fits t' keep table') : table.SameUpToVia table' := by
  refine ⟨by rw [hfits.typeName, hfits'.typeName, h.name], fun s => ?_⟩
  cases he : table.get? s with
  | some e =>
    obtain ⟨e', he', hsource⟩ := Fits.exists_source h hfits hfits' he
    rw [he', Option.map_some, Option.map_some, hsource]
  | none =>
    cases he' : table'.get? s with
    | none => rfl
    | some e' =>
      obtain ⟨e, hsome, -⟩ := Fits.exists_source h.symm hfits' hfits he'
      rw [he] at hsome
      cases hsome

theorem Fits.sameUpToVia {table table' : MethodTable} (h : reg.Alike t t')
    (hfits : reg.Fits t keep table) (hfits' : reg.Fits t' keep table') :
    table.SameUpToVia table' :=
  Fits.sameUpToVia_of_tantamount h.tantamount hfits hfits'

/-! ## Errors -/

theorem Faulty.lists_eq_false {roots : List RoleId} {error : CompositionError}
    (h : reg.Faulty roots error) : error.lists = false := by
  obtain ⟨b, -, ⟨-, rfl⟩ | ⟨-, cycle, rfl⟩⟩ := h
  · rfl
  · rfl

/-- The role whose storage is refused is one that is reached. -/
theorem not_storeless {before after : List RoleDefinition} {role : RoleDefinition}
    (hconfig : config.storageCheck = .atComposition)
    (horder : reg.resolutionOrder t.declaredRoles = .ok (before ++ role :: after))
    (hrole : role.storage ≠ []) : ¬ reg.Storeless config t.declaredRoles := by
  intro hstore
  obtain ⟨hreached, hd⟩ := (mem_resolutionOrder (r := role) horder).1 (by simp)
  exact hrole (hstore hconfig role.id role hreached hd)

/-- If one of two tantamount types fails with a list, the other one fails at the same stage, and
this stage finds the same. -/
theorem Diagnosis.eq_of_lists {error error' : CompositionError} (h : reg.Tantamount reg' t t')
    (hd : reg.Diagnosis config t keep error) (hd' : reg'.Diagnosis config t' keep error')
    (hlists : error.lists = true) : error' = error := by
  cases hd with
  | unresolved _ hfaulty =>
    rw [hfaulty.lists_eq_false] at hlists
    cases hlists
  | storage => cases hlists
  | incapable hres hstore hlacks hmissing =>
    cases hd' with
    | unresolved hres' _ => exact absurd (h.resolves.2 hres) hres'
    | storage _ hconfig horder _ hrole =>
      exact absurd ((h.storeless config).2 hstore) (not_storeless hconfig horder hrole)
    | incapable _ _ _ hmissing' => rw [h.name, (h.listsMissing hmissing).eq hmissing']
    | conflict _ _ hcap _ _ =>
      obtain ⟨s, hs⟩ := hlacks
      exact absurd (h.lacks hs) (hcap s)
  | conflict hres hstore hcap hcontested hconflicts =>
    cases hd' with
    | unresolved hres' _ => exact absurd (h.resolves.2 hres) hres'
    | storage _ hconfig horder _ hrole =>
      exact absurd ((h.storeless config).2 hstore) (not_storeless hconfig horder hrole)
    | incapable _ _ hlacks _ =>
      obtain ⟨s, hs⟩ := hlacks
      exact absurd (h.symm.lacks hs) (hcap s)
    | conflict _ _ _ _ hconflicts' => rw [h.name, (h.listsConflicts hconflicts).eq hconflicts']

/-! ## Outcomes -/

/-- Tantamount types come both to a table or both to an error, and an error that lists everything
of its kind is the same for both. -/
theorem outcomes_of_tantamount (h : reg.Tantamount reg' t t') (config : Config)
    (keep : RoleId → Signature → Bool) :
    (∃ table table', reg.outcomeOf config t keep = .ok table ∧
      reg'.outcomeOf config t' keep = .ok table') ∨
    ∃ error error', reg.outcomeOf config t keep = .error error ∧
      reg'.outcomeOf config t' keep = .error error' ∧
      (error.lists = true ∨ error'.lists = true → error' = error) := by
  cases houtcome : reg.outcomeOf config t keep with
  | ok table =>
    obtain ⟨table', houtcome'⟩ :=
      outcomeOf_isOk.2 (h.composable (outcomeOf_isOk.1 ⟨table, houtcome⟩))
    exact .inl ⟨table, table', rfl, houtcome'⟩
  | error error =>
    cases houtcome' : reg'.outcomeOf config t' keep with
    | ok table' =>
      obtain ⟨table, hok⟩ :=
        outcomeOf_isOk.2 (h.symm.composable (outcomeOf_isOk.1 ⟨table', houtcome'⟩))
      rw [houtcome] at hok
      cases hok
    | error error' =>
      have hd := diagnosis_of_outcomeOf houtcome
      have hd' := diagnosis_of_outcomeOf houtcome'
      refine .inr ⟨error, error', rfl, rfl, ?_⟩
      rintro (hlists | hlists)
      · exact hd.eq_of_lists h hd' hlists
      · exact (hd'.eq_of_lists h.symm hd hlists).symm

/-- Tantamount types come to the same outcome. -/
theorem sameUpToVia_of_tantamount (h : reg.Tantamount reg' t t') :
    SameUpToVia (reg.outcomeOf config t keep) (reg'.outcomeOf config t' keep) := by
  obtain ⟨table, table', htable, htable'⟩ | ⟨error, error', herror, herror', hequal⟩ :=
    outcomes_of_tantamount h config keep
  · rw [htable, htable']
    exact .tables (Fits.sameUpToVia_of_tantamount h (fits_of_outcomeOf htable)
      (fits_of_outcomeOf htable'))
  · rw [herror, herror']
    exact .errors hequal

theorem sameUpToVia_of_alike (h : reg.Alike t t') :
    SameUpToVia (reg.outcomeOf config t keep) (reg.outcomeOf config t' keep) :=
  sameUpToVia_of_tantamount h.tantamount

/-- Roles that are declared in another order reach the same. -/
theorem alike_of_perm {roles : List RoleId} (hperm : roles.Perm t.declaredRoles) :
    reg.Alike t { t with declaredRoles := roles } :=
  ⟨rfl, rfl, fun _ => exists_congr fun _ => and_congr_left fun _ => hperm.mem_iff⟩

end Registry

/-- A type and one that declares the same roles in another order come to the same outcome, each at
any moment of a run of its own: both to tables that agree in all but the declared roles through
which methods come, or both to errors, which are equal if one lists what is missing or in
conflict. -/
theorem sameUpToVia_of_perm {b : RegistryBuilder} {config : Config} {m m' : Moment}
    {t t' : TypeEntry} {keep : RoleId → Signature → Bool} {roles : List RoleId}
    (hperm : roles.Perm t.definition.declaredRoles)
    (hdef : t'.definition = { t.definition with declaredRoles := roles })
    (h : Poised b config m t keep) (h' : Poised b config m' t' keep) :
    ∃ outcome outcome' e e', m.compose t.definition.name = (.ok outcome, e) ∧
      m'.compose t.definition.name = (.ok outcome', e') ∧ SameUpToVia outcome outcome' := by
  obtain ⟨e, hrun⟩ := h.compose
  obtain ⟨e', hrun'⟩ := h'.compose
  rw [hdef] at hrun'
  exact ⟨_, _, e, e', hrun, hrun', Registry.sameUpToVia_of_alike (Registry.alike_of_perm hperm)⟩

/-- Two contested signatures, found and listed alike in either order of the roles. -/
theorem sameUpToVia_of_torn :
    let torn := Sample.torn [Sample.parting.id, Sample.staying.id] fun _ _ => true
    let turned := Sample.torn [Sample.staying.id, Sample.parting.id] fun _ _ => true
    ∃ error e e', (Sample.before [torn]).compose "torn" = (.ok (.error error), e) ∧
      (Sample.before [turned]).compose "torn" = (.ok (.error error), e') ∧
      error.lists = true := by
  intro torn turned
  have hperm : [Sample.staying.id, Sample.parting.id].Perm torn.declaredRoles := .swap _ _ []
  have hdef : ({ definition := turned } : TypeEntry).definition =
      { torn with declaredRoles := [Sample.staying.id, Sample.parting.id] } := rfl
  obtain ⟨outcome, outcome', e, e', hrun, hrun', hsame⟩ :=
    sameUpToVia_of_perm hperm hdef
      (Sample.poised_torn [Sample.parting.id, Sample.staying.id] fun _ _ => true)
      (Sample.poised_torn [Sample.staying.id, Sample.parting.id] fun _ _ => true)
  replace hrun : (Sample.before [torn]).compose "torn" = (.ok outcome, e) := hrun
  have hfailed : ((Sample.before [torn]).compose "torn").1.map (fun outcome =>
      (outcome.mapError CompositionError.lists).map fun _ => ()) = .ok (.error true) := by
    decide +kernel
  rw [hrun] at hfailed
  cases hsame with
  | tables _ => cases hfailed
  | errors hequal =>
    have hlists := Except.error.inj (Except.ok.inj hfailed)
    rw [hequal (.inl hlists)] at hrun'
    exact ⟨_, e, e', hrun, hrun', hlists⟩

end RoleComposition
