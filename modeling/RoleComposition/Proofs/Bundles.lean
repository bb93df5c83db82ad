import RoleComposition.Proofs.Locality

/-!
# Bundles

A role that brings nothing of its own is a bundle of the roles that it composes. A type may declare
these in its place and comes to the same outcome. All that can be lost with the bundle is the bundle
itself, which a merge finds nothing in; and where the bundle lies on a cycle, its parts lead back to
it. Main statement: `sameUpToVia_of_unbundled`.
-/

namespace RoleComposition

/-- A definition with nothing in it but the roles that it composes. -/
structure RoleDefinition.Bundles (d : RoleDefinition) (parts : List RoleId) : Prop where
  composed : d.composed = parts
  provided : d.provided = ∅
  required : d.required = ∅
  storage : d.storage = []

/-- A list in which the parts of a bundle stand in the place of it, wherever it is not kept. -/
inductive Unbundled (bundle : RoleId) (parts : List RoleId) : List RoleId → List RoleId → Prop
  | nil : Unbundled bundle parts [] []
  | keep {roles roles' : List RoleId} (id : RoleId) : Unbundled bundle parts roles roles' →
      Unbundled bundle parts (id :: roles) (id :: roles')
  | unpack {roles roles' : List RoleId} : Unbundled bundle parts roles roles' →
      Unbundled bundle parts (bundle :: roles) (parts ++ roles')

namespace Unbundled

variable {bundle c : RoleId} {parts roles roles' : List RoleId}

theorem mem_left (h : Unbundled bundle parts roles roles') (hc : c ∈ roles) :
    c ∈ roles' ∨ c = bundle ∧ parts ⊆ roles' := by
  induction h with
  | nil => simp at hc
  | keep id _ ih =>
    rcases List.mem_cons.1 hc with rfl | hc
    · exact .inl List.mem_cons_self
    · rcases ih hc with hmem | ⟨rfl, hsub⟩
      · exact .inl (List.mem_cons_of_mem _ hmem)
      · exact .inr ⟨rfl, List.subset_cons_of_subset _ hsub⟩
  | unpack _ ih =>
    rcases List.mem_cons.1 hc with rfl | hc
    · exact .inr ⟨rfl, List.subset_append_left _ _⟩
    · rcases ih hc with hmem | ⟨rfl, hsub⟩
      · exact .inl (List.mem_append_right _ hmem)
      · exact .inr ⟨rfl, List.subset_append_left _ _⟩

theorem mem_right (h : Unbundled bundle parts roles roles') (hc : c ∈ roles') :
    c ∈ roles ∨ bundle ∈ roles ∧ c ∈ parts := by
  induction h with
  | nil => simp at hc
  | keep id _ ih =>
    rcases List.mem_cons.1 hc with rfl | hc
    · exact .inl List.mem_cons_self
    · rcases ih hc with hmem | ⟨hbundle, hpart⟩
      · exact .inl (List.mem_cons_of_mem _ hmem)
      · exact .inr ⟨List.mem_cons_of_mem _ hbundle, hpart⟩
  | unpack _ ih =>
    rcases List.mem_append.1 hc with hpart | hc
    · exact .inr ⟨List.mem_cons_self, hpart⟩
    · rcases ih hc with hmem | ⟨hbundle, hpart⟩
      · exact .inl (List.mem_cons_of_mem _ hmem)
      · exact .inr ⟨List.mem_cons_self, hpart⟩

end Unbundled

namespace Registry

variable {reg : Registry} {bundle o : RoleId} {parts roles roles' : List RoleId}
  {d : RoleDefinition}

theorem composes_bundle_iff (hd : reg.lookup bundle = .ok d) (hbundle : d.Bundles parts) :
    reg.Composes bundle o ↔ o ∈ parts := by
  constructor
  · rintro ⟨d', hd', ho⟩
    rw [hd] at hd'
    cases hd'
    exact hbundle.composed ▸ ho
  · intro ho
    exact ⟨d, hd, hbundle.composed.symm ▸ ho⟩

/-- Below a bundle there is nothing but what its parts reach. -/
theorem reaches_bundle (hd : reg.lookup bundle = .ok d) (hbundle : d.Bundles parts)
    (ho : reg.Reaches bundle o) : o = bundle ∨ reg.ReachedFrom parts o := by
  rcases Relation.ReflTransGen.cases_head ho with rfl | ⟨p, hp, hpo⟩
  · exact .inl rfl
  · exact .inr ⟨p, (composes_bundle_iff hd hbundle).1 hp, hpo⟩

section Unbundled

variable (hd : reg.lookup bundle = .ok d) (hbundle : d.Bundles parts)
  (h : Unbundled bundle parts roles roles')

include hd hbundle h

theorem reachedFrom_of_unbundled (ho : reg.ReachedFrom roles' o) : reg.ReachedFrom roles o := by
  obtain ⟨c, hc, hco⟩ := ho
  rcases h.mem_right hc with hc | ⟨hmem, hpart⟩
  · exact ⟨c, hc, hco⟩
  · exact ⟨bundle, hmem, .head ((composes_bundle_iff hd hbundle).2 hpart) hco⟩

/-- Nothing is lost but perhaps the bundle. -/
theorem reachedFrom_unbundled (ho : reg.ReachedFrom roles o) :
    reg.ReachedFrom roles' o ∨ o = bundle ∧ parts ⊆ roles' := by
  obtain ⟨c, hc, hco⟩ := ho
  rcases h.mem_left hc with hc | ⟨rfl, hsub⟩
  · exact .inl ⟨c, hc, hco⟩
  · rcases reaches_bundle hd hbundle hco with rfl | ⟨p, hp, hpo⟩
    · exact .inr ⟨rfl, hsub⟩
    · exact .inl ⟨p, hsub hp, hpo⟩

/-- What is true of the bundle is true of all that is reached with it if it is without it. -/
theorem forall_reachedFrom_unbundled {P : RoleId → Prop} (hb : P bundle) :
    (∀ b, reg.ReachedFrom roles' b → P b) ↔ ∀ b, reg.ReachedFrom roles b → P b := by
  constructor
  · intro hall b hreached
    rcases reachedFrom_unbundled hd hbundle h hreached with hreached' | ⟨rfl, -⟩
    · exact hall b hreached'
    · exact hb
  · intro hall b hreached
    exact hall b (reachedFrom_of_unbundled hd hbundle h hreached)

/-- What the bundle does not do, the same roles do with it and without it. -/
theorem reachedFrom_unbundled_and_iff {P : RoleId → Prop} (hb : ¬ P bundle) :
    reg.ReachedFrom roles' o ∧ P o ↔ reg.ReachedFrom roles o ∧ P o := by
  refine and_congr_left fun ho => ⟨reachedFrom_of_unbundled hd hbundle h, fun hreached => ?_⟩
  rcases reachedFrom_unbundled hd hbundle h hreached with hreached' | ⟨rfl, -⟩
  · exact hreached'
  · exact absurd ho hb

theorem resolves_unbundled : reg.Resolves roles' ↔ reg.Resolves roles := by
  constructor
  · intro hres
    refine ⟨(forall_reachedFrom_unbundled hd hbundle h (contains_iff.2 ⟨d, hd⟩)).1 hres.registered,
      fun b hreached hcycle => ?_⟩
    rcases reachedFrom_unbundled hd hbundle h hreached with hreached' | ⟨rfl, hsub⟩
    · exact hres.acyclic b hreached' hcycle
    · -- a cycle through the bundle leaves it through one of the parts, which stay declared
      obtain ⟨p, hp, hback⟩ := Relation.TransGen.head'_iff.1 hcycle
      have hpart := (composes_bundle_iff hd hbundle).1 hp
      exact hres.acyclic b ⟨p, hsub hpart, hback⟩ hcycle
  · intro hres
    exact ⟨fun b hreached => hres.registered b (reachedFrom_of_unbundled hd hbundle h hreached),
      fun b hreached => hres.acyclic b (reachedFrom_of_unbundled hd hbundle h hreached)⟩

theorem storeless_unbundled (config : Config) :
    reg.Storeless config roles' ↔ reg.Storeless config roles := by
  have hnone (d' : RoleDefinition) : reg.lookup bundle = .ok d' → d'.storage = [] := by
    intro hd'
    rw [hd] at hd'
    cases hd'
    exact hbundle.storage
  refine imp_congr_right fun _ => ?_
  have hall := forall_reachedFrom_unbundled hd hbundle h
    (P := fun b => ∀ d, reg.lookup b = .ok d → d.storage = []) hnone
  constructor
  · intro hstore b d' hb
    exact hall.1 (fun b hb d => hstore b d hb) b hb d'
  · intro hstore b d' hb
    exact hall.2 (fun b hb d => hstore b d hb) b hb d'

end Unbundled

/-- A type that declares the parts of a bundle is tantamount to the one that declares the bundle. -/
theorem tantamount_of_unbundled {t : AdoptingType} (hd : reg.lookup bundle = .ok d)
    (hbundle : d.Bundles parts) (h : Unbundled bundle parts t.declaredRoles roles) :
    reg.Tantamount reg t { t with declaredRoles := roles } where
  name := rfl
  ownMethods := rfl
  resolves := resolves_unbundled hd hbundle h
  storeless := storeless_unbundled hd hbundle h
  requires := by
    intro b s
    refine reachedFrom_unbundled_and_iff hd hbundle h (P := fun b => reg.Requires b s) ?_
    rintro ⟨d', hd', hs⟩
    rw [hd] at hd'
    cases hd'
    rw [hbundle.required] at hs
    cases hs
  provides := by
    intro o s i
    refine reachedFrom_unbundled_and_iff hd hbundle h (P := fun o => reg.Provides o s i) ?_
    rintro ⟨d', hd', hi⟩
    rw [hd] at hd'
    cases hd'
    rw [hbundle.provided] at hi
    cases hi

end Registry

/-- A type that declares a bundle and one that declares its parts in place of it come to the same
outcome, each at any moment of a run of its own: both to tables with the same signatures, the same
origins and the same bodies, or both to errors, which are equal if one lists what is missing or in
conflict. -/
theorem sameUpToVia_of_unbundled {b : RegistryBuilder} {config : Config} {m m' : Moment}
    {t t' : TypeEntry} {keep : RoleId → Signature → Bool} {bundle : RoleId}
    {parts roles : List RoleId} {d : RoleDefinition} (hd : b.freeze.lookup bundle = .ok d)
    (hbundle : d.Bundles parts) (hroles : Unbundled bundle parts t.definition.declaredRoles roles)
    (hdef : t'.definition = { t.definition with declaredRoles := roles })
    (h : Poised b config m t keep) (h' : Poised b config m' t' keep) :
    ∃ outcome outcome' e e', m.compose t.definition.name = (.ok outcome, e) ∧
      m'.compose t.definition.name = (.ok outcome', e') ∧ SameUpToVia outcome outcome' := by
  obtain ⟨e, hrun⟩ := h.compose
  obtain ⟨e', hrun'⟩ := h'.compose
  rw [hdef] at hrun'
  exact ⟨_, _, e, e', hrun, hrun',
    Registry.sameUpToVia_of_tantamount (Registry.tantamount_of_unbundled hd hbundle hroles)⟩

namespace Sample

/-- A registry with a bundle of two roles that provide the same. -/
def league : RegistryBuilder := { roles := rivals.roles ++ [crew [parting.id, staying.id]] }

/-- A type over that registry, at a moment before it is composed. -/
def leagued (declaredRoles : List RoleId) (keep : RoleId → Signature → Bool) : Moment :=
  .between { Engine.new league.freeze {} with
    types := [{ definition := torn declaredRoles keep }] }

theorem poised_leagued (declaredRoles : List RoleId) (keep : RoleId → Signature → Bool) :
    Poised league {} (leagued declaredRoles keep) { definition := torn declaredRoles keep }
      keep :=
  .of_alone (answersBy_torn declaredRoles keep) (calm_torn declaredRoles keep _)

/-- The bundle and one more role, and the same with the parts of the bundle. -/
def bundled : List RoleId := [⟨"crew"⟩, greeting.id]

def unbundled : List RoleId := [parting.id, staying.id, greeting.id]

theorem unbundled_bundled :
    Unbundled ⟨"crew"⟩ [parting.id, staying.id] bundled unbundled :=
  .unpack (.keep _ .nil)

end Sample

/-- Roles in conflict are so in a bundle and outside of it. With one of them vetoed, there is a
table either way. -/
theorem sameUpToVia_of_bundled :
    let all := fun (_ : RoleId) (_ : Signature) => true
    let most := fun (role : RoleId) (_ : Signature) => role != Sample.parting.id
    (∃ error e e', error.lists = true ∧
      (Sample.leagued Sample.bundled all).compose "torn" = (.ok (.error error), e) ∧
      (Sample.leagued Sample.unbundled all).compose "torn" = (.ok (.error error), e')) ∧
    ∃ table table' e e', table.SameUpToVia table' ∧
      (Sample.leagued Sample.bundled most).compose "torn" = (.ok (.ok table), e) ∧
      (Sample.leagued Sample.unbundled most).compose "torn" = (.ok (.ok table'), e') := by
  intro all most
  have hlookup : Sample.league.freeze.lookup ⟨"crew"⟩ =
      .ok (Sample.crew [Sample.parting.id, Sample.staying.id]) := rfl
  have hbundle : (Sample.crew [Sample.parting.id, Sample.staying.id]).Bundles
      [Sample.parting.id, Sample.staying.id] := ⟨rfl, rfl, rfl, rfl⟩
  have hdef (keep : RoleId → Signature → Bool) :
      ({ definition := Sample.torn Sample.unbundled keep } : TypeEntry).definition =
        { Sample.torn Sample.bundled keep with declaredRoles := Sample.unbundled } := rfl
  have hsame (keep : RoleId → Signature → Bool) :=
    sameUpToVia_of_unbundled hlookup hbundle Sample.unbundled_bundled (hdef keep)
      (Sample.poised_leagued Sample.bundled keep) (Sample.poised_leagued Sample.unbundled keep)
  constructor
  · obtain ⟨outcome, outcome', e, e', hrun, hrun', hsame⟩ := hsame all
    replace hrun : (Sample.leagued Sample.bundled all).compose "torn" = (.ok outcome, e) := hrun
    have hfailed : ((Sample.leagued Sample.bundled all).compose "torn").1.map (fun outcome =>
        (outcome.mapError CompositionError.lists).map fun _ => ()) = .ok (.error true) := by
      decide +kernel
    rw [hrun] at hfailed
    cases hsame with
    | tables _ => cases hfailed
    | errors hequal =>
      have hlists := Except.error.inj (Except.ok.inj hfailed)
      rw [hequal (.inl hlists)] at hrun'
      exact ⟨_, e, e', hlists, hrun, hrun'⟩
  · obtain ⟨outcome, outcome', e, e', hrun, hrun', hsame⟩ := hsame most
    replace hrun : (Sample.leagued Sample.bundled most).compose "torn" = (.ok outcome, e) := hrun
    have hok : ((Sample.leagued Sample.bundled most).compose "torn").1.map Except.isOk =
        .ok true := by
      decide +kernel
    rw [hrun] at hok
    cases hsame with
    | errors _ => cases hok
    | tables hsame => exact ⟨_, _, e, e', hsame, hrun, hrun'⟩

end RoleComposition
