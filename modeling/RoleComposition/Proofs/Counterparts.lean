import RoleComposition.Proofs.Diagnosis

/-!
# Counterparts

Two types, each over a registry of its own, are counterparts if they reach the same roles and these
are defined alike, up to the order in which a role lists those that it composes. Whatever a merge
looks for is then there for both of them or for none; they are tantamount to each other. Main
statements: `Counterpart.tantamount`, `Tantamount.composable`, `Tantamount.listsMissing`,
`Tantamount.listsConflicts` and `reachedFrom_iff_of_held` (registries that hold alike what some
roots reach in one of them reach the same from these roots).
-/

namespace RoleComposition

/-- Definitions that differ at most in the order of the roles that they compose. -/
structure RoleDefinition.Rearranged (d d' : RoleDefinition) : Prop where
  composed : d'.composed.Perm d.composed
  rest : d' = { d with composed := d'.composed }

/-- What two registries hold for a role: such definitions, or none. -/
inductive HeldAlike : Except CompositionError RoleDefinition →
    Except CompositionError RoleDefinition → Prop
  | registered {d d' : RoleDefinition} : d.Rearranged d' → HeldAlike (.ok d) (.ok d')
  | absent {error error' : CompositionError} : HeldAlike (.error error) (.error error')

theorem RoleDefinition.Rearranged.refl (d : RoleDefinition) : d.Rearranged d := ⟨.refl _, rfl⟩

theorem RoleDefinition.Rearranged.symm {d d' : RoleDefinition} (h : d.Rearranged d') :
    d'.Rearranged d := by
  refine ⟨h.composed.symm, ?_⟩
  rw [h.rest]

namespace HeldAlike

theorem refl (held : Except CompositionError RoleDefinition) : HeldAlike held held := by
  cases held with
  | ok d => exact .registered (.refl d)
  | error error => exact .absent

theorem symm {held held' : Except CompositionError RoleDefinition} (h : HeldAlike held held') :
    HeldAlike held' held := by
  cases h with
  | registered h => exact .registered h.symm
  | absent => exact .absent

theorem exists_of_eq_ok {held held' : Except CompositionError RoleDefinition} {d : RoleDefinition}
    (h : HeldAlike held held') (hd : held = .ok d) : ∃ d', held' = .ok d' ∧ d.Rearranged d' := by
  cases h with
  | registered h =>
    cases hd
    exact ⟨_, rfl, h⟩
  | absent => cases hd

variable {reg reg' : Registry} {o : RoleId} {s : Signature}

theorem contains (h : HeldAlike (reg.lookup o) (reg'.lookup o)) (ho : reg.contains o = true) :
    reg'.contains o = true := by
  obtain ⟨d, hd⟩ := Registry.contains_iff.1 ho
  obtain ⟨d', hd', -⟩ := h.exists_of_eq_ok hd
  exact Registry.contains_iff.2 ⟨d', hd'⟩

theorem composes {b : RoleId} (h : HeldAlike (reg.lookup o) (reg'.lookup o))
    (hb : reg.Composes o b) : reg'.Composes o b := by
  obtain ⟨d, hd, hmem⟩ := hb
  obtain ⟨d', hd', hsame⟩ := h.exists_of_eq_ok hd
  exact ⟨d', hd', hsame.composed.mem_iff.2 hmem⟩

theorem provides {i : Implementation} (h : HeldAlike (reg.lookup o) (reg'.lookup o))
    (hs : reg.Provides o s i) : reg'.Provides o s i := by
  obtain ⟨d, hd, hi⟩ := hs
  obtain ⟨d', hd', hsame⟩ := h.exists_of_eq_ok hd
  refine ⟨d', hd', ?_⟩
  rw [hsame.rest]
  exact hi

theorem requires (h : HeldAlike (reg.lookup o) (reg'.lookup o)) (hs : reg.Requires o s) :
    reg'.Requires o s := by
  obtain ⟨d, hd, hrequired⟩ := hs
  obtain ⟨d', hd', hsame⟩ := h.exists_of_eq_ok hd
  refine ⟨d', hd', ?_⟩
  rw [hsame.rest]
  exact hrequired

end HeldAlike

namespace Registry

variable {reg reg' : Registry} {config : Config} {t t' : AdoptingType}
  {keep : RoleId → Signature → Bool} {s : Signature} {roots : List RoleId} {a b o : RoleId}

/-! ## What is reached -/

theorem ReachedFrom.trans (ha : reg.ReachedFrom roots a) (hab : reg.Reaches a b) :
    reg.ReachedFrom roots b := by
  obtain ⟨r, hr, hra⟩ := ha
  exact ⟨r, hr, hra.trans hab⟩

section Held

variable (h : ∀ o, reg.ReachedFrom roots o → HeldAlike (reg.lookup o) (reg'.lookup o))

include h

theorem reaches_of_held (ha : reg.ReachedFrom roots a) (hab : reg.Reaches a b) :
    reg'.Reaches a b := by
  induction hab with
  | refl => exact .refl
  | tail hab hbc ih => exact ih.tail ((h _ (ha.trans hab)).composes hbc)

theorem transGen_of_held (ha : reg.ReachedFrom roots a)
    (hab : Relation.TransGen reg.Composes a b) : Relation.TransGen reg'.Composes a b := by
  induction hab with
  | single hab => exact .single ((h _ ha).composes hab)
  | tail hab hbc ih => exact ih.tail ((h _ (ha.trans hab.to_reflTransGen)).composes hbc)

/-- A path in the other registry does not leave what is reached in the first one. -/
theorem reaches_of_held_symm (ha : reg.ReachedFrom roots a) (hab : reg'.Reaches a b) :
    reg.Reaches a b := by
  induction hab with
  | refl => exact .refl
  | tail _ hbc ih => exact ih.tail ((h _ (ha.trans ih)).symm.composes hbc)

theorem reaches_iff_of_held (ha : reg.ReachedFrom roots a) :
    reg'.Reaches a b ↔ reg.Reaches a b :=
  ⟨reaches_of_held_symm h ha, reaches_of_held h ha⟩

theorem reachedFrom_iff_of_held : reg'.ReachedFrom roots b ↔ reg.ReachedFrom roots b :=
  exists_congr fun _ => and_congr_right fun hr => reaches_iff_of_held h ⟨_, hr, .refl⟩

end Held

/-- Types of one name with the same methods of their own, which reach roles of the same names that
are held alike. -/
structure Counterpart (reg reg' : Registry) (t t' : AdoptingType) : Prop where
  name : t'.name = t.name
  ownMethods : t'.ownMethods = t.ownMethods
  reached : ∀ o, reg'.ReachedFrom t'.declaredRoles o ↔ reg.ReachedFrom t.declaredRoles o
  held : ∀ o, reg.ReachedFrom t.declaredRoles o → HeldAlike (reg.lookup o) (reg'.lookup o)

namespace Counterpart

/-- A type over two registries that hold alike what it reaches. -/
theorem of_held
    (h : ∀ o, reg.ReachedFrom t.declaredRoles o → HeldAlike (reg.lookup o) (reg'.lookup o)) :
    reg.Counterpart reg' t t :=
  ⟨rfl, rfl, fun _ => reachedFrom_iff_of_held h, h⟩

theorem symm (h : reg.Counterpart reg' t t') : reg'.Counterpart reg t' t :=
  ⟨h.name.symm, h.ownMethods.symm, fun o => (h.reached o).symm,
    fun o ho => (h.held o ((h.reached o).1 ho)).symm⟩

theorem resolves (h : reg.Counterpart reg' t t') (hres : reg.Resolves t.declaredRoles) :
    reg'.Resolves t'.declaredRoles := by
  constructor
  · intro b hb
    have hb' := (h.reached b).1 hb
    exact (h.held b hb').contains (hres.registered b hb')
  · intro b hb hcycle
    exact hres.acyclic b ((h.reached b).1 hb) (transGen_of_held h.symm.held hb hcycle)

theorem storeless (h : reg.Counterpart reg' t t')
    (hstore : reg.Storeless config t.declaredRoles) :
    reg'.Storeless config t'.declaredRoles := by
  intro hconfig b d' hb hd'
  obtain ⟨d, hd, hsame⟩ := (h.symm.held b hb).exists_of_eq_ok hd'
  have hnil := hstore hconfig b d ((h.reached b).1 hb) hd
  rw [hsame.rest] at hnil
  exact hnil

theorem requires (h : reg.Counterpart reg' t t')
    (hb : reg.ReachedFrom t.declaredRoles b ∧ reg.Requires b s) :
    reg'.ReachedFrom t'.declaredRoles b ∧ reg'.Requires b s :=
  ⟨(h.reached b).2 hb.1, (h.held b hb.1).requires hb.2⟩

theorem provides {i : Implementation} (h : reg.Counterpart reg' t t')
    (ho : reg.ReachedFrom t.declaredRoles o ∧ reg.Provides o s i) :
    reg'.ReachedFrom t'.declaredRoles o ∧ reg'.Provides o s i :=
  ⟨(h.reached o).2 ho.1, (h.held o ho.1).provides ho.2⟩

end Counterpart

/-! ## What a merge looks for -/

/-- Types of one name with the same methods of their own, for which a merge finds the same: their
roles resolve, and bring no storage, for both of them or for none, and what is reached requires and
provides the same. Roles that do nothing of the kind may be reached for one of them only. -/
structure Tantamount (reg reg' : Registry) (t t' : AdoptingType) : Prop where
  name : t'.name = t.name
  ownMethods : t'.ownMethods = t.ownMethods
  resolves : reg'.Resolves t'.declaredRoles ↔ reg.Resolves t.declaredRoles
  storeless : ∀ config,
    reg'.Storeless config t'.declaredRoles ↔ reg.Storeless config t.declaredRoles
  requires : ∀ b s, reg'.ReachedFrom t'.declaredRoles b ∧ reg'.Requires b s ↔
    reg.ReachedFrom t.declaredRoles b ∧ reg.Requires b s
  provides : ∀ o s i, reg'.ReachedFrom t'.declaredRoles o ∧ reg'.Provides o s i ↔
    reg.ReachedFrom t.declaredRoles o ∧ reg.Provides o s i

theorem Counterpart.tantamount (h : reg.Counterpart reg' t t') : reg.Tantamount reg' t t' where
  name := h.name
  ownMethods := h.ownMethods
  resolves := ⟨h.symm.resolves, h.resolves⟩
  storeless := fun _ => ⟨h.symm.storeless, h.storeless⟩
  requires := fun _ _ => ⟨h.symm.requires, h.requires⟩
  provides := fun _ _ _ => ⟨h.symm.provides, h.provides⟩

namespace Tantamount

theorem symm (h : reg.Tantamount reg' t t') : reg'.Tantamount reg t' t where
  name := h.name.symm
  ownMethods := h.ownMethods.symm
  resolves := h.resolves.symm
  storeless := fun config => (h.storeless config).symm
  requires := fun b s => (h.requires b s).symm
  provides := fun o s i => (h.provides o s i).symm

theorem owns (h : reg.Tantamount reg' t t') (s : Signature) : t'.owns s = t.owns s := by
  unfold AdoptingType.owns
  rw [h.ownMethods]

theorem lacks (h : reg.Tantamount reg' t t') (hlacks : reg.Lacks t s) : reg'.Lacks t' s := by
  obtain ⟨⟨b, hb⟩, hown, hnone⟩ := hlacks
  refine ⟨⟨b, (h.requires b s).2 hb⟩, (h.owns s).trans hown, fun o i ho hi => ?_⟩
  obtain ⟨ho', hi'⟩ := (h.provides o s i).1 ⟨ho, hi⟩
  exact hnone o i ho' hi'

theorem keeps (h : reg.Tantamount reg' t t') (hkeeps : reg.Keeps t.declaredRoles keep s o) :
    reg'.Keeps t'.declaredRoles keep s o := by
  obtain ⟨hreached, ⟨i, hi⟩, hkept⟩ := hkeeps
  obtain ⟨hreached', hi'⟩ := (h.provides o s i).2 ⟨hreached, hi⟩
  exact ⟨hreached', ⟨i, hi'⟩, hkept⟩

theorem keeps_iff (h : reg.Tantamount reg' t t') :
    reg'.Keeps t'.declaredRoles keep s o ↔ reg.Keeps t.declaredRoles keep s o :=
  ⟨h.symm.keeps, h.keeps⟩

theorem contested (h : reg.Tantamount reg' t t') (hcontested : reg.Contested t keep s) :
    reg'.Contested t' keep s := by
  obtain ⟨hown, o, o', ho, ho', hne⟩ := hcontested
  exact ⟨(h.owns s).trans hown, o, o', h.keeps ho, h.keeps ho', hne⟩

theorem listsMissing {missing : List MissingCapability} (h : reg.Tantamount reg' t t')
    (hlists : reg.ListsMissing t missing) : reg'.ListsMissing t' missing := by
  refine ⟨hlists.ascending, fun m => (hlists.mem_iff m).trans ?_⟩
  refine and_congr ⟨h.lacks, h.symm.lacks⟩ (and_congr_right fun _ => ?_)
  exact forall_congr' fun b => iff_congr Iff.rfl (h.requires b m.signature).symm

theorem listsConflicts {conflicts : List SignatureConflict} (h : reg.Tantamount reg' t t')
    (hlists : reg.ListsConflicts t keep conflicts) : reg'.ListsConflicts t' keep conflicts := by
  refine ⟨hlists.ascending, fun c => (hlists.mem_iff c).trans ?_⟩
  refine and_congr ⟨h.contested, h.symm.contested⟩ (and_congr_right fun _ => ?_)
  exact forall_congr' fun o => iff_congr Iff.rfl h.keeps_iff.symm

theorem composable (h : reg.Tantamount reg' t t') (hc : reg.Composable config t keep) :
    reg'.Composable config t' keep := by
  obtain ⟨hres, hstore, hcap, hdec⟩ := composable_iff.1 hc
  exact composable_iff.2 ⟨h.resolves.2 hres, (h.storeless config).2 hstore,
    fun s hs => hcap s (h.symm.lacks hs), fun s hs => hdec s (h.symm.contested hs)⟩

end Tantamount

end Registry

end RoleComposition
