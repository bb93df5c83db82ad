import RoleComposition.Proofs.Locality
import RoleComposition.Proofs.Registering

/-!
# When storage is refused

A role that declares storage is refused when it is registered, or else every type that reaches it is
refused when it is composed. Either way the same types compose, to the same tables. The registry of
the first way holds what the one of the second way holds, but for the roles with storage; and so
the two differ in nothing that is reached by a type which composes over either of them. Main
statement: `outcome_of_storageChecks`.
-/

namespace RoleComposition

namespace Registry

variable {reg : Registry} {t : AdoptingType} {roots : List RoleId}

/-- Everything that some roots reach is registered and declares no storage. -/
def StorageFree (reg : Registry) (roots : List RoleId) : Prop :=
  ∀ o, reg.ReachedFrom roots o → ∃ d, reg.lookup o = .ok d ∧ d.storage = []

/-- Where there is no storage, it does not matter when it would be refused. -/
theorem outcomeOf_of_storageFree (h : reg.StorageFree t.declaredRoles) (config config' : Config)
    (keep : RoleId → Signature → Bool) :
    reg.outcomeOf config' t keep = reg.outcomeOf config t keep := by
  have hcheck : reg.check config' t = reg.check config t := by
    unfold check
    cases horder : reg.resolutionOrder t.declaredRoles with
    | error error => rfl
    | ok order =>
      have hnone (config : Config) : Engine.checkStorage config order = .ok () := by
        refine Engine.checkStorage_eq_ok.2 fun _ r hr => ?_
        obtain ⟨hreached, hlookup⟩ := (mem_resolutionOrder horder).1 hr
        obtain ⟨d, hd, hstorage⟩ := h r.id hreached
        rw [hlookup] at hd
        cases hd
        exact hstorage
      simp only [bind, Except.bind, hnone]
  cases hok : reg.check config t with
  | error error =>
    rw [outcomeOf_of_check_eq_error hok, outcomeOf_of_check_eq_error (hcheck.trans hok)]
  | ok _ => rw [outcomeOf_of_check_eq_ok hok, outcomeOf_of_check_eq_ok (hcheck.trans hok)]

end Registry

/-! ## The two ways -/

section

variable {ds : List RoleDefinition} {config config' : Config} {t : AdoptingType}
  {keep : RoleId → Signature → Bool} {table : MethodTable}

open Registry RegistryBuilder

/-- Where storage is refused at registration, no registered role has any. -/
theorem storageFree_of_atRegistration (hids : (ds.map RoleDefinition.id).Nodup)
    (hcheck : config.storageCheck = .atRegistration)
    (hok : ((ofConfig config).registerEach ds).freeze.outcomeOf config t keep = .ok table) :
    ((ofConfig config).registerEach ds).freeze.StorageFree t.declaredRoles := by
  intro o ho
  have hc := outcomeOf_isOk.1 ⟨table, hok⟩
  obtain ⟨d, hd⟩ := contains_iff.1 (hc.registered o ho)
  obtain ⟨-, -, -, hstorage⟩ := (lookup_registerEach hids config).1 hd
  exact ⟨d, hd, hstorage hcheck⟩

/-- Where storage is refused at composition, no role that a composed type reaches has any. -/
theorem storageFree_of_atComposition {reg : Registry}
    (hcheck : config.storageCheck = .atComposition)
    (hok : reg.outcomeOf config t keep = .ok table) : reg.StorageFree t.declaredRoles := by
  intro o ho
  have hc := outcomeOf_isOk.1 ⟨table, hok⟩
  obtain ⟨d, hd⟩ := contains_iff.1 (hc.registered o ho)
  exact ⟨d, hd, hc.storeless hcheck o d ho hd⟩

/-- What is free of storage over the registry of one way is so over the registry of the other way,
and both hold the same for it. -/
theorem outcomeOf_eq_of_storageFree (hids : (ds.map RoleDefinition.id).Nodup)
    (h : ((ofConfig config).registerEach ds).freeze.StorageFree t.declaredRoles) :
    ((ofConfig config').registerEach ds).freeze.outcomeOf config' t keep =
      ((ofConfig config).registerEach ds).freeze.outcomeOf config t keep := by
  have hlookup : ∀ o,
      ((ofConfig config).registerEach ds).freeze.ReachedFrom t.declaredRoles o →
        ((ofConfig config').registerEach ds).freeze.lookup o =
          ((ofConfig config).registerEach ds).freeze.lookup o := by
    intro o ho
    obtain ⟨d, hd, hstorage⟩ := h o ho
    obtain ⟨hmem, hid, hvalid, -⟩ := (lookup_registerEach hids config).1 hd
    rw [hd]
    exact (lookup_registerEach hids config').2 ⟨hmem, hid, hvalid, fun _ => hstorage⟩
  rw [outcomeOf_eq_of_reached hlookup config', outcomeOf_of_storageFree h config config' keep]

end

/-- The same roles are registered, and the ones that are refused skipped, by a builder that refuses
storage and by one that leaves this to composition. A type that each engine composes comes to the
same table or has none over both, and what it reaches then is free of storage. -/
theorem outcome_of_storageChecks {ds : List RoleDefinition} {config config' : Config}
    {m m' : Moment} {t t' : TypeEntry} {keep : RoleId → Signature → Bool}
    (hids : (ds.map RoleDefinition.id).Nodup)
    (hcheck : config.storageCheck = .atRegistration)
    (hcheck' : config'.storageCheck = .atComposition) (hdef : t'.definition = t.definition)
    (h : Poised ((RegistryBuilder.ofConfig config).registerEach ds) config m t keep)
    (h' : Poised ((RegistryBuilder.ofConfig config').registerEach ds) config' m' t' keep) :
    ∃ outcome outcome' e e', m.compose t.definition.name = (.ok outcome, e) ∧
      m'.compose t.definition.name = (.ok outcome', e') ∧
      ∀ table,
        (outcome = .ok table ↔ outcome' = .ok table) ∧
        (outcome = .ok table →
          ((RegistryBuilder.ofConfig config).registerEach ds).freeze.StorageFree
            t.definition.declaredRoles) ∧
        (outcome' = .ok table →
          ((RegistryBuilder.ofConfig config').registerEach ds).freeze.StorageFree
            t.definition.declaredRoles) := by
  obtain ⟨e, hrun⟩ := h.compose
  obtain ⟨e', hrun'⟩ := h'.compose
  rw [hdef] at hrun'
  refine ⟨_, _, e, e', hrun, hrun', fun table => ⟨⟨fun hok => ?_, fun hok => ?_⟩, ?_, ?_⟩⟩
  · rw [outcomeOf_eq_of_storageFree hids (storageFree_of_atRegistration hids hcheck hok), hok]
  · rw [outcomeOf_eq_of_storageFree hids (storageFree_of_atComposition hcheck' hok), hok]
  · exact storageFree_of_atRegistration hids hcheck
  · exact storageFree_of_atComposition hcheck'

namespace Sample

/-- A role with storage, next to others without. -/
def stores : List RoleDefinition :=
  [greeting, (RoleDefinition.named ⟨"hoarding"⟩).withStorage "gold", staying,
    crew [greeting.id, staying.id]]

/-- The captain over what is registered of them, at a moment before it is composed. -/
def stocked (config : Config) : Moment :=
  .between { Engine.new ((RegistryBuilder.ofConfig config).registerEach stores).freeze config with
    types := [{ definition := captain }] }

theorem poised_stocked (config : Config) :
    Poised ((RegistryBuilder.ofConfig config).registerEach stores) config (stocked config)
      { definition := captain } fun _ _ => true :=
  .of_alone_of_veto_eq_none rfl

end Sample

/-- A role with storage that the captain does not reach: the registries differ, the tables do
not. -/
theorem outcome_of_storageChecks_stocked :
    (Sample.stocked {}).engine.registry.size ≠
      (Sample.stocked { storageCheck := .atComposition }).engine.registry.size ∧
    ∃ table e e', (Sample.stocked {}).compose "captain" = (.ok (.ok table), e) ∧
      (Sample.stocked { storageCheck := .atComposition }).compose "captain" =
        (.ok (.ok table), e') := by
  refine ⟨by decide +kernel, ?_⟩
  have hids : (Sample.stores.map RoleDefinition.id).Nodup := by decide +kernel
  obtain ⟨outcome, outcome', e, e', hrun, hrun', hsame⟩ :=
    outcome_of_storageChecks hids rfl rfl rfl
      (Sample.poised_stocked {}) (Sample.poised_stocked { storageCheck := .atComposition })
  replace hrun : (Sample.stocked {}).compose "captain" = (.ok outcome, e) := hrun
  have hok : ((Sample.stocked {}).compose "captain").1.map Except.isOk = .ok true := by
    decide +kernel
  rw [hrun] at hok
  cases outcome with
  | error _ => cases hok
  | ok table => exact ⟨table, e, e', hrun, (hsame table).1.1 rfl ▸ hrun'⟩

end RoleComposition
