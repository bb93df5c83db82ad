import RoleComposition.Proofs.Deciding
import RoleComposition.Proofs.Gathering

/-!
# Registering roles

A builder takes a role in if its name is new and its definition valid, and stays as it was
otherwise. What it holds in the end is what it has taken in, and of this its registry finds each
role under its name. Main statements: `register_eq_ok`, `lookup_registerEach` and `Filled.validates`
(every registered role is valid).
-/

namespace RoleComposition

/-- A valid role has a body for each public signature, and does not compose itself. -/
theorem RoleDefinition.validate_eq_ok {d : RoleDefinition} :
    d.validate = .ok () ↔
      (∀ s ∈ d.publics.signatures, d.provided.contains s = true) ∧ d.id ∉ d.composed := by
  have hbacked : d.unbacked = [] ↔ ∀ s ∈ d.publics.signatures, d.provided.contains s = true := by
    simp [unbacked]
  rw [← hbacked]
  unfold validate
  cases d.unbacked <;> simp

namespace RegistryBuilder

/-- Registers one role after the other. One that is refused leaves the builder as it was. -/
def registerEach (b : RegistryBuilder) (ds : List RoleDefinition) : RegistryBuilder :=
  ds.foldl (fun b d => (b.register d).toOption.getD b) b

/-- Builders as registering roles one after the other leaves them. The check of storage may be set
anew in between. -/
inductive Filled : RegistryBuilder → Prop
  | new : Filled {}
  | checking {b : RegistryBuilder} (check : StorageCheck) :
      Filled b → Filled { b with storageCheck := check }
  | registering {b b' : RegistryBuilder} {d : RoleDefinition} :
      Filled b → b.register d = .ok b' → Filled b'

/-- A role gets past the checks of registration that look at nothing but the role. -/
def admits (b : RegistryBuilder) (d : RoleDefinition) : Bool :=
  d.validate.isOk && (b.checkStorage d).isOk

variable {b : RegistryBuilder} {d : RoleDefinition} {ds : List RoleDefinition} {o : RoleId}

theorem checkStorage_eq_ok :
    b.checkStorage d = .ok () ↔ (b.storageCheck = .atRegistration → d.storage = []) := by
  unfold checkStorage
  cases b.storageCheck with
  | atRegistration => simp [RoleDefinition.checkStorage_eq_ok]
  | atComposition => simp

/-- The builder with one more role, the registration of which is logged. -/
def taking (b : RegistryBuilder) (d : RoleDefinition) : RegistryBuilder :=
  { b with
    roles := b.roles ++ [d]
    log := b.log ++ [⟨.roleRegistered d.id d.provided.size d.required.size, []⟩] }

/-- A role is taken in iff its name is new and it gets past the checks. -/
theorem register_eq_ok {b' : RegistryBuilder} :
    b.register d = .ok b' ↔ b.contains d.id = false ∧ d.validate = .ok () ∧
      b.checkStorage d = .ok () ∧ b' = b.taking d := by
  unfold register
  cases b.contains d.id <;> cases d.validate <;> cases b.checkStorage d <;>
    simp [taking, bind, Except.bind, pure, Except.pure, throw, throwThe, MonadExceptOf.throw,
      eq_comm]

theorem admits_iff : b.admits d = true ↔ d.validate = .ok () ∧
    (b.storageCheck = .atRegistration → d.storage = []) := by
  rw [← checkStorage_eq_ok, admits, Bool.and_eq_true]
  cases d.validate <;> cases b.checkStorage d <;> simp [Except.isOk, Except.toBool]

/-- Registering a role of a new name. -/
theorem getD_register (hnew : b.contains d.id = false) :
    ((b.register d).toOption.getD b).storageCheck = b.storageCheck ∧
      ((b.register d).toOption.getD b).roles = b.roles ++ [d].filter b.admits := by
  unfold register admits
  cases hvalid : d.validate <;> cases hstore : b.checkStorage d <;>
    simp [hnew, hvalid, hstore, Except.toOption, Except.isOk, Except.toBool, bind, Except.bind,
      pure, Except.pure]

/-- Of a list without repeated names, the roles are registered that get past the checks. -/
theorem roles_registerEach (hids : (ds.map RoleDefinition.id).Nodup)
    (hnew : ∀ d ∈ ds, b.contains d.id = false) :
    (b.registerEach ds).roles = b.roles ++ ds.filter b.admits := by
  induction ds generalizing b with
  | nil => simp [registerEach]
  | cons d ds ih =>
    obtain ⟨hd, hids⟩ := List.nodup_cons.1 hids
    obtain ⟨hnewd, hnews⟩ := List.forall_mem_cons.1 hnew
    obtain ⟨hcheck, hroles⟩ := getD_register hnewd
    have hadmits : ((b.register d).toOption.getD b).admits = b.admits := by
      funext d'
      unfold admits checkStorage
      rw [hcheck]
    have hnews' : ∀ d' ∈ ds, ((b.register d).toOption.getD b).contains d'.id = false := by
      intro d' hd'
      have hne : d.id ≠ d'.id := fun heq => hd (heq ▸ List.mem_map_of_mem hd')
      have hold := hnews d' hd'
      unfold contains at hold ⊢
      rw [hroles, List.any_append, hold, Bool.false_or, List.any_filter]
      simp [hne]
    show (((b.register d).toOption.getD b).registerEach ds).roles = _
    rw [ih hids hnews', hroles, hadmits, List.append_assoc, ← List.filter_append]
    rfl

theorem Filled.registerEach (h : b.Filled) (ds : List RoleDefinition) :
    (b.registerEach ds).Filled := by
  induction ds generalizing b with
  | nil => exact h
  | cons d ds ih =>
    have hd : ((b.register d).toOption.getD b).Filled := by
      cases hd : b.register d with
      | error error => exact h
      | ok b' => exact h.registering hd
    exact ih hd

/-- Every registered role is valid. -/
theorem Filled.validates (h : b.Filled) : ∀ d ∈ b.roles, d.validate = .ok () := by
  induction h with
  | new => exact List.forall_mem_nil _
  | checking _ _ ih => exact ih
  | registering _ hd ih =>
    obtain ⟨-, hvalid, -, rfl⟩ := register_eq_ok.1 hd
    exact List.forall_mem_append.2 ⟨ih, List.forall_mem_singleton.2 hvalid⟩

@[simp] theorem definitions_freeze (b : RegistryBuilder) : b.freeze.definitions = b.roles := by
  simp [freeze, Registry.definitions, Function.comp_def]

theorem find?_freeze (b : RegistryBuilder) (o : RoleId) :
    b.freeze.find? o = (b.roles.find? fun r => r.id == o).map fun r => { definition := r } :=
  List.find?_map ..

/-- Where no name is registered twice, every role is found. -/
theorem find?_roles (hids : (b.roles.map RoleDefinition.id).Nodup) :
    (b.roles.find? fun r => r.id == o) = some d ↔ d ∈ b.roles ∧ d.id = o := by
  constructor
  · intro hr
    exact ⟨List.mem_of_find?_eq_some hr, by simpa using List.find?_some hr⟩
  · rintro ⟨hd, rfl⟩
    have hsome : (b.roles.find? fun r => r.id == d.id).isSome = true :=
      List.find?_isSome.2 ⟨d, hd, by simp⟩
    obtain ⟨r, hr⟩ := Option.isSome_iff_exists.1 hsome
    have hid : r.id = d.id := by simpa using List.find?_some hr
    rw [hr, List.inj_on_of_nodup_map hids (List.mem_of_find?_eq_some hr) hd hid]

theorem lookup_freeze (hids : (b.roles.map RoleDefinition.id).Nodup) :
    b.freeze.lookup o = .ok d ↔ d ∈ b.roles ∧ d.id = o := by
  rw [Registry.lookup_eq_ok, find?_freeze, ← find?_roles hids]
  constructor
  · rintro ⟨e, he, rfl⟩
    obtain ⟨r, hr, rfl⟩ := Option.map_eq_some_iff.1 he
    exact hr
  · intro hr
    exact ⟨{ definition := d }, by rw [hr]; rfl, rfl⟩

/-- What is registered of a list without repeated names: the valid roles, and without storage if
this is checked. -/
theorem lookup_registerEach (hids : (ds.map RoleDefinition.id).Nodup) (config : Config) :
    ((ofConfig config).registerEach ds).freeze.lookup o = .ok d ↔
      d ∈ ds ∧ d.id = o ∧ d.validate = .ok () ∧
        (config.storageCheck = .atRegistration → d.storage = []) := by
  have hroles := roles_registerEach (b := ofConfig config) hids fun _ _ => rfl
  rw [lookup_freeze, hroles]
  · show d ∈ [] ++ ds.filter _ ∧ d.id = o ↔ _
    have hcheck : (ofConfig config).storageCheck = config.storageCheck := rfl
    rw [List.nil_append, List.mem_filter, admits_iff, hcheck]
    tauto
  · rw [hroles]
    exact hids.sublist (List.filter_sublist.map _)

end RegistryBuilder

end RoleComposition
