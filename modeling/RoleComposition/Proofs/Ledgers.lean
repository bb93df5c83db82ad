import Mathlib.Logic.Function.Basic
import RoleComposition.Manifest
import RoleComposition.Proofs.Registering

/-!
# The books of a builder

A builder holds the registered roles by name and the names in a list, and each registration is
entered in both, after checks any one of which may end it. Whatever calls are made, and whichever of
them fail, the books agree with each other and with the builder that is frozen in the end: the
accepted definitions registered one by one, and no trace of the others. Main statement:
`ledger_of_registrations`.
-/

namespace RoleComposition

/-- The event that registering a role causes. -/
def RoleDefinition.registered (d : RoleDefinition) : LogEntry :=
  ⟨.roleRegistered d.id d.provided.size d.required.size, []⟩

/-- The books that a builder keeps: the roles by name, and the names in order. Nothing but the steps
that are taken on them keeps the two together. -/
structure Ledger where
  storageCheck : StorageCheck
  held : RoleId → Option RegisteredRole := fun _ => none
  order : List RoleId := []
  log : List LogEntry := []

/-- A step that keeps the books. What it has entered stays when it fails. -/
abbrev LedgerM := ExceptT CompositionError (StateM Ledger)

namespace LedgerM

/-- Enters a role in one book after the other. -/
def enter (d : RoleDefinition) : LedgerM Unit := do
  modify fun l => { l with log := l.log ++ [d.registered] }
  modify fun l => { l with held := Function.update l.held d.id (some { definition := d }) }
  modify fun l => { l with order := l.order ++ [d.id] }

/-- Registers a role: enters it after all checks. -/
def register (d : RoleDefinition) : LedgerM Unit := do
  let ledger ← get
  if (ledger.held d.id).isSome then throw (.duplicateRole d.id)
  ExceptT.mk (pure d.validate)
  if ledger.storageCheck = .atRegistration then ExceptT.mk (pure d.checkStorage)
  enter d

/-- Registers a listed role with its bodies. -/
def registerListed (c : Catalog) (d : RoleDecl) : LedgerM Unit := do
  register (← ExceptT.mk (pure (d.toDefinition c)))

/-- Registers the roles of a manifest in turn. -/
def install (m : Manifest) (c : Catalog) : LedgerM Unit := m.roles.forM (registerListed c)

end LedgerM

/-- A call that registers one role, or the roles of a manifest. -/
inductive Registration where
  | one (d : RoleDefinition)
  | all (m : Manifest) (c : Catalog)

namespace Registration

/-- What a call does to the books. -/
def program : Registration → LedgerM Unit
  | one d => LedgerM.register d
  | all m c => LedgerM.install m c

/-- What a call does to a builder, and the error that it ends with. -/
def perform (b : RegistryBuilder) : Registration → RegistryBuilder × Option CompositionError
  | one d =>
    match b.register d with
    | .ok b' => (b', none)
    | .error error => (b, some error)
  | all m c => m.install c b

/-- The definitions that a call is to register, in turn. -/
def attempts : Registration → List (Except CompositionError RoleDefinition)
  | one d => [.ok d]
  | all m c => m.roles.map fun d => d.toDefinition c

end Registration

namespace RegistryBuilder

/-- The books of a builder: what freezing it hands over. -/
def ledger (b : RegistryBuilder) : Ledger := ⟨b.storageCheck, b.freeze.find?, b.freeze.ids, b.log⟩

/-- Those definitions that are registered before the first that fails. -/
def taken (b : RegistryBuilder) : List (Except CompositionError RoleDefinition) →
    List RoleDefinition
  | [] | .error _ :: _ => []
  | .ok d :: rest =>
    match b.register d with
    | .ok b' => d :: b'.taken rest
    | .error _ => []

/-- The builder after some calls, whether they succeed or not. -/
def afterCalls (b : RegistryBuilder) (calls : List Registration) : RegistryBuilder :=
  calls.foldl (fun b r => (r.perform b).1) b

/-- The definitions that some calls register, in the order in which they do. -/
def takenBy (b : RegistryBuilder) : List Registration → List RoleDefinition
  | [] => []
  | r :: calls => b.taken r.attempts ++ (r.perform b).1.takenBy calls

end RegistryBuilder

/-- The books after some calls. -/
def Ledger.afterCalls (l : Ledger) (calls : List Registration) : Ledger :=
  calls.foldl (fun l r => (runFrom r.program l).2) l

/-- What a definition must meet besides having a new name. -/
structure RoleDefinition.Meets (check : StorageCheck) (d : RoleDefinition) : Prop where
  backed : ∀ s ∈ d.publics.signatures, d.provided.contains s = true
  acyclic : d.id ∉ d.composed
  storeless : check = .atRegistration → d.storage = []

/-- How steps end that have come to an error or to none. -/
def endedBy : Option CompositionError → Except CompositionError Unit
  | none => .ok ()
  | some error => .error error

variable {b b' : RegistryBuilder} {d : RoleDefinition} {ds : List RoleDefinition}
  {check : StorageCheck}

/-! ## Steps that are taken over a list -/

/-- What each step keeps holds where the steps have come to. -/
theorem holds_of_runSteps {σ ι ε : Type} {step : σ → ι → Except ε σ} {P : σ → Prop} {l : List ι}
    {s s' : σ} {error : Option ε} (h : ∀ s i s', P s → step s i = .ok s' → P s') (hs : P s)
    (hrun : runSteps step s l = (s', error)) : P s' := by
  induction l generalizing s with
  | nil =>
    cases hrun
    exact hs
  | cons i l ih =>
    unfold runSteps at hrun
    cases hstep : step s i with
    | error error =>
      simp only [hstep] at hrun
      cases hrun
      exact hs
    | ok s₁ =>
      simp only [hstep] at hrun
      exact ih (h s i s₁ hs hstep) hrun

theorem exists_of_runSteps_cons {σ ι ε : Type} {step : σ → ι → Except ε σ} {l : List ι} {i : ι}
    {s s' : σ} (h : runSteps step s (i :: l) = (s', none)) :
    ∃ s₁, step s i = .ok s₁ ∧ runSteps step s₁ l = (s', none) := by
  unfold runSteps at h
  cases hstep : step s i with
  | error error =>
    simp only [hstep] at h
    cases h
  | ok s₁ =>
    simp only [hstep] at h
    exact ⟨s₁, rfl, h⟩

/-- Steps that fail have come to where one of them fails. -/
theorem exists_of_runSteps_eq_some {σ ι ε : Type} {step : σ → ι → Except ε σ} {l : List ι}
    {s s' : σ} {error : ε} (h : runSteps step s l = (s', some error)) :
    ∃ before i after, l = before ++ i :: after ∧ runSteps step s before = (s', none) ∧
      step s' i = .error error := by
  induction l generalizing s with
  | nil => cases h
  | cons i l ih =>
    unfold runSteps at h
    cases hstep : step s i with
    | error _ =>
      rw [hstep] at h
      cases h
      exact ⟨[], i, l, rfl, rfl, hstep⟩
    | ok s₁ =>
      rw [hstep] at h
      obtain ⟨before, j, after, rfl, hbefore, hj⟩ := ih h
      refine ⟨i :: before, j, after, rfl, ?_, hj⟩
      rw [runSteps, hstep]
      exact hbefore

theorem runSteps_map {σ ι κ ε : Type} (step : σ → κ → Except ε σ) (f : ι → κ) (s : σ)
    (l : List ι) : runSteps step s (l.map f) = runSteps (fun s i => step s (f i)) s l := by
  induction l generalizing s with
  | nil => rfl
  | cons i l ih =>
    rw [List.map_cons, runSteps, runSteps]
    cases step s (f i) with
    | error error => rfl
    | ok s₁ => exact ih s₁

namespace RegistryBuilder

/-! ## The books and the builder -/

theorem ids_freeze (b : RegistryBuilder) : b.freeze.ids = b.roles.map RoleDefinition.id := by
  simp [freeze, Registry.ids, Function.comp_def]

theorem isSome_held (b : RegistryBuilder) (o : RoleId) :
    (b.ledger.held o).isSome = b.contains o := by
  show (b.freeze.find? o).isSome = _
  rw [find?_freeze, Option.isSome_map, List.isSome_find?]
  rfl

theorem find?_taking (h : b.contains d.id = false) :
    (b.taking d).freeze.find? =
      Function.update b.freeze.find? d.id (some { definition := d }) := by
  funext o
  have hroles : (b.taking d).roles = b.roles ++ [d] := rfl
  rw [find?_freeze, hroles, List.find?_append]
  by_cases ho : o = d.id
  · subst ho
    have hnone : b.roles.find? (fun r => r.id == d.id) = none := by
      rw [← Option.not_isSome_iff_eq_none, List.isSome_find?]
      exact ne_true_of_eq_false h
    simp [hnone]
  · rw [Function.update_of_ne ho, find?_freeze]
    simp [Ne.symm ho]

/-- A role of a new name gets one more entry in each book. -/
theorem ledger_taking (h : b.contains d.id = false) :
    (b.taking d).ledger =
      { b.ledger with
        held := Function.update b.ledger.held d.id (some { definition := d })
        order := b.ledger.order ++ [d.id]
        log := b.log ++ [d.registered] } := by
  have hids : (b.taking d).freeze.ids = b.freeze.ids ++ [d.id] := by
    rw [ids_freeze, ids_freeze]
    exact List.map_append
  unfold ledger
  rw [find?_taking h, hids]
  rfl

/-- Registering a role leaves the books as they are when it fails, and otherwise as those of the
builder with the role. -/
theorem runFrom_register (b : RegistryBuilder) (d : RoleDefinition) :
    runFrom (LedgerM.register d) b.ledger =
      match b.register d with
      | .ok b' => (.ok (), b'.ledger)
      | .error error => (.error error, b.ledger) := by
  unfold LedgerM.register register
  rw [runFrom_bind, runFrom_get]
  simp only [isSome_held]
  cases hnew : b.contains d.id with
  | true => rfl
  | false =>
    cases hvalid : d.validate with
    | error error => rfl
    | ok _ =>
      have hentered : runFrom (LedgerM.enter d) b.ledger = (.ok (), (b.taking d).ledger) := by
        rw [ledger_taking hnew]
        rfl
      have hstorage : b.checkStorage d =
          if b.storageCheck = .atRegistration then d.checkStorage else .ok () := by
        unfold checkStorage
        cases b.storageCheck <;> rfl
      have hcheck : b.ledger.storageCheck = b.storageCheck := rfl
      rw [hstorage, hcheck]
      simp only [Bool.false_eq_true, if_false]
      split_ifs
      · cases d.checkStorage with
        | error error => rfl
        | ok _ => exact hentered
      · exact hentered

/-- Roles that are registered one by one are entered one by one. -/
theorem runFrom_forM_register (h : ds.foldlM register b = .ok b') :
    runFrom (ds.forM LedgerM.register) b.ledger = (.ok (), b'.ledger) := by
  induction ds generalizing b with
  | nil =>
    cases h
    rfl
  | cons d ds ih =>
    rw [List.foldlM_cons] at h
    obtain ⟨b₁, hd, h⟩ := exists_of_bind_eq_ok h
    have hstep := runFrom_register b d
    rw [hd] at hstep
    rw [forM_cons, runFrom_bind_ok hstep]
    exact ih h

/-- A listed role is entered if it is registered with its bodies. -/
theorem runFrom_registerListed (b : RegistryBuilder) (c : Catalog) (d : RoleDecl) :
    runFrom (LedgerM.registerListed c d) b.ledger =
      match (do b.register (← d.toDefinition c)) with
      | .ok b' => (.ok (), b'.ledger)
      | .error error => (.error error, b.ledger) := by
  rw [LedgerM.registerListed, runFrom_bind, runFrom_mk_pure]
  cases d.toDefinition c with
  | error error => rfl
  | ok r => exact runFrom_register b r

theorem runFrom_install (b : RegistryBuilder) (c : Catalog) (m : Manifest) :
    runFrom (LedgerM.install m c) b.ledger =
      (endedBy (m.install c b).2, (m.install c b).1.ledger) := by
  unfold LedgerM.install Manifest.install
  induction m.roles generalizing b with
  | nil => rfl
  | cons d l ih =>
    rw [forM_cons, runFrom_bind, runFrom_registerListed, runSteps]
    cases (do b.register (← d.toDefinition c) : Except CompositionError RegistryBuilder) with
    | error error => rfl
    | ok b₁ => exact ih b₁

/-- A call does to the books what it does to the builder, and ends alike. -/
theorem runFrom_program (b : RegistryBuilder) (r : Registration) :
    runFrom r.program b.ledger = (endedBy (r.perform b).2, (r.perform b).1.ledger) := by
  cases r with
  | one d =>
    refine (runFrom_register b d).trans ?_
    cases hd : b.register d <;> simp only [Registration.perform, hd, endedBy]
  | all m c => exact runFrom_install b c m

theorem ledger_afterCalls (b : RegistryBuilder) (calls : List Registration) :
    b.ledger.afterCalls calls = (b.afterCalls calls).ledger := by
  refine List.foldl_hom RegistryBuilder.ledger fun b r => ?_
  rw [runFrom_program]

/-! ## Calls as registrations one by one -/

/-- What is registered before the first failure can be registered one by one. -/
theorem foldlM_taken (b : RegistryBuilder)
    (l : List (Except CompositionError RoleDefinition)) :
    (b.taken l).foldlM register b = .ok (runSteps (fun b a => a >>= b.register) b l).1 := by
  induction l generalizing b with
  | nil => rfl
  | cons a l ih =>
    rw [runSteps]
    cases a with
    | error error => rfl
    | ok d =>
      have hbind : (Except.ok d >>= b.register : Except CompositionError RegistryBuilder) =
          b.register d := rfl
      rw [taken, hbind]
      cases hd : b.register d with
      | error error => rfl
      | ok b₁ =>
        rw [List.foldlM_cons, hd]
        exact ih b₁

theorem perform_eq_runSteps (b : RegistryBuilder) (r : Registration) :
    r.perform b = runSteps (fun b a => a >>= b.register) b r.attempts := by
  cases r with
  | one d =>
    cases hd : b.register d <;>
      simp only [Registration.perform, Registration.attempts, runSteps, bind, Except.bind, hd]
  | all m c =>
    exact (runSteps_map (fun b a => a >>= b.register) (fun d => d.toDefinition c) b m.roles).symm

/-- Whatever calls are made, the builder is the one that the accepted roles alone lead to. -/
theorem foldlM_takenBy (b : RegistryBuilder) (calls : List Registration) :
    (b.takenBy calls).foldlM register b = .ok (b.afterCalls calls) := by
  induction calls generalizing b with
  | nil => rfl
  | cons r calls ih =>
    rw [takenBy, List.foldlM_append, foldlM_taken, ← perform_eq_runSteps]
    exact ih _

/-! ## What a builder keeps -/

/-- What every builder keeps that checks storage in one way. -/
structure Orderly (check : StorageCheck) (b : RegistryBuilder) : Prop where
  storageCheck : b.storageCheck = check
  nodup : (b.roles.map RoleDefinition.id).Nodup
  meets : ∀ d ∈ b.roles, d.Meets check
  logged : b.log = b.roles.map RoleDefinition.registered

theorem orderly_new (check : StorageCheck) : Orderly check { storageCheck := check } :=
  ⟨rfl, List.nodup_nil, List.forall_mem_nil _, rfl⟩

theorem mem_ids_freeze : d.id ∈ b.freeze.ids ↔ b.contains d.id = true := by
  rw [ids_freeze, List.mem_map, contains, List.any_eq_true]
  simp only [beq_iff_eq]

theorem meets_iff :
    d.Meets b.storageCheck ↔ d.validate = .ok () ∧ b.checkStorage d = .ok () := by
  rw [RoleDefinition.validate_eq_ok, checkStorage_eq_ok]
  constructor
  · rintro ⟨hbacked, hacyclic, hstoreless⟩
    exact ⟨⟨hbacked, hacyclic⟩, hstoreless⟩
  · rintro ⟨⟨hbacked, hacyclic⟩, hstoreless⟩
    exact ⟨hbacked, hacyclic, hstoreless⟩

/-- A role is registered iff its name is new and the definition meets what it must. -/
theorem register_eq_ok_iff_meets :
    b.register d = .ok b' ↔
      d.id ∉ b.freeze.ids ∧ d.Meets b.storageCheck ∧ b' = b.taking d := by
  rw [register_eq_ok, mem_ids_freeze, Bool.not_eq_true, meets_iff, and_assoc]

theorem Orderly.register (h : b.Orderly check) (hd : b.register d = .ok b') :
    b'.Orderly check := by
  obtain ⟨hnew, hmeets, rfl⟩ := register_eq_ok_iff_meets.1 hd
  have hroles : (b.taking d).roles = b.roles ++ [d] := rfl
  refine ⟨h.storageCheck, ?_, ?_, ?_⟩
  · rw [hroles, List.map_append, ← ids_freeze]
    exact (ids_freeze b ▸ h.nodup).append (List.nodup_singleton _)
      (List.disjoint_singleton.2 hnew)
  · rw [hroles]
    exact List.forall_mem_append.2 ⟨h.meets,
      List.forall_mem_singleton.2 (h.storageCheck ▸ hmeets)⟩
  · rw [hroles, List.map_append, ← h.logged]
    rfl

/-- Roles that are registered one by one come after those that are there. -/
theorem Orderly.foldlM (h : b.Orderly check) (hds : ds.foldlM RegistryBuilder.register b = .ok b') :
    b'.Orderly check ∧ b'.roles = b.roles ++ ds := by
  induction ds generalizing b with
  | nil =>
    cases hds
    exact ⟨h, (List.append_nil _).symm⟩
  | cons d ds ih =>
    rw [List.foldlM_cons] at hds
    obtain ⟨b₁, hd, hds⟩ := exists_of_bind_eq_ok hds
    obtain ⟨horderly, hroles⟩ := ih (h.register hd) hds
    obtain ⟨-, -, rfl⟩ := register_eq_ok_iff_meets.1 hd
    refine ⟨horderly, hroles.trans ?_⟩
    rw [List.append_cons]
    rfl

/-- In the books stands what the builder holds. -/
theorem Orderly.held_eq_some (h : b.Orderly check) {o : RoleId} {e : RegisteredRole} :
    b.ledger.held o = some e ↔ ∃ d ∈ b.roles, d.id = o ∧ e = { definition := d } := by
  show b.freeze.find? o = some e ↔ _
  rw [find?_freeze, Option.map_eq_some_iff]
  simp only [find?_roles h.nodup, and_assoc, eq_comm]

/-- Every name in the list has its entry, and no other name has one. -/
theorem Orderly.mem_order (h : b.Orderly check) {o : RoleId} :
    o ∈ b.ledger.order ↔ ∃ e, b.ledger.held o = some e := by
  show o ∈ b.freeze.ids ↔ _
  rw [ids_freeze, List.mem_map]
  constructor
  · rintro ⟨d, hd, rfl⟩
    exact ⟨_, h.held_eq_some.2 ⟨d, hd, rfl, rfl⟩⟩
  · rintro ⟨e, he⟩
    obtain ⟨d, hd, ho, -⟩ := h.held_eq_some.1 he
    exact ⟨d, hd, ho⟩

/-- A role is entered iff its name is new and its definition meets what it must, and otherwise the
books stay as they are. -/
theorem Orderly.enters_iff (h : b.Orderly check) (d : RoleDefinition) :
    ((runFrom (LedgerM.register d) b.ledger).1 = .ok () ↔
      d.id ∉ b.ledger.order ∧ d.Meets check) ∧
    ∀ error, (runFrom (LedgerM.register d) b.ledger).1 = .error error →
      (runFrom (LedgerM.register d) b.ledger).2 = b.ledger := by
  have hiff : (∃ b', b.register d = .ok b') ↔ d.id ∉ b.ledger.order ∧ d.Meets check := by
    simp only [register_eq_ok_iff_meets, h.storageCheck, exists_and_left, exists_eq, and_true]
    rfl
  rw [runFrom_register, ← hiff]
  cases b.register d with
  | error error => exact ⟨by simp, fun _ _ => rfl⟩
  | ok b' => exact ⟨by simp, fun _ herror => by cases herror⟩

end RegistryBuilder

/-- Roles of a manifest that are registered have their bodies, and are registered one by one. -/
theorem exists_of_install {c : Catalog} {l : List RoleDecl}
    (h : runSteps (fun b d => do b.register (← d.toDefinition c)) b l = (b', none)) :
    ∃ ds, l.Forall₂ (fun d r => d.toDefinition c = .ok r) ds ∧
      ds.foldlM RegistryBuilder.register b = .ok b' := by
  induction l generalizing b with
  | nil =>
    cases h
    exact ⟨[], .nil, rfl⟩
  | cons d l ih =>
    obtain ⟨b₁, hstep, hrest⟩ := exists_of_runSteps_cons h
    obtain ⟨r, hr, hregister⟩ := exists_of_bind_eq_ok hstep
    obtain ⟨ds, hds, hrun⟩ := ih hrest
    refine ⟨r :: ds, .cons hr hds, ?_⟩
    rw [List.foldlM_cons, hregister]
    exact hrun

/-- A manifest that is not installed has a first role that fails, and those before it stay
registered one by one. -/
theorem RegistryBuilder.split_of_install {m : Manifest} {c : Catalog} {error : CompositionError}
    {l : Ledger} (h : runFrom (LedgerM.install m c) b.ledger = (.error error, l)) :
    ∃ before d after ds, m.roles = before ++ d :: after ∧
      before.Forall₂ (fun d r => d.toDefinition c = .ok r) ds ∧
      runFrom (ds.forM LedgerM.register) b.ledger = (.ok (), l) ∧
      runFrom (LedgerM.registerListed c d) l = (.error error, l) := by
  rw [runFrom_install] at h
  rcases hinstall : m.install c b with ⟨b', _ | error'⟩
  · rw [hinstall] at h
    cases h
  · rw [hinstall] at h
    cases h
    obtain ⟨before, d, after, hsplit, hbefore, hd⟩ := exists_of_runSteps_eq_some hinstall
    obtain ⟨ds, hds, hregister⟩ := exists_of_install hbefore
    refine ⟨before, d, after, ds, hsplit, hds, runFrom_forM_register hregister, ?_⟩
    rw [runFrom_registerListed, hd]

/-- After any calls, whichever of them have failed, the books are those of the builder, and go on
like it. They agree with each other: the names stand in the order in which the roles were accepted,
none of them twice, and each accepted definition stands under its name and meets what it must. A
role is registered iff its name is new and its definition meets that; if not, nothing changes and no
event is logged. A manifest that is not installed leaves the books as if the roles before the first
one that fails had been registered one by one. -/
theorem ledger_of_registrations (check : StorageCheck) (calls : List Registration) :
    let start : RegistryBuilder := { storageCheck := check }
    let b := start.afterCalls calls
    let l := Ledger.afterCalls { storageCheck := check } calls
    (l = b.ledger ∧
      ∀ r : Registration,
        runFrom r.program l = (endedBy (r.perform b).2, (r.perform b).1.ledger)) ∧
    (l.order.Nodup ∧ l.order = (start.takenBy calls).map RoleDefinition.id ∧
      l.log = (start.takenBy calls).map RoleDefinition.registered) ∧
    (∀ o, (o ∈ l.order ↔ ∃ e, l.held o = some e) ∧
      ∀ e, l.held o = some e ↔
        ∃ d ∈ start.takenBy calls, d.id = o ∧ e = { definition := d }) ∧
    (∀ o e, l.held o = some e → e.definition.Meets check) ∧
    (∀ d, ((runFrom (LedgerM.register d) l).1 = .ok () ↔ d.id ∉ l.order ∧ d.Meets check) ∧
      ∀ error, (runFrom (LedgerM.register d) l).1 = .error error →
        (runFrom (LedgerM.register d) l).2 = l) ∧
    ∀ m c error l', runFrom (LedgerM.install m c) l = (.error error, l') →
      ∃ before d after ds, m.roles = before ++ d :: after ∧
        before.Forall₂ (fun d r => d.toDefinition c = .ok r) ds ∧
        runFrom (ds.forM LedgerM.register) l = (.ok (), l') ∧
        runFrom (LedgerM.registerListed c d) l' = (.error error, l') := by
  intro start b l
  have hl : l = b.ledger := RegistryBuilder.ledger_afterCalls start calls
  obtain ⟨horderly, hroles⟩ := (RegistryBuilder.orderly_new check).foldlM
    (RegistryBuilder.foldlM_takenBy start calls)
  replace hroles : b.roles = start.takenBy calls := hroles
  have horder : b.ledger.order = b.roles.map RoleDefinition.id := RegistryBuilder.ids_freeze b
  rw [hl, ← hroles]
  refine ⟨⟨rfl, b.runFrom_program⟩, ⟨horder ▸ horderly.nodup, horder, horderly.logged⟩,
    fun o => ⟨horderly.mem_order, fun e => horderly.held_eq_some⟩, fun o e he => ?_,
    horderly.enters_iff, fun m c error l' => RegistryBuilder.split_of_install⟩
  obtain ⟨d, hd, -, rfl⟩ := horderly.held_eq_some.1 he
  exact horderly.meets d hd

example :
    (Ledger.afterCalls { storageCheck := .atRegistration }
      [.one (.named ⟨"cook"⟩), .one (.named ⟨"cook"⟩),
        .all { roles := [{ name := ⟨"waiter"⟩ }, { name := ⟨"porter"⟩, storage := ["bags"] },
          { name := ⟨"maid"⟩ }] } .ofStandIns]).order = [⟨"cook"⟩, ⟨"waiter"⟩] := by
  decide +kernel

end RoleComposition
