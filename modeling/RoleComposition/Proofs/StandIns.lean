import RoleComposition.Manifest
import RoleComposition.Proofs.Bodies
import RoleComposition.Proofs.Promptness

/-!
# Checking with stand-ins

A manifest can be installed and declared with stand-ins in the place of its bodies. This foretells
what it comes to with the bodies of a catalog: it fails only for want of a body where it does not
fail with stand-ins, and otherwise each of its types comes to the same outcome, but for the bodies.
The listed roles and types fix the outlines of the definitions, and setting up goes through the same
steps on outlines. Main statement: `standIns_foretell`.
-/

namespace RoleComposition

/-- A run comes to what another run comes to, seen through `view`, and fails as that one fails,
unless it fails with an error of its own. -/
inductive Mirrors {σ τ ε : Type} (view : σ → τ) (own : ε → Prop) : Except ε σ → Except ε τ → Prop
  | ok (s : σ) : Mirrors view own (.ok s) (.ok (view s))
  | error (error : ε) : Mirrors view own (.error error) (.error error)
  | lost {error : ε} (h : own error) (run : Except ε τ) : Mirrors view own (.error error) run

/-- The error of a catalog that lacks a body and lets nothing stand in for it. -/
def Catalog.Lacks (c : Catalog) (error : CompositionError) : Prop :=
  c.standIns = false ∧ ∃ owner s, error = .unboundImplementation owner s

/-- What a listed role fixes of its definition. -/
def RoleDecl.outline (d : RoleDecl) : RoleDefinition :=
  let r := d.requires.foldl RoleDefinition.requires (.named d.name)
  let r := d.provides.foldl (fun r s => r.provides s .blank) r
  let r := d.privates.foldl (fun r s => r.providesPrivate s .blank) r
  d.storage.foldl RoleDefinition.withStorage (d.composes.foldl RoleDefinition.composes r)

/-- What a listed type fixes of the type. -/
def TypeDecl.outline (d : TypeDecl) : AdoptingType :=
  let t := d.adopts.foldl AdoptingType.adopts (.named d.name)
  { d.implements.foldl (fun t s => t.implements s .blank) t with veto := d.hook? }

/-- The rule by which the hook of a listed type answers. -/
def TypeDecl.keeps (d : TypeDecl) (role : RoleId) (s : Signature) : Bool :=
  d.veto.isEmpty || (Exclusions.ofList (d.veto.map fun v => (v.role, v.method))).keeps role s

/-- The builder without the bodies of its roles. -/
def RegistryBuilder.outline (b : RegistryBuilder) : RegistryBuilder :=
  { b with roles := b.roles.map RoleDefinition.outline }

/-- The declared types without their bodies. -/
def Engine.outlines (e : Engine) : List AdoptingType := e.types.map fun t => t.definition.outline

/-- Registers what a listed role fixes. -/
def registerOutline (b : RegistryBuilder) (d : RoleDecl) :
    Except CompositionError RegistryBuilder :=
  b.register d.outline

/-- Declares what a listed type fixes. -/
def declareOutline (ts : List AdoptingType) (d : TypeDecl) :
    Except CompositionError (List AdoptingType) :=
  if ts.any fun t => t.name == d.outline.name then .error (.duplicateType d.outline.name)
  else .ok (ts ++ [d.outline])

namespace Manifest

/-- All roles and types are set up with the bodies of a catalog. -/
structure SetsUp (m : Manifest) (c : Catalog) (config : Config) (b : RegistryBuilder)
    (e : Engine) : Prop where
  installs : m.install c (.ofConfig config) = (b, none)
  declares : m.declareTypes c (Engine.new b.freeze config) = (e, none)

/-- Setting up ends with an error: a role is not installed, or all are and a type is not
declared. -/
inductive FailsWith (m : Manifest) (c : Catalog) (config : Config) (error : CompositionError) : Prop
  | installing {b : RegistryBuilder} : m.install c (.ofConfig config) = (b, some error) →
      FailsWith m c config error
  | declaring {b : RegistryBuilder} {e : Engine} : m.install c (.ofConfig config) = (b, none) →
      m.declareTypes c (Engine.new b.freeze config) = (e, some error) → FailsWith m c config error

end Manifest

/-- A type can be composed at a moment: between two calls, or by a hook while the type is not being
composed itself. -/
def Moment.Admits (m : Moment) (name : String) : Prop :=
  m.hook = none ∨ m.engine.slotOf name ≠ .running

/-! ## Runs that mirror others -/

section Mirrors

variable {σ τ υ φ ι ε : Type} {view : σ → τ} {view' : υ → φ} {own : ε → Prop}

theorem mirrors_map (run : Except ε σ) : Mirrors view own run (run.map view) := by
  cases run with
  | ok s => exact .ok s
  | error error => exact .error error

/-- A run that mirrors a result can be gone on from. -/
theorem Mirrors.bind_ok {run : Except ε σ} {t : τ} {next : σ → Except ε υ} {run' : Except ε φ}
    (h : Mirrors view own run (.ok t)) (h' : ∀ s, view s = t → Mirrors view' own (next s) run') :
    Mirrors view' own (run >>= next) run' := by
  cases h with
  | ok s => exact h' s rfl
  | lost h => exact .lost h run'

theorem mirrors_foldlM (view : σ → τ) {step : σ → ι → Except ε σ} (step' : τ → ι → τ)
    (h : ∀ s i, Mirrors view own (step s i) (.ok (step' (view s) i))) (l : List ι) (s : σ) :
    Mirrors view own (l.foldlM step s) (.ok (l.foldl step' (view s))) := by
  induction l generalizing s with
  | nil => exact .ok s
  | cons i l ih =>
    rw [List.foldlM_cons, List.foldl_cons]
    refine (h s i).bind_ok fun s₁ hs₁ => ?_
    rw [← hs₁]
    exact ih s₁

/-- Steps that mirror others come to what these come to. -/
theorem runSteps_eq_none (view : σ → τ) {step : σ → ι → Except ε σ} (step' : τ → ι → Except ε τ)
    (h : ∀ s i, Mirrors view own (step s i) (step' (view s) i)) {l : List ι} {s s₁ : σ}
    (hrun : runSteps step s l = (s₁, none)) : runSteps step' (view s) l = (view s₁, none) := by
  induction l generalizing s with
  | nil =>
    cases hrun
    rfl
  | cons i l ih =>
    have hstep := h s i
    unfold runSteps at hrun ⊢
    generalize step s i = run at hrun hstep
    generalize step' (view s) i = run' at hstep ⊢
    cases hstep with
    | ok s' => exact ih hrun
    | error error => cases hrun
    | lost h => cases hrun

/-- Steps that mirror others fail as these fail, or with an error of their own. -/
theorem runSteps_eq_some (view : σ → τ) {step : σ → ι → Except ε σ} (step' : τ → ι → Except ε τ)
    (h : ∀ s i, Mirrors view own (step s i) (step' (view s) i)) {l : List ι} {s s₁ : σ} {error : ε}
    (hrun : runSteps step s l = (s₁, some error)) :
    own error ∨ (runSteps step' (view s) l).2 = some error := by
  induction l generalizing s with
  | nil => cases hrun
  | cons i l ih =>
    have hstep := h s i
    unfold runSteps at hrun ⊢
    generalize step s i = run at hrun hstep
    generalize step' (view s) i = run' at hstep ⊢
    cases hstep with
    | ok s' => exact ih hrun
    | error error' =>
      cases hrun
      exact .inr rfl
    | lost h =>
      cases hrun
      exact .inl h

/-- Steps that mirror others and have no errors of their own come to an end if these do. -/
theorem exists_of_runSteps (view : σ → τ) {step : σ → ι → Except ε σ} (step' : τ → ι → Except ε τ)
    (h : ∀ s i, Mirrors view own (step s i) (step' (view s) i)) (hown : ∀ error, ¬ own error)
    {l : List ι} {s : σ} {t : τ} (hrun : runSteps step' (view s) l = (t, none)) :
    ∃ s₁, runSteps step s l = (s₁, none) ∧ view s₁ = t := by
  rcases hrun' : runSteps step s l with ⟨s₁, _ | error⟩
  · refine ⟨s₁, rfl, ?_⟩
    rw [runSteps_eq_none view step' h hrun'] at hrun
    exact (Prod.ext_iff.1 hrun).1
  · rcases runSteps_eq_some view step' h hrun' with hfail | hfail
    · exact absurd hfail (hown error)
    · rw [hrun] at hfail
      cases hfail

end Mirrors

/-! ## Outlines of definitions -/

theorem blanked_insert (m : SignatureMap Implementation) (s : Signature) (i : Implementation) :
    (m.insert s i).blanked = m.blanked.insert s .blank := by
  refine SignatureMap.ext_find? fun s' => ?_
  unfold SignatureMap.blanked
  rw [SignatureMap.find?_map, SignatureMap.find?_insert, SignatureMap.find?_insert,
    SignatureMap.find?_map]
  split_ifs <;> rfl

namespace RoleDefinition

theorem outline_provides (r : RoleDefinition) (s : Signature) (i : Implementation) :
    (r.provides s i).outline = r.outline.provides s .blank :=
  congrArg (fun m => { r.declaresPublic s with provided := m }) (blanked_insert r.provided s i)

theorem outline_providesPrivate (r : RoleDefinition) (s : Signature) (i : Implementation) :
    (r.providesPrivate s i).outline = r.outline.providesPrivate s .blank :=
  congrArg (fun m => { r with provided := m }) (blanked_insert r.provided s i)

theorem outline_requires (r : RoleDefinition) (s : Signature) :
    (r.requires s).outline = r.outline.requires s := rfl

theorem outline_composes (r : RoleDefinition) (id : RoleId) :
    (r.composes id).outline = r.outline.composes id := by
  unfold composes
  show _ = if r.composed.contains id then _ else _
  split_ifs <;> rfl

theorem outline_withStorage (r : RoleDefinition) (field : String) :
    (r.withStorage field).outline = r.outline.withStorage field := rfl

end RoleDefinition

theorem AdoptingType.outline_implements (t : AdoptingType) (s : Signature) (i : Implementation) :
    (t.implements s i).outline = t.outline.implements s .blank :=
  congrArg (fun m => { t with ownMethods := m }) (blanked_insert t.ownMethods s i)

theorem AdoptingType.outline_adopts (t : AdoptingType) (id : RoleId) :
    (t.adopts id).outline = t.outline.adopts id := rfl

section Outlines

variable (c : Catalog)

/-- With any catalog, something gets a body that does not show in its outline, or lacks one. -/
theorem mirrors_resolve {δ : Type} {view : δ → δ} {add : Implementation → δ} {d : δ}
    (owner : Owner) (s : Signature) (h : ∀ i, view (add i) = d) :
    Mirrors view c.Lacks (do return add (← c.resolve owner s)) (.ok d) := by
  have hadded (i : Implementation) : Mirrors view c.Lacks (.ok (add i)) (.ok d) := by
    rw [← h i]
    exact .ok (add i)
  unfold Catalog.resolve
  cases c.find? owner.name s with
  | some i => exact hadded i
  | none =>
    cases hstand : c.standIns with
    | true => exact hadded _
    | false => exact .lost ⟨hstand, _, _, rfl⟩ _

/-- With any catalog, a listed role gets the definition that it outlines, or lacks a body. -/
theorem mirrors_toDefinition (d : RoleDecl) :
    Mirrors RoleDefinition.outline c.Lacks (d.toDefinition c) (.ok d.outline) := by
  unfold RoleDecl.toDefinition
  refine (mirrors_foldlM RoleDefinition.outline (fun r s => r.provides s .blank)
    (fun r s => mirrors_resolve c _ s (r.outline_provides s)) d.provides _).bind_ok fun r₁ hr₁ => ?_
  refine (mirrors_foldlM RoleDefinition.outline (fun r s => r.providesPrivate s .blank)
    (fun r s => mirrors_resolve c _ s (r.outline_providesPrivate s)) d.privates r₁).bind_ok
      fun r₂ hr₂ => ?_
  have heq : d.outline = (d.storage.foldl RoleDefinition.withStorage
      (d.composes.foldl RoleDefinition.composes r₂)).outline := by
    rw [← List.foldl_hom RoleDefinition.outline fun r f => (r.outline_withStorage f).symm,
      ← List.foldl_hom RoleDefinition.outline fun r id => (r.outline_composes id).symm, hr₂, hr₁,
      ← List.foldl_hom RoleDefinition.outline fun r s => (r.outline_requires s).symm]
    rfl
  rw [heq]
  exact .ok _

/-- With any catalog, a listed type becomes the type that it outlines, or lacks a body. -/
theorem mirrors_toAdoptingType (d : TypeDecl) :
    Mirrors AdoptingType.outline c.Lacks (d.toAdoptingType c) (.ok d.outline) := by
  unfold TypeDecl.toAdoptingType
  refine (mirrors_foldlM AdoptingType.outline (fun t s => t.implements s .blank)
    (fun t s => mirrors_resolve c _ s (t.outline_implements s)) d.implements _).bind_ok
      fun t ht => ?_
  have heq : d.outline = AdoptingType.outline { t with veto := d.hook? } := by
    rw [← List.foldl_hom AdoptingType.outline fun t id => (t.outline_adopts id).symm] at ht
    exact congrArg (fun t : AdoptingType => { t with veto := d.hook? }) ht.symm
  rw [heq]
  exact .ok _

end Outlines

/-! ## Outlines of registries and engines -/

theorem RoleDefinition.validate_outline (r : RoleDefinition) : r.outline.validate = r.validate := by
  have hcontains (s : Signature) : r.outline.provided.contains s = r.provided.contains s :=
    SignatureMap.contains_map _ _ s
  have hunbacked : r.outline.unbacked = r.unbacked := by
    unfold unbacked
    simp only [hcontains]
    rfl
  unfold validate
  rw [hunbacked]
  rfl

theorem RegistryBuilder.register_outline (b : RegistryBuilder) (r : RoleDefinition) :
    b.outline.register r.outline = (b.register r).map RegistryBuilder.outline := by
  have hcontains : b.outline.contains r.outline.id = b.contains r.id := List.any_map
  have hstorage : b.outline.checkStorage r.outline = b.checkStorage r := rfl
  have hsize : r.outline.provided.size = r.provided.size := List.length_map _
  unfold register
  rw [hcontains, r.validate_outline, hstorage, hsize]
  cases b.contains r.id with
  | true => rfl
  | false =>
    cases r.validate with
    | error error => rfl
    | ok _ =>
      cases b.checkStorage r with
      | error error => rfl
      | ok _ =>
        have hroles : b.outline.roles ++ [r.outline] =
            (b.roles ++ [r]).map RoleDefinition.outline := by
          rw [List.map_append]
          rfl
        rw [hroles]
        rfl

theorem RegistryBuilder.freeze_outline (b : RegistryBuilder) :
    b.freeze.outline = b.outline.freeze := by
  unfold freeze outline Registry.outline
  simp [Function.comp_def]

/-- With any catalog, a listed role is registered as its outline is, or lacks a body. -/
theorem mirrors_register (c : Catalog) (b : RegistryBuilder) (d : RoleDecl) :
    Mirrors RegistryBuilder.outline c.Lacks (do b.register (← d.toDefinition c))
      (registerOutline b.outline d) := by
  unfold registerOutline
  refine (mirrors_toDefinition c d).bind_ok fun r hr => ?_
  rw [← hr, RegistryBuilder.register_outline]
  exact mirrors_map _

/-- With any catalog, a listed type is declared as its outline is, or lacks a body. -/
theorem mirrors_declare (c : Catalog) (e : Engine) (d : TypeDecl) :
    Mirrors Engine.outlines c.Lacks (do return (← e.declare (← d.toAdoptingType c)).2)
      (declareOutline e.outlines d) := by
  refine (mirrors_toAdoptingType c d).bind_ok fun t ht => ?_
  have hsome : (e.find? t.name).isSome = e.outlines.any fun outline => outline.name == t.name := by
    unfold Engine.find? Engine.outlines
    rw [List.isSome_find?, List.any_map]
    rfl
  have hname : d.outline.name = t.name := by
    rw [← ht]
    rfl
  unfold Engine.declare declareOutline
  rw [hname, hsome]
  split_ifs
  · exact .error _
  · have hadded : (e.adding t).outlines = e.outlines ++ [d.outline] := by
      unfold Engine.outlines Engine.adding
      rw [List.map_append, ← ht]
      rfl
    rw [← hadded]
    exact .ok (e.adding t)

/-! ## Set up manifests -/

namespace Manifest

variable {manifest : Manifest} {c p : Catalog} {config : Config} {b b' : RegistryBuilder}
  {e e' : Engine} {l : List TypeDecl}

/-- A run after some types are declared is the end of a run before. -/
theorem mem_history_of_declares {error : Option CompositionError}
    (h : runSteps (fun e d => do return (← e.declare (← d.toAdoptingType c)).2) e l = (e', error)) :
    ∃ rs₀, ∀ rs, ∀ m ∈ history e' rs, m ∈ history e (rs₀ ++ rs) := by
  induction l generalizing e with
  | nil =>
    cases h
    exact ⟨[], fun rs m hm => hm⟩
  | cons d l ih =>
    unfold runSteps at h
    cases ht : d.toAdoptingType c with
    | error error =>
      simp only [ht] at h
      cases h
      exact ⟨[], fun rs m hm => hm⟩
    | ok t =>
      cases hdeclare : e.declare t with
      | error error =>
        simp only [ht, bind, Except.bind, hdeclare] at h
        cases h
        exact ⟨[], fun rs m hm => hm⟩
      | ok declared =>
        simp only [ht, bind, Except.bind, hdeclare] at h
        obtain ⟨rs₀, hrs₀⟩ := ih h
        have hstep : runFrom (Request.declare t).step e = (.ok (), declared.2) := by
          unfold Request.step
          rw [runFrom_modify, hdeclare]
        refine ⟨.declare t :: rs₀, fun rs m hm => mem_history_cons (by simp [hstep]) ?_⟩
        rw [hstep]
        exact hrs₀ rs m hm

theorem outlines_of_declares {ts ts' : List AdoptingType}
    (h : runSteps declareOutline ts l = (ts', none)) :
    ts' = ts ++ l.map TypeDecl.outline := by
  induction l generalizing ts with
  | nil =>
    cases h
    rw [List.map_nil, List.append_nil]
  | cons d l ih =>
    unfold runSteps declareOutline at h
    by_cases hknown : (ts.any fun t => t.name == d.outline.name) = true
    · simp only [hknown, if_true] at h
      cases h
    · simp only [hknown] at h
      rw [ih h, List.map_cons, List.append_assoc]
      rfl

theorem name_outline (d : TypeDecl) : d.outline.name = d.name := by
  calc d.outline.name
      = (d.adopts.foldl AdoptingType.adopts (.named d.name)).name :=
        (List.foldl_hom AdoptingType.name fun _ _ => rfl).symm.trans (List.foldl_fixed _)
    _ = d.name := (List.foldl_hom AdoptingType.name fun _ _ => rfl).symm.trans (List.foldl_fixed _)

theorem declaredRoles_outline (d : TypeDecl) : d.outline.declaredRoles = d.adopts := by
  have hadopts (l : List RoleId) (t : AdoptingType) :
      (l.foldl AdoptingType.adopts t).declaredRoles = t.declaredRoles ++ l := by
    induction l generalizing t with
    | nil => exact (List.append_nil _).symm
    | cons id l ih =>
      rw [List.foldl_cons, ih]
      exact List.append_assoc ..
  calc d.outline.declaredRoles
      = (d.adopts.foldl AdoptingType.adopts (.named d.name)).declaredRoles :=
        (List.foldl_hom AdoptingType.declaredRoles fun _ _ => rfl).symm.trans (List.foldl_fixed _)
    _ = d.adopts := hadopts d.adopts _

/-- A type with the hook of a listed type answers at once, by the rule of the hook. -/
theorem prompt_of_veto {t : AdoptingType} {d : TypeDecl} (h : t.veto = d.hook?) :
    t.Prompt d.keeps := by
  unfold AdoptingType.Prompt
  rw [h]
  unfold TypeDecl.hook? TypeDecl.keeps
  cases d.veto.isEmpty with
  | true => exact fun _ _ => rfl
  | false =>
    rintro role ⟨_ | _, name⟩
    · exact rfl
    · exact rfl

theorem SetsUp.registerOutlines (h : manifest.SetsUp c config b e) :
    runSteps registerOutline (RegistryBuilder.ofConfig config).outline manifest.roles =
      (b.outline, none) :=
  runSteps_eq_none _ registerOutline (mirrors_register c) h.installs

theorem SetsUp.declareOutlines (h : manifest.SetsUp c config b e) :
    runSteps declareOutline [] manifest.types = (e.outlines, none) :=
  runSteps_eq_none _ declareOutline (mirrors_declare c) h.declares

/-- Each listed type is declared as it is outlined. -/
theorem SetsUp.exists_entry (h : manifest.SetsUp c config b e) {d : TypeDecl}
    (hd : d ∈ manifest.types) :
    ∃ t, e.find? d.name = some t ∧ t.definition.outline = d.outline := by
  have houtlines : e.outlines = manifest.types.map TypeDecl.outline :=
    outlines_of_declares h.declareOutlines
  have hmem : d.outline ∈ e.outlines := houtlines ▸ List.mem_map_of_mem hd
  obtain ⟨t, ht, houtline⟩ := List.mem_map.1 hmem
  have hname : t.definition.name = d.name := by
    rw [← name_outline d, ← houtline]
    rfl
  obtain ⟨rs₀, hrs₀⟩ := mem_history_of_declares h.declares
  have hsound := (sound_of_mem_history (hrs₀ [] _ List.mem_cons_self)).1.engine
  exact ⟨t, hname ▸ Engine.find?_of_mem hsound.distinct ht, houtline⟩

/-- Between two calls no type is being composed. -/
theorem idle_of_admits {rs : List Request} {m : Moment} {name : String}
    (hm : m ∈ history (Engine.new b.freeze config) rs) (h : m.Admits name) :
    m.engine.slotOf name ≠ .running := by
  rcases h with hhook | hidle
  · rw [Ne, ← (sound_of_mem_history hm).1.engine.running, idle_of_mem_history hm hhook]
    exact List.not_mem_nil
  · exact hidle

/-- At any moment of a run, a listed type comes to what the outlines decide, but for its bodies. -/
theorem SetsUp.compose (h : manifest.SetsUp c config b e) {d : TypeDecl} (hd : d ∈ manifest.types)
    {rs : List Request} {m : Moment} (hm : m ∈ history e rs) (hadmits : m.Admits d.name) :
    ∃ outcome e₁, m.compose d.name = (.ok outcome, e₁) ∧
      outcome.map MethodTable.outline = b.outline.freeze.outcomeOf config d.outline d.keeps := by
  obtain ⟨t, ht, houtline⟩ := h.exists_entry hd
  obtain ⟨rs₀, hrs₀⟩ := mem_history_of_declares h.declares
  have hsound := (sound_of_mem_history (hrs₀ [] _ List.mem_cons_self)).1.engine
  obtain ⟨t', ht', hdef, -⟩ := ((chronicle_history rs hsound).moments m hm).2.types d.name t ht
  have hidle : t'.slot ≠ .running :=
    Engine.slotOf_of_find? ht' ▸ idle_of_admits (hrs₀ rs m hm) hadmits
  have hveto : t'.definition.outline.veto = d.outline.veto := by rw [hdef, houtline]
  obtain ⟨e₁, hrun⟩ := compose_of_prompt (hrs₀ rs m hm) ht' (prompt_of_veto hveto) hidle
  refine ⟨_, e₁, hrun, ?_⟩
  rw [← Registry.outcomeOf_outline, hdef, houtline, RegistryBuilder.freeze_outline]

end Manifest

/-- What a manifest comes to with the bodies of a catalog is foretold by what it comes to with
stand-ins. If it is set up with the catalog, it is set up with stand-ins, and whatever the two
engines go through afterwards, a listed type comes to the same outcome in both, but for the bodies.
And if it is set up with stand-ins, it can fail with the catalog for want of a body only. -/
theorem standIns_foretell {manifest : Manifest} {c p : Catalog} {config : Config}
    (hp : p.standIns = true) :
    (∀ b e, manifest.SetsUp c config b e →
      ∃ b' e', manifest.SetsUp p config b' e' ∧
        ∀ d ∈ manifest.types, ∀ rs rs', ∀ m ∈ history e rs, ∀ m' ∈ history e' rs',
          m.Admits d.name → m'.Admits d.name →
            ∃ outcome outcome' e₁ e₁', m.compose d.name = (.ok outcome, e₁) ∧
              m'.compose d.name = (.ok outcome', e₁') ∧ SameUpToBodies outcome outcome') ∧
    ∀ b' e', manifest.SetsUp p config b' e' → ∀ error, manifest.FailsWith c config error →
      ∃ owner s, error = .unboundImplementation owner s := by
  have hown (error : CompositionError) : ¬ p.Lacks error := fun hlacks => by
    simpa using hlacks.1.symm.trans hp
  constructor
  · intro b e h
    obtain ⟨b', hinstalls, houtline⟩ :=
      exists_of_runSteps _ registerOutline (mirrors_register p) hown h.registerOutlines
    obtain ⟨e', hdeclares, -⟩ :=
      exists_of_runSteps _ declareOutline (s := Engine.new b'.freeze config) (mirrors_declare p)
        hown h.declareOutlines
    have h' : manifest.SetsUp p config b' e' := ⟨hinstalls, hdeclares⟩
    refine ⟨b', e', h', fun d hd rs rs' m hm m' hm' hadmits hadmits' => ?_⟩
    obtain ⟨outcome, e₁, hrun, hsame⟩ := h.compose hd hm hadmits
    obtain ⟨outcome', e₁', hrun', hsame'⟩ := h'.compose hd hm' hadmits'
    refine ⟨outcome, outcome', e₁, e₁', hrun, hrun', sameUpToBodies_of_outline ?_⟩
    rw [hsame, hsame', houtline]
  · intro b' e' h' error hfails
    have hlacks : c.Lacks error := by
      cases hfails with
      | installing hfail =>
        refine (runSteps_eq_some _ registerOutline (mirrors_register c) hfail).resolve_right ?_
        rw [h'.registerOutlines]
        simp
      | @declaring b e _ hfail =>
        refine (runSteps_eq_some _ declareOutline (mirrors_declare c) hfail).resolve_right ?_
        rw [show (Engine.new b.freeze config).outlines = [] from rfl, h'.declareOutlines]
        simp
    exact hlacks.2

namespace Sample

/-- Two roles that rival each other, a type that excludes one of them, and a type that does not. -/
def guests : Manifest :=
  { roles :=
      [{ name := ⟨"greeting"⟩, provides := [greet] },
        { name := ⟨"parting"⟩, privates := [greet], composes := [⟨"greeting"⟩] }]
    types :=
      [{ name := "guest", adopts := [⟨"parting"⟩], veto := [⟨⟨"greeting"⟩, greet⟩] },
        { name := "crowd", adopts := [⟨"parting"⟩] }] }

/-- Their bodies. -/
def greetings : Catalog :=
  (Catalog.bind {} "greeting" greet ⟨"hello", .given 0, .constant (.text "hello")⟩).bind
    "parting" greet ⟨"goodbye", .given 1, .constant (.text "goodbye")⟩

/-- The engine that they set up with the bodies of a catalog. -/
def parlour (c : Catalog) : Engine :=
  (guests.declareTypes c (Engine.new (guests.install c (.ofConfig {})).1.freeze {})).1

theorem eq_parlour {c : Catalog} {b : RegistryBuilder} {e : Engine}
    (h : guests.SetsUp c {} b e) : e = parlour c := by
  unfold parlour
  rw [h.installs, h.declares]

end Sample

/-- A manifest that is set up with its bodies, and one of its types, which composes with them and
with stand-ins to tables of one digest. Without its bodies the manifest fails for want of one. -/
theorem standIns_foretell_guests :
    (∃ b e b' e', Sample.guests.SetsUp Sample.greetings {} b e ∧
      Sample.guests.SetsUp .ofStandIns {} b' e' ∧
      ∃ table table' e₁ e₁', (Moment.between e).compose "guest" = (.ok (.ok table), e₁) ∧
        (Moment.between e').compose "guest" = (.ok (.ok table'), e₁') ∧
        table'.digest = table.digest) ∧
    ∃ error, Sample.guests.FailsWith {} {} error ∧
      ∃ owner s, error = .unboundImplementation owner s := by
  have hinstalls : (Sample.guests.install Sample.greetings (.ofConfig {})).2 = none := by
    decide +kernel
  have hdeclares : (Sample.guests.declareTypes Sample.greetings (Engine.new
      (Sample.guests.install Sample.greetings (.ofConfig {})).1.freeze {})).2 = none := by
    decide +kernel
  have h : Sample.guests.SetsUp Sample.greetings {} _ (Sample.parlour Sample.greetings) :=
    ⟨Prod.ext rfl hinstalls, Prod.ext rfl hdeclares⟩
  have hlacks : (Sample.guests.install {} (.ofConfig {})).2 =
      some (.unboundImplementation "greeting" Sample.greet) := by
    decide +kernel
  have hfails : Sample.guests.FailsWith {} {} _ := .installing (Prod.ext rfl hlacks)
  obtain ⟨b', e', h', hforetell⟩ := (standIns_foretell (p := .ofStandIns) rfl).1 _ _ h
  refine ⟨⟨_, _, b', e', h, h', ?_⟩,
    _, hfails, (standIns_foretell (p := .ofStandIns) rfl).2 b' e' h' _ hfails⟩
  obtain rfl := Sample.eq_parlour h'
  obtain ⟨outcome, outcome', e₁, e₁', hrun, hrun', hsame⟩ :=
    hforetell _ List.mem_cons_self [] [] _ List.mem_cons_self _ List.mem_cons_self (.inl rfl)
      (.inl rfl)
  cases hsame with
  | tables _ _ hdigest => exact ⟨_, _, e₁, e₁', hrun, hrun', hdigest⟩
  | errors error =>
    have hfailed := congrArg (fun run => run.1.map Except.isOk) hrun
    have hok : ((Moment.between (Sample.parlour Sample.greetings)).compose "guest").1.map
        Except.isOk = .ok true := by
      decide +kernel
    cases hok.symm.trans hfailed

end RoleComposition
