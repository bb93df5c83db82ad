import RoleComposition.Proofs.Arenas

/-!
# Declaring and composing

Types are declared one by one or from manifests, and composed in between, and the one and the other
may fail. Through all of that the arena goes along with the engine, as a composition changes no
definition, and a handle that was once handed out is found again by its name and by its index. Main
statement: `arena_of_calls`.
-/

namespace RoleComposition

/-- A step of the engine, which does not touch the arena. -/
def HostM.within {α : Type} (step : EngineM α) : HostM α :=
  ExceptT.mk (modifyGet fun host =>
    let (result, engine) := runFrom step host.engine
    (result.mapError .halted, { host with engine }))

/-- A call from outside, or one that declares the types of a manifest. -/
inductive EngineCall where
  | request (r : Request)
  | declareTypes (m : Manifest) (c : Catalog)

namespace EngineCall

/-- What a call does to a host. -/
def program : EngineCall → HostM Unit
  | request (.declare t) => discard (HostM.declare t)
  | request r => HostM.within r.step
  | declareTypes m c => discard (HostM.declareTypes m c)

/-- What a call does to an engine. -/
def step : EngineCall → EngineM Unit
  | request r => r.step
  | declareTypes m c => modify fun e => (m.declareTypes c e).1

/-- The moments of a call at which a hook has control. -/
def trail : EngineCall → Engine → List Moment
  | request r, e => r.trail e
  | declareTypes .., _ => []

end EngineCall

/-- The moments of a run of calls. -/
def Engine.moments (e : Engine) : List EngineCall → List Moment
  | [] => [Moment.between e]
  | c :: rest =>
    Moment.between e :: (c.trail e ++
      match runFrom c.step e with
      | (.error .abort, _) => []
      | (_, e') => e'.moments rest)

/-- What a host comes to at the moments of a run of calls. -/
def Host.visits (h : Host) : List EngineCall → List Host
  | [] => [h]
  | c :: rest =>
    h :: ((c.trail h.engine).map (fun m => { h with engine := m.engine }) ++
      match runFrom c.program h with
      | (.error (.halted .abort), _) => []
      | (_, h') => h'.visits rest)

variable {e e' : Engine}

/-! ## What calls leave as it is -/

section Calls

theorem leads_firstUse (hs : e.Sound) (policy : FailurePolicy) (name : String) :
    e.Leads (runFrom (EngineM.firstUse policy name) e).2 := by
  have hlead : e.Leads (runFrom (EngineM.compose name) e).2 :=
    (passage_composeWithin e.vacantTypes name e hs (Nat.le_refl _)).leads
  rw [runFrom_firstUse]
  generalize runFrom (EngineM.compose name) e = run at hlead ⊢
  rcases run with ⟨halt | cause | table, e₁⟩
  · exact hlead
  · have hquiet : e₁.Quiet (e₁.logged (.compositionFatal name cause)) :=
      ⟨rfl, rfl, rfl, rfl, fun _ => Engine.starts_logged _ _ _⟩
    exact hlead.trans hquiet.leads
  · exact hlead

theorem leads_firstUses (policy : FailurePolicy) (names : List String) (hs : e.Sound) :
    e.Leads (runFrom (EngineM.firstUses policy names) e).2 := by
  induction names generalizing e with
  | nil => exact .refl e
  | cons name names ih =>
    have hlead := leads_firstUse hs policy name
    have hsound := (course_firstUse hs policy name).sound
    unfold EngineM.firstUses
    rcases hrun : runFrom (EngineM.firstUse policy name) e with ⟨halt | used, e₁⟩
    · rw [runFrom_bind_error hrun]
      rw [hrun] at hlead
      exact hlead
    · rw [runFrom_bind_ok hrun, runFrom_bind]
      rw [hrun] at hlead hsound
      have hrest := ih hsound
      dsimp only at hlead hrest
      generalize runFrom (EngineM.firstUses policy names) e₁ = run at hrest ⊢
      rcases run with ⟨halt | fatals, e₂⟩
      · exact hlead.trans hrest
      · exact hlead.trans hrest

/-- A call that declares nothing leaves each type as it is, or has composed it. -/
theorem leads_step {r : Request} (hr : ∀ t, r ≠ .declare t) (hs : e.Sound) :
    e.Leads (runFrom r.step e).2 := by
  cases r with
  | declare t => exact absurd rfl (hr t)
  | compose name =>
    unfold Request.step
    rw [runFrom_discard]
    exact (passage_composeWithin e.vacantTypes name e hs (Nat.le_refl _)).leads
  | firstUse policy name =>
    unfold Request.step
    rw [runFrom_discard]
    exact leads_firstUse hs policy name
  | ensureAll policy =>
    unfold Request.step
    rw [runFrom_discard]
    exact leads_firstUses policy _ hs
  | closure role =>
    obtain ⟨reg', hrun, hfill⟩ := Registry.runFrom_closure hs.registry role
    unfold Request.step
    rw [runFrom_discard]
    show e.Leads { e with registry := (runFrom (Registry.closure role) e.registry).2 }
    rw [hrun]
    exact Engine.leads_of_fills hfill
  | state name => exact .refl e
  | outcome name => exact .refl e
  | effectiveMethods name => exact .refl e
  | report name => exact .refl e
  | dispatch depth name s receiver args => exact .refl e

/-- No part of a composition takes a definition away. -/
theorem lasting_definitions (ds : List AdoptingType) :
    Engine.Lasting (fun e => e.registry.Sound ∧ ds <+: e.definitions) fun _ => True where
  sound := fun _ h => h.1
  fills := fun _ _ h hfill => ⟨hfill.sound h.1, h.2⟩
  starts := fun _ _ _ _ _ _ => trivial
  advances := fun e t f h _ hf => by
    refine ⟨h.1, ?_⟩
    have hsame : (e.updateEntry t.name f).definitions = e.definitions := by
      unfold Engine.definitions Engine.updateEntry
      rw [List.map_map]
      refine List.map_congr_left fun entry _ => ?_
      simp only [Function.comp]
      split_ifs <;> simp [hf.definition]
    rw [hsame]
    exact h.2
  asks := fun _ _ _ _ h _ _ => h
  records := fun e e' h hreg _ htypes _ => by
    refine ⟨hreg ▸ h.1, ?_⟩
    unfold Engine.definitions
    rw [htypes]
    exact h.2
  declares := fun e t h _ => by
    refine ⟨h.1, ?_⟩
    rw [Engine.definitions_adding]
    exact h.2.trans (List.prefix_append _ _)

theorem Engine.Progress.length_le (hs : e.Sound) (h : e.Progress e') :
    e.types.length ≤ e'.types.length := by
  have hsubset : e.host.names ⊆ e'.host.names := by
    intro name hname
    obtain ⟨entry, hentry⟩ := Option.isSome_iff_exists.1 (Engine.mem_names_host.1 hname)
    obtain ⟨entry', hentry', -⟩ := h.types name entry hentry
    rw [Engine.mem_names_host, hentry']
    rfl
  have hlength := ((Engine.nodup_names_host hs).subperm hsubset).length_le
  simpa [Engine.names_host, Engine.definitions] using hlength

/-- While a call is under way, the types are those that were declared before it. -/
theorem definitions_of_trail {r : Request} (hs : e.Sound) {m : Moment} (hm : m ∈ r.trail e) :
    m.engine.definitions = e.definitions := by
  by_cases hr : ∀ t, r ≠ .declare t
  · have hkept := (kept_step (lasting_definitions e.definitions).upheld r
      ⟨hs.registry, List.prefix_rfl⟩).moments m hm
    obtain ⟨hsound, -, hprogress⟩ := (course_step r hs).moments m hm
    have hend : (runFrom r.step e).2.definitions = e.definitions := (leads_step hr hs).map_definition
    have hle := hprogress.length_le hsound.engine
    rw [← Engine.length_definitions, ← Engine.length_definitions, hend] at hle
    exact (hkept.2.eq_of_length (Nat.le_antisymm hkept.2.length_le hle)).symm
  · push Not at hr
    obtain ⟨t, rfl⟩ := hr
    cases hm

/-- A sound engine in which the types of a manifest are declared stays sound, and keeps its
definitions. -/
theorem declared_of_declareTypes (hs : e.Sound) (m : Manifest) (c : Catalog) :
    (m.declareTypes c e).1.Sound ∧ e.definitions <+: (m.declareTypes c e).1.definitions := by
  refine holds_of_runSteps (P := fun e' : Engine => e'.Sound ∧ e.definitions <+: e'.definitions)
    (fun e₁ d e₂ h₁ hstep => ?_) ⟨hs, List.prefix_rfl⟩ rfl
  obtain ⟨t, -, hnew, rfl⟩ := exists_of_declare hstep
  refine ⟨h₁.1.adding hnew, ?_⟩
  rw [Engine.definitions_adding]
  exact h₁.2.trans (List.prefix_append _ _)

theorem sound_step (c : EngineCall) (hs : e.Sound) : (runFrom c.step e).2.Sound := by
  cases c with
  | request r => exact (course_step r hs).sound
  | declareTypes m c => exact (declared_of_declareTypes hs m c).1

/-- A call takes no definition away. -/
theorem prefix_step (c : EngineCall) (hs : e.Sound) :
    e.definitions <+: (runFrom c.step e).2.definitions := by
  cases c with
  | request r =>
    exact (kept_step (lasting_definitions e.definitions).upheld r
      ⟨hs.registry, List.prefix_rfl⟩).last.2
  | declareTypes m c => exact (declared_of_declareTypes hs m c).2

theorem moments_of_trail (c : EngineCall) (hs : e.Sound) {m : Moment} (hm : m ∈ c.trail e) :
    m.engine.Sound ∧ m.engine.definitions = e.definitions := by
  cases c with
  | request r => exact ⟨((course_step r hs).moments m hm).1.engine, definitions_of_trail hs hm⟩
  | declareTypes m c => cases hm

theorem runFrom_within {α : Type} (step : EngineM α)
    (h : (runFrom step e).2.definitions = e.definitions) :
    runFrom (HostM.within step) e.host =
      ((runFrom step e).1.mapError .halted, (runFrom step e).2.host) := by
  rw [← Engine.host_of_definitions h]
  rfl

/-- While indices last, a declaration does to the arena what it does to the engine. -/
theorem runFrom_declareRequest (hfew : e.types.length < UInt32.size) (t : AdoptingType) :
    ∃ a, runFrom (discard (HostM.declare t)) e.host =
        (a, (runFrom (Request.declare t).step e).2.host) ∧
      a ≠ .error (.halted .abort) ∧ (runFrom (Request.declare t).step e).1 = .ok () := by
  rw [runFrom_discard]
  unfold Request.step
  rw [runFrom_modify]
  unfold Engine.declare
  cases hnew : e.find? t.name with
  | some entry =>
    rw [runFrom_declare_of_known (by rw [hnew]; rfl)]
    exact ⟨_, rfl, by simp [Except.map], rfl⟩
  | none =>
    rw [runFrom_declare_of_new hnew, if_pos hfew]
    exact ⟨_, rfl, by simp [Except.map], rfl⟩

/-- While indices last, a call does to the arena what it does to the engine, and ends alike. -/
theorem runFrom_program (c : EngineCall) (hs : e.Sound) (hfew : e.types.length < UInt32.size)
    (hfew' : (runFrom c.step e).1 ≠ .error .abort →
      (runFrom c.step e).2.types.length < UInt32.size) :
    ∃ a, runFrom c.program e.host = (a, (runFrom c.step e).2.host) ∧
      (a = .error (.halted .abort) ↔ (runFrom c.step e).1 = .error .abort) := by
  rcases c with r | ⟨m, c⟩
  · by_cases hr : ∀ t, r ≠ .declare t
    · have hprogram : (EngineCall.request r).program = HostM.within r.step := by
        cases r with
        | declare t => exact absurd rfl (hr t)
        | _ => rfl
      refine ⟨_, hprogram ▸ runFrom_within r.step (leads_step hr hs).map_definition, ?_⟩
      show _ ↔ (runFrom r.step e).1 = _
      rcases (runFrom r.step e).1 with (payload | _) | _ <;> simp [Except.mapError]
    · push Not at hr
      obtain ⟨t, rfl⟩ := hr
      obtain ⟨a, hrun, ha, hok⟩ := runFrom_declareRequest hfew t
      refine ⟨a, hrun, ?_⟩
      show _ ↔ (runFrom (Request.declare t).step e).1 = _
      rw [hok]
      simp [ha]
  · have hok : (runFrom (EngineCall.declareTypes m c).step e).1 = .ok () := rfl
    have hfew₁ : (m.declareTypes c e).1.types.length < UInt32.size :=
      hfew' (by rw [hok]; simp)
    obtain ⟨ps, hrun⟩ := runFrom_declareTypes hfew₁
    show ∃ a, runFrom (discard (HostM.declareTypes m c)) e.host = _ ∧ _
    rw [runFrom_discard, hrun, hok]
    refine ⟨_, rfl, ?_⟩
    cases (m.declareTypes c e).2 <;> simp [Except.map]

end Calls

/-! ## Runs -/

section Runs

variable {c : EngineCall} {calls : List EngineCall}

/-- An abort ends a run. -/
theorem Engine.moments_cons_of_abort (h : (runFrom c.step e).1 = .error .abort) :
    e.moments (c :: calls) = Moment.between e :: c.trail e := by
  unfold moments
  rcases hstep : runFrom c.step e with ⟨a, e₁⟩
  rw [hstep] at h
  cases h
  simp

/-- A run goes on after each call that does not end it. -/
theorem Engine.moments_cons (h : (runFrom c.step e).1 ≠ .error .abort) :
    e.moments (c :: calls) =
      Moment.between e :: (c.trail e ++ (runFrom c.step e).2.moments calls) := by
  conv => lhs; unfold moments
  rcases hstep : runFrom c.step e with ⟨(payload | _) | _, e₁⟩
  · rfl
  · rw [hstep] at h
    exact absurd rfl h
  · rfl

theorem Host.visits_cons_of_abort {h h' : Host}
    (hrun : runFrom c.program h = (.error (.halted .abort), h')) :
    h.visits (c :: calls) = h :: (c.trail h.engine).map fun m => { h with engine := m.engine } := by
  unfold visits
  rw [hrun]
  simp

theorem Host.visits_cons {h h' : Host} {a : Except HostFault Unit}
    (hrun : runFrom c.program h = (a, h')) (ha : a ≠ .error (.halted .abort)) :
    h.visits (c :: calls) =
      h :: ((c.trail h.engine).map (fun m => { h with engine := m.engine }) ++
        h'.visits calls) := by
  conv => lhs; unfold visits
  rw [hrun]
  rcases a with (error | last | payload | _) | _
  · rfl
  · rfl
  · rfl
  · exact absurd rfl ha
  · rfl

/-- While indices last, a host comes to the engines of a run, each with the arena for its types. -/
theorem visits_host (hs : e.Sound)
    (hfew : ∀ m ∈ e.moments calls, m.engine.types.length < UInt32.size) :
    e.host.visits calls = (e.moments calls).map fun m => m.engine.host := by
  induction calls generalizing e with
  | nil => rfl
  | cons c calls ih =>
    have htrail : (c.trail e).map (fun m => { e.host with engine := m.engine }) =
        (c.trail e).map fun m => m.engine.host :=
      List.map_congr_left fun m hm =>
        Engine.host_of_definitions (moments_of_trail c hs hm).2
    by_cases habort : (runFrom c.step e).1 = .error .abort
    · rw [Engine.moments_cons_of_abort habort] at hfew ⊢
      obtain ⟨a, hrun, ha⟩ := runFrom_program c hs (hfew _ List.mem_cons_self)
        fun hne => absurd habort hne
      rw [ha.2 habort] at hrun
      rw [Host.visits_cons_of_abort hrun, List.map_cons]
      exact congrArg (e.host :: ·) htrail
    · rw [Engine.moments_cons habort] at hfew ⊢
      have hrest := (List.forall_mem_append.1 (List.forall_mem_cons.1 hfew).2).2
      have hnext : Moment.between (runFrom c.step e).2 ∈ (runFrom c.step e).2.moments calls := by
        unfold Engine.moments
        cases calls <;> exact List.mem_cons_self
      obtain ⟨a, hrun, ha⟩ := runFrom_program c hs (hfew _ List.mem_cons_self)
        fun _ => hrest _ hnext
      rw [Host.visits_cons hrun fun heq => habort (ha.1 heq), List.map_cons, List.map_append,
        ih (sound_step c hs) hrest]
      exact congrArg (fun l => e.host :: (l ++ _)) htrail

/-- The moments of a run are sound, and no definition is taken away from one to the next. -/
theorem moments_chronicle (hs : e.Sound) (calls : List EngineCall) :
    (∀ m ∈ e.moments calls, m.engine.Sound ∧ e.definitions <+: m.engine.definitions) ∧
      (e.moments calls).Pairwise fun m m' => m.engine.definitions <+: m'.engine.definitions := by
  induction calls generalizing e with
  | nil =>
    refine ⟨fun m hm => ?_, List.pairwise_singleton _ _⟩
    rw [List.mem_singleton.1 hm]
    exact ⟨hs, List.prefix_rfl⟩
  | cons c calls ih =>
    have htrail : ∀ m ∈ c.trail e, m.engine.Sound ∧ e.definitions <+: m.engine.definitions :=
      fun m hm => ⟨(moments_of_trail c hs hm).1, (moments_of_trail c hs hm).2 ▸ List.prefix_rfl⟩
    have hordered : (c.trail e).Pairwise fun m m' =>
        m.engine.definitions <+: m'.engine.definitions :=
      List.pairwise_of_forall_mem_list fun m hm m' hm' => by
        rw [(moments_of_trail c hs hm).2]
        exact (htrail m' hm').2
    by_cases habort : (runFrom c.step e).1 = .error .abort
    · rw [Engine.moments_cons_of_abort habort]
      exact ⟨List.forall_mem_cons.2 ⟨⟨hs, List.prefix_rfl⟩, htrail⟩,
        List.pairwise_cons.2 ⟨fun m hm => (htrail m hm).2, hordered⟩⟩
    · rw [Engine.moments_cons habort]
      obtain ⟨hrest, hpairs⟩ := ih (sound_step c hs)
      have hnext : ∀ m ∈ (runFrom c.step e).2.moments calls,
          e.definitions <+: m.engine.definitions :=
        fun m hm => (prefix_step c hs).trans (hrest m hm).2
      refine ⟨List.forall_mem_cons.2 ⟨⟨hs, List.prefix_rfl⟩, List.forall_mem_append.2
        ⟨htrail, fun m hm => ⟨(hrest m hm).1, hnext m hm⟩⟩⟩, List.pairwise_cons.2 ⟨?_,
        List.pairwise_append.2 ⟨hordered, hpairs, fun m hm m' hm' => ?_⟩⟩⟩
      · exact List.forall_mem_append.2 ⟨fun m hm => (htrail m hm).2, hnext⟩
      · rw [(moments_of_trail c hs hm).2]
        exact hnext m' hm'

theorem issued_prefix (h : e.definitions <+: e'.definitions) :
    e.host.issued <+: e'.host.issued := by
  obtain ⟨ts, hts⟩ := h
  unfold Engine.host
  rw [← hts, List.zipIdx_append, List.map_append]
  exact List.prefix_append _ _

/-- Whatever is declared, one by one or from manifests, and whatever is composed in between, with
fewer types than there are indices the arena goes along with the engine, also while a hook has
control. At each moment it agrees with itself and with the engine, and a declaration goes as it
should: under a new name it succeeds, under a known one nothing changes, and of the types of a
manifest that are not all declared, those before the first that fails are. From one moment to the
next handles are only added. -/
theorem arena_of_calls (b : RegistryBuilder) (config : Config) (calls : List EngineCall)
    (hfew : ∀ m ∈ (Engine.new b.freeze config).moments calls,
      m.engine.types.length < UInt32.size) :
    let start := Engine.new b.freeze config
    let hosts := Host.visits { engine := start } calls
    hosts = (start.moments calls).map (fun m => m.engine.host) ∧
      (∀ h ∈ hosts, h.Orderly ∧ h.Agrees ∧ h.Declares) ∧
      hosts.Pairwise fun h h' => h.issued <+: h'.issued := by
  intro start hosts
  have hs : start.Sound := Engine.sound_new b config
  have hhosts : hosts = (start.moments calls).map fun m => m.engine.host := visits_host hs hfew
  obtain ⟨hsound, hordered⟩ := moments_chronicle hs calls
  refine ⟨hhosts, ?_, ?_⟩
  · rw [hhosts]
    refine List.forall_mem_map.2 fun m hm => ?_
    have hlt := hfew m hm
    exact ⟨Engine.orderly_host (hsound m hm).1 hlt.le, agrees_host hlt,
      declares_host hlt⟩
  · rw [hhosts]
    exact List.pairwise_map.2 (hordered.imp issued_prefix)

end Runs

namespace Sample

/-- Declarations of three types, one of them three times, and a composition. -/
def hiring : List EngineCall :=
  [.request (.declare (.named "cook")), .request (.compose "cook"),
    .request (.declare (.named "cook")),
    .declareTypes { types := [{ name := "waiter" }, { name := "cook" }, { name := "porter" }] }
      .ofStandIns]

end Sample

open Sample in
/-- In the end two types are declared, and the one that was declared again is still composed. -/
theorem arena_of_calls_hiring :
    let start := Engine.new (RegistryBuilder.freeze {}) {}
    (∀ m ∈ start.moments hiring, m.engine.types.length < UInt32.size) ∧
      ∃ h ∈ Host.visits { engine := start } hiring, h.names = ["cook", "waiter"] ∧
        h.engine.state "cook" = .ok .composed ∧ h.Orderly ∧ h.Agrees ∧ h.Declares := by
  intro start
  have hfew : ∀ m ∈ start.moments hiring, m.engine.types.length < UInt32.size := by
    decide +kernel
  obtain ⟨-, hhosts, -⟩ := arena_of_calls {} {} hiring hfew
  refine ⟨hfew, (Host.visits { engine := start } hiring).getLast (List.cons_ne_nil _ _),
    List.getLast_mem _, ?_, ?_, hhosts _ (List.getLast_mem _)⟩
  · decide +kernel
  · decide +kernel

end RoleComposition
