import RoleComposition.Proofs.Closures
import RoleComposition.Proofs.Control
import RoleComposition.Proofs.Interviews

/-!
# When hooks are asked

What the hook of a type is asked over the whole life of an engine follows a schedule that the
definitions fix: signature by signature, and for each signature one role after the other, as the
declared roles meet them. The merge of the type is an interview of its hook along the schedule, and
nothing else asks anything. Main statements: `schedules_questionsTo` (what the schedule is) and
`heard_of_history` (how far a hook has been asked at any moment of a run, and what the asking is).
-/

namespace RoleComposition

namespace Registry

/-- Of two roles that offer a signature, the declared roles meet one before the other: the first of
them that reaches either does not reach the other, or holds it later in its closure. -/
def MetBefore (reg : Registry) (declared : List RoleId) (s : Signature) (o o' : RoleId) : Prop :=
  ∃ before via after, declared = before ++ via :: after ∧
    (∀ v ∈ before, ¬ reg.Reaches v o ∧ ¬ reg.Reaches v o') ∧ reg.Reaches via o ∧
    (reg.Reaches via o' → ∃ c, (runFrom (closure via) reg).1 = .ok c ∧
      [o, o'].Sublist ((c.candidates s).map ClosureEntry.origin))

/-- All there is to ask the hook of a type, each question once, signatures in increasing order, and
for each signature the roles as the declared roles meet them. -/
structure Schedules (reg : Registry) (config : Config) (t : AdoptingType)
    (qs : List Question) : Prop extends reg.Consults config t qs where
  ordered : qs.Pairwise fun q q' => q.signature < q'.signature ∨
    q.signature = q'.signature ∧ reg.MetBefore t.declaredRoles q.signature q.role q'.role

end Registry

/-- How far the hook of a type has been asked, by where the type stands: not at all before its merge
starts, to the end of the schedule once the merge has ended, and never off the schedule. -/
structure Engine.Heard (e : Engine) (t : TypeEntry) (qs : List Question) : Prop where
  unasked : t.slot = .vacant → e.questionsOf t.definition.name = []
  inOrder : e.questionsOf t.definition.name <+: qs
  complete : ∀ outcome, t.slot = .settled outcome →
    (∀ owner message, outcome ≠ .error (.compositionPanicked owner message)) →
      e.questionsOf t.definition.name = qs

namespace Engine

/-- What stays of an engine: the definitions of its roles, its settings, and how a type has been
declared. -/
structure Fixed (b : RegistryBuilder) (config : Config) (t : AdoptingType) (e : Engine) : Prop where
  serves : Registry.Serves b e.registry
  config_eq : e.config = config
  declared : ∃ entry, e.find? t.name = some entry ∧ entry.definition = t

/-- The hook of a type of that name has been asked as far as it should, if there is one. -/
structure Hears (b : RegistryBuilder) (config : Config) (own : String) (e : Engine) : Prop where
  serves : Registry.Serves b e.registry
  config_eq : e.config = config
  heard : ∀ t, e.find? own = some t → e.Heard t (b.freeze.questionsTo config t.definition)
  undeclared : e.find? own = none → e.questionsOf own = []

end Engine

/-! ## The schedule -/

namespace Registry

section Meeting

variable {reg : Registry} {declared : List RoleId} {s : Signature} {o o' v : RoleId}

/-- A declared role that reaches neither role does not count. -/
theorem MetBefore.cons (hv : ¬ reg.Reaches v o) (hv' : ¬ reg.Reaches v o')
    (h : reg.MetBefore declared s o o') : reg.MetBefore (v :: declared) s o o' := by
  obtain ⟨before, via, after, rfl, hbefore, hvia⟩ := h
  exact ⟨v :: before, via, after, rfl, List.forall_mem_cons.2 ⟨⟨hv, hv'⟩, hbefore⟩, hvia⟩

theorem closure_of_resolvesWithin (hs : reg.Sound) (h : reg.ResolvesWithin reg.size v) :
    (runFrom (closure v) reg).1 = .ok (reg.closureOf v) := by
  obtain ⟨reg', hrun, -⟩ := runFrom_closure hs v
  have hbelow {b : RoleId} (hb : reg.ReachedFrom [v] b) : reg.ResolvesWithin reg.size b :=
    h.reaches (reachedFrom_singleton.1 hb)
  obtain ⟨order, horder⟩ := resolutionOrder_isOk.2
    ⟨fun b hb => contains_iff.2 (hbelow hb).registered, fun b hb => (hbelow hb).not_onCycle⟩
  rw [hrun, horder]
  rfl

/-- The candidates of the first declared role come in the order of its closure, and then those that
it does not reach. -/
theorem candidatesFor_cons (h : reg.ResolvesWithin reg.size v) :
    reg.candidatesFor (v :: declared) s =
      ((reg.closureOf v).candidates s).map (ClosureEntry.through v) ++
        (reg.candidatesFor declared s).filter fun c =>
          c.origin ∉ ((reg.closureOf v).candidates s).map ClosureEntry.origin := by
  have horigins : ((reg.closureOf v).candidates s).map ClosureEntry.origin =
      (((reg.closureOf v).candidates s).map (ClosureEntry.through v)).map Candidate.origin := by
    rw [List.map_map]
    rfl
  rw [horigins, candidates_closureOf h, firstMet_map_through]
  unfold candidatesFor
  rw [List.flatMap_cons, firstMet, keepNew_append, keepNew_eq_append]
  rfl

/-- Candidates come as the declared roles meet them. -/
theorem pairwise_candidatesFor (hs : reg.Sound)
    (h : ∀ via ∈ declared, reg.ResolvesWithin reg.size via) :
    (reg.candidatesFor declared s).Pairwise fun c c' =>
      reg.MetBefore declared s c.origin c'.origin := by
  induction declared with
  | nil => exact .nil
  | cons v declared ih =>
    obtain ⟨hv, hrest⟩ := List.forall_mem_cons.1 h
    have hclosure := closure_of_resolvesWithin hs hv
    have hgathers := gathers_closureOf hv
    rw [candidatesFor_cons hv]
    refine List.pairwise_append.2 ⟨?_, ?_, ?_⟩
    -- two candidates of the first role
    · refine List.pairwise_map.2 (List.pairwise_iff_forall_sublist.2 fun {e e'} hsub => ?_)
      have he : e ∈ (reg.closureOf v).candidates s := hsub.subset List.mem_cons_self
      exact ⟨[], v, declared, rfl, List.forall_mem_nil _, ((hgathers.mem_iff s e).1 he).1,
        fun _ => ⟨_, hclosure, hsub.map ClosureEntry.origin⟩⟩
    -- two candidates that it does not reach
    · have hmissed {c : Candidate} (hc : c ∈ reg.candidatesFor declared s)
          (hnew : c.origin ∉ ((reg.closureOf v).candidates s).map ClosureEntry.origin) :
          ¬ reg.Reaches v c.origin := fun hreach =>
        hnew (List.mem_map.2 ⟨⟨c.origin, c.implementation⟩,
          (hgathers.mem_iff s _).2 ⟨hreach, ((mem_candidatesFor hrest).1 hc).2⟩, rfl⟩)
      refine ((ih hrest).filter _).imp_of_mem fun {c c'} hc hc' hmet => ?_
      obtain ⟨hc, hnew⟩ := List.mem_filter.1 hc
      obtain ⟨hc', hnew'⟩ := List.mem_filter.1 hc'
      exact hmet.cons (hmissed hc (by simpa using hnew)) (hmissed hc' (by simpa using hnew'))
    -- one of each
    · intro c hc c' hc'
      obtain ⟨e, he, rfl⟩ := List.mem_map.1 hc
      obtain ⟨hc', hnew⟩ := List.mem_filter.1 hc'
      refine ⟨[], v, declared, rfl, List.forall_mem_nil _, ((hgathers.mem_iff s e).1 he).1,
        fun hreach => ?_⟩
      have hheld : (⟨c'.origin, c'.implementation⟩ : ClosureEntry) ∈
          (reg.closureOf v).candidates s :=
        (hgathers.mem_iff s _).2 ⟨hreach, ((mem_candidatesFor hrest).1 hc').2⟩
      exact absurd (List.mem_map_of_mem hheld) (by simpa using hnew)

end Meeting

/-- The questions of a merge are the schedule. -/
theorem schedules_questionsTo {reg : Registry} (hs : reg.Sound) (config : Config)
    (t : AdoptingType) : reg.Schedules config t (reg.questionsTo config t) := by
  refine ⟨consults_questionsTo reg config t, ?_⟩
  unfold questionsTo
  cases hcheck : reg.check config t with
  | error error => exact .nil
  | ok _ =>
    have hwithin := resolvesWithin_of_check hcheck
    refine List.pairwise_flatMap.2 ⟨?_, (reg.offersTo t).ascending.imp ?_⟩
    · rintro ⟨s, cs⟩ hcs
      obtain ⟨-, -, rfl⟩ := (mem_offersTo hwithin).1 hcs
      unfold AdoptingType.questionsAbout
      cases t.veto with
      | none => exact .nil
      | some hook =>
        exact List.pairwise_map.2 ((pairwise_candidatesFor hs hwithin).imp fun hmet =>
          .inr ⟨rfl, hmet⟩)
    · rintro ⟨s, cs⟩ ⟨s', cs'⟩ hlt q hq q' hq'
      obtain ⟨-, c, -, rfl⟩ := AdoptingType.mem_questionsAbout.1 hq
      obtain ⟨-, c', -, rfl⟩ := AdoptingType.mem_questionsAbout.1 hq'
      exact .inl hlt

end Registry

/-! ## Questions along a run -/

namespace Engine

variable {b : RegistryBuilder} {config : Config} {own : String} {e : Engine}

theorem lasting_fixed (b : RegistryBuilder) (config : Config) (t : AdoptingType) :
    Lasting (Fixed b config t) fun _ => True where
  sound := fun _ h => h.serves.sound
  fills := fun _ _ h hfill => ⟨h.serves.of_fills hfill, h.config_eq, h.declared⟩
  starts := fun _ _ _ _ _ _ => trivial
  advances := fun e t' f h _ hf => by
    obtain ⟨entry, hentry, hdef⟩ := h.declared
    refine ⟨h.serves, h.config_eq, _, by rw [find?_updateEntry hf.definition, hentry]; rfl, ?_⟩
    split_ifs
    · exact (hf.definition entry).trans hdef
    · exact hdef
  asks := fun _ _ _ _ h _ _ => ⟨h.serves, h.config_eq, h.declared⟩
  records := fun e e' h hreg hconfig htypes _ => by
    refine ⟨hreg ▸ h.serves, hconfig.trans h.config_eq, ?_⟩
    unfold find?
    rw [htypes]
    exact h.declared
  declares := fun e t' h _ => by
    obtain ⟨entry, hentry, hdef⟩ := h.declared
    exact ⟨h.serves, h.config_eq, entry, by rw [find?_adding, hentry]; rfl, hdef⟩

/-- It depends on the entry of the type and on what its hook has been asked. -/
theorem Hears.congr {e' : Engine} (h : Hears b config own e)
    (hserves : Registry.Serves b e'.registry) (hconfig : e'.config = config)
    (hfind : e'.find? own = e.find? own) (hasked : e'.questionsOf own = e.questionsOf own) :
    Hears b config own e' := by
  refine ⟨hserves, hconfig, fun t ht => ?_, fun hnone => ?_⟩
  · have hname := name_of_find? ht
    subst hname
    obtain ⟨hunasked, hinOrder, hcomplete⟩ := h.heard t (hfind ▸ ht)
    rw [← hasked] at hunasked hinOrder hcomplete
    exact ⟨hunasked, hinOrder, hcomplete⟩
  · rw [hasked]
    exact h.undeclared (hfind ▸ hnone)

theorem steady_hears (b : RegistryBuilder) (config : Config) (own : String) :
    Steady (Hears b config own) where
  sound := fun _ h => h.serves.sound
  fills := fun _ _ h hfill => h.congr (h.serves.of_fills hfill) h.config_eq rfl rfl
  records := fun e e' h hreg hconfig htypes hasked => by
    refine h.congr (hreg ▸ h.serves) (hconfig.trans h.config_eq) ?_ ?_
    · unfold find?
      rw [htypes]
    · unfold questionsOf
      rw [hasked]

/-- In the merge of a type its hook is asked along the schedule. -/
theorem Fixed.hears_of_underway {t : AdoptingType} (h : Fixed b config t e)
    (hunder : e.Underway t.name)
    (hasked : e.questionsOf t.name <+: b.freeze.questionsTo config t) :
    Hears b config t.name e := by
  obtain ⟨entry, hentry, hdef⟩ := h.declared
  have hrunning : entry.slot = .running := by rw [← hunder.running, slotOf_of_find? hentry]
  refine ⟨h.serves, h.config_eq, fun t' ht' => ?_, fun hnone => ?_⟩
  · rw [hentry] at ht'
    cases ht'
    rw [hdef]
    refine ⟨fun hv => ?_, hdef ▸ hasked, fun outcome hsettled => ?_⟩
    · rw [hrunning] at hv
      cases hv
    · rw [hrunning] at hsettled
      cases hsettled
  · rw [hentry] at hnone
    cases hnone

/-- When the merge has ended, its hook has been asked all of the schedule, unless it has
panicked. -/
theorem Fixed.hears_of_settle {t : AdoptingType} (h : Fixed b config t e) {outcome : Outcome}
    (hasked : e.questionsOf t.name <+: b.freeze.questionsTo config t)
    (hall : (∀ owner message, outcome ≠ .error (.compositionPanicked owner message)) →
      e.questionsOf t.name = b.freeze.questionsTo config t) :
    Hears b config t.name (e.settle t.name outcome) := by
  obtain ⟨entry, hentry, hdef⟩ := h.declared
  have hfind : (e.settle t.name outcome).find? t.name =
      some { entry with slot := .settled outcome, settled := true } := by
    rw [find?_settle, hentry, Option.map_some, if_pos rfl]
  refine ⟨h.serves, h.config_eq, fun t' ht' => ?_, fun hnone => ?_⟩
  · rw [hfind] at ht'
    cases ht'
    refine ⟨fun hv => ?_, ?_, fun outcome' hsettled hfound => ?_⟩
    · cases hv
    · rw [hdef]
      exact hasked
    · cases hsettled
      rw [hdef]
      exact hall hfound
  · rw [hfind] at hnone
    cases hnone

/-- The merge of a type does not change how the type has been declared. -/
theorem kept_fixed (depth : Nat) {t : TypeEntry} (hserves : Registry.Serves b e.registry)
    (hconfig : e.config = config) (ht : e.find? t.definition.name = some t) :
    Kept (Fixed b config t.definition)
      (Trail.mergeTable depth (Trail.compose depth) t.definition (e.enter t.definition))
      (runFrom (EngineM.mergeTable (EngineM.composeWithin depth) t.definition).run
        (e.enter t.definition)) := by
  have hlasting := lasting_fixed b config t.definition
  exact kept_mergeTable (t := t.definition) hlasting.merging
    (fun name e₁ _ h₁ => kept_composeWithin depth hlasting name h₁)
    (fun _ _ _ h => ⟨h.serves, h.config_eq, h.declared⟩) (fun _ _ _ _ _ _ => trivial)
    ⟨hserves, hconfig, _, find?_enter_self ht, rfl⟩

/-- What is asked of a type along its own composition. -/
theorem kept_hears (depth : Nat) {t : TypeEntry} (he : Hears b config own e)
    (ht : e.find? own = some t) (hv : t.slot = .vacant) :
    Kept (Hears b config own) (Trail.compose (depth + 1) own e)
      (runFrom (EngineM.composeWithin (depth + 1) own) e) := by
  have hname := name_of_find? ht
  subst hname
  have hsteady := steady_hears b config t.definition.name
  have hserves : Registry.Serves b (e.enter t.definition).registry := he.serves
  -- nothing has been asked yet, so what the merge asks is all there is
  have hunasked : (e.enter t.definition).questionsOf t.definition.name = [] :=
    (he.heard t ht).unasked hv
  have hschedule : (e.enter t.definition).registry.questionsTo (e.enter t.definition).config
      t.definition = b.freeze.questionsTo config t.definition := by
    rw [Registry.questionsTo_congr hserves.definitions,
      show (e.enter t.definition).config = config from he.config_eq]
  have hfixed := kept_fixed depth he.serves he.config_eq ht
  have hasks := asks_mergeTable depth (underway_enter he.serves.sound ht)
  rw [hschedule] at hasks
  refine kept_of_afterMerge hsteady ht hv (fun m hm => ?_) ?_
  · obtain ⟨hunder, asked, hasked, hfirst⟩ := hasks.moments m hm
    rw [hunasked, List.nil_append] at hasked
    exact (hfixed.moments m hm).hears_of_underway hunder (hasked ▸ hfirst)
  · obtain ⟨asked, hasked, hfirst, hall⟩ := hasks.asked
    rw [hunasked, List.nil_append] at hasked
    rw [← hasked] at hfirst
    refine hsteady.afterMerge (fun payload _ => ?_) (fun _ => ?_) fun outcome hrun => ?_
    · exact hfixed.last.hears_of_settle hfirst fun hfound => absurd rfl (hfound _ _)
    · exact hfixed.last.hears_of_underway hasks.underway hfirst
    · exact hfixed.last.hears_of_settle hfirst fun _ => hasked.trans (hall outcome hrun)

/-- How far the hook of a type has been asked concerns that type only. -/
theorem concerns_hears (b : RegistryBuilder) (config : Config) (own : String) :
    Concerns (Hears b config own) own where
  toSteady := steady_hears b config own
  advances := fun e name f h hne hf => by
    refine h.congr h.serves h.config_eq ?_ rfl
    rw [find?_updateEntry hf.definition]
    simp [hne.symm]
  asks := fun e t role s h hne => by
    refine h.congr h.serves h.config_eq rfl ?_
    rw [questionsOf_ask, if_neg hne, List.append_nil]
  composes := fun depth e t h ht hv => kept_hears depth h ht hv
  declares := fun e t h hnew => by
    by_cases hown : t.name = own
    · subst hown
      have hfind : (e.adding t).find? t.name = some { definition := t } := by
        rw [find?_adding, hnew, Option.none_or, if_pos rfl]
      have hunasked := h.undeclared hnew
      refine ⟨h.serves, h.config_eq, fun t' ht' => ?_, fun hnone => ?_⟩
      · rw [hfind] at ht'
        cases ht'
        refine ⟨fun _ => hunasked, ?_, fun outcome hsettled => by cases hsettled⟩
        rw [show (e.adding t).questionsOf t.name = [] from hunasked]
        exact List.nil_prefix
      · rw [hfind] at hnone
        cases hnone
    · refine h.congr h.serves h.config_eq ?_ rfl
      rw [find?_adding, if_neg hown, Option.or_none]

end Engine

/-- Once the merge of a type has started, its hook is asked nothing by whatever else is composed,
and by no call. -/
theorem questionsOf_of_started {e : Engine} {name : String} (hs : e.registry.Sound)
    (hstarted : e.slotOf name ≠ .vacant) :
    (∀ depth other, (runFrom (EngineM.composeWithin depth other) e).2.questionsOf name =
      e.questionsOf name) ∧
    ∀ r : Request, (runFrom r.step e).2.questionsOf name = e.questionsOf name := by
  have hupheld := (Engine.lasting_questionsOf name hstarted (e.questionsOf name)).upheld
  have he : e.registry.Sound ∧ e.slotOf name = e.slotOf name ∧
      e.questionsOf name = e.questionsOf name := ⟨hs, rfl, rfl⟩
  exact ⟨fun depth other => (hupheld.composes depth other e he).last.2.2,
    fun r => (kept_step hupheld r he).last.2.2⟩

/-- A hook that has control at a moment of a run goes on from its entry point for the last question
of its type, whose merge is under way. Each type is asked along one schedule, which the definitions
fix: nothing before its merge starts, and all of it once the merge has ended without a panic. The
merge starts once at most. Composing a vacant type is the interview of its hook along the schedule;
once the merge has started, composing the type does nothing, and whatever else is done asks nothing
of its hook. -/
theorem heard_of_history {b : RegistryBuilder} {config : Config} {rs : List Request} {m : Moment}
    (hm : m ∈ history (Engine.new b.freeze config) rs) :
    m.Attended ∧ ∀ name t, m.engine.find? name = some t →
      let qs := b.freeze.questionsTo config t.definition
      b.freeze.Schedules config t.definition qs ∧ m.engine.Heard t qs ∧
      m.engine.starts name = (if t.slot.isVacant then 0 else 1) ∧
      (t.slot = .vacant → ∃ asked result e, m.Merges t.definition qs asked result e) ∧
      (t.slot ≠ .vacant → (m.compose name).2 = m.engine ∧
        (∀ other, (m.compose other).2.questionsOf name = m.engine.questionsOf name) ∧
        ∀ r : Request, (runFrom r.step m.engine).2.questionsOf name =
          m.engine.questionsOf name) := by
  obtain ⟨hs, hdefs, hconfig⟩ := sound_of_mem_history hm
  refine ⟨attended_of_mem_history rs (Engine.sound_new b config) m hm, fun name t ht => ?_⟩
  have hslot := Engine.slotOf_of_find? ht
  have hnew : Engine.Hears b config name (Engine.new b.freeze config) :=
    ⟨⟨(Engine.sound_new b config).registry, rfl⟩, rfl, fun t ht => by (cases ht), fun _ => rfl⟩
  have hhears := holds_of_mem_history (Engine.concerns_hears b config name).upheld rs hnew m hm
  have hheard := hhears.heard t ht
  refine ⟨Registry.schedules_questionsTo (Engine.sound_new b config).registry config t.definition,
    hheard, ?_, fun hv => ?_, fun hstarted => ?_⟩
  · rw [hs.engine.started, hslot]
  · have hunasked := hheard.unasked hv
    rw [Engine.name_of_find? ht] at hunasked
    have hmerges := merges_of_vacant hs ht hv hunasked
    rwa [hconfig, Registry.questionsTo_congr hdefs] at hmerges
  · obtain ⟨hcompose, hcall⟩ :=
      questionsOf_of_started hs.engine.registry (hslot.symm ▸ hstarted)
    refine ⟨?_, hcompose m.depth, hcall⟩
    have honce := oneShot_of_sound hs ht
    cases hcase : t.slot with
    | vacant => exact absurd hcase hstarted
    | running => rw [honce.running hcase]
    | settled outcome => rw [honce.settled outcome hcase]

namespace Sample

/-- A type over rival roles, the hook of which notes what it is asked, and panics when that is about
a method of the type. -/
def shy : AdoptingType :=
  { name := "shy"
    declaredRoles := [parting.id, staying.id]
    veto := some
      ⟨fun role s => .note { entry := .onInstance, role, signature := s } (.answer true),
        fun role s => .note { entry := .onType, role, signature := s } (.panic .other)⟩ }

end Sample

/-- A hook that panics at the third of four questions, and has noted the first three. -/
theorem heard_of_shy :
    let qs := Sample.rivals.freeze.questionsTo {} Sample.shy
    ∃ m ∈ history (Engine.new Sample.rivals.freeze {}) [.declare Sample.shy],
      ∃ t, m.engine.find? "shy" = some t ∧ t.slot = .vacant ∧
        ∃ asked result e, m.Merges Sample.shy qs asked result e ∧ asked = qs.take 3 ∧
          qs.length = 4 ∧ (m.compose "shy").2.notes.map (fun n => (n.entry, n.role, n.signature)) =
            asked.map fun q => (q.signature.level, q.role, q.signature) := by
  intro qs
  have hm : Moment.between (runFrom (Request.declare Sample.shy).step
      (Engine.new Sample.rivals.freeze {})).2 ∈
      history (Engine.new Sample.rivals.freeze {}) [.declare Sample.shy] :=
    mem_history_cons (by decide +kernel) List.mem_cons_self
  obtain ⟨-, -, -, hmerges, -⟩ := (heard_of_history hm).2 "shy" { definition := Sample.shy } rfl
  obtain ⟨asked, result, e, h⟩ := hmerges rfl
  have hasked : asked = qs.take 3 := h.recorded.symm.trans (by decide +kernel)
  exact ⟨_, hm, _, rfl, rfl, asked, result, e, h, hasked, by decide +kernel, by
    rw [hasked]
    decide +kernel⟩

end RoleComposition
