import RoleComposition.Proofs.Passages

/-!
# Runs

A run begins with an engine without types. Each call of it is a course, and so the engine is sound
at every moment of its history, and slots only move forward from an earlier moment to a later one.
Main statements: `sound_of_mem_history` and `pairwise_progress_history`.
-/

namespace RoleComposition

variable {e e₁ : Engine}

namespace Engine

/-- The engine with one more type, under a new name. -/
def adding (e : Engine) (t : AdoptingType) : Engine :=
  { e with types := e.types ++ [{ definition := t }] }

theorem find?_adding (e : Engine) (t : AdoptingType) (b : String) :
    (e.adding t).find? b =
      (e.find? b).or (if t.name = b then some { definition := t } else none) := by
  unfold find? adding
  rw [List.find?_append]
  congr 1
  by_cases hb : t.name = b
  · simp [hb]
  · simp [hb]

theorem slotOf_adding (e : Engine) (t : AdoptingType) (b : String) :
    (e.adding t).slotOf b = e.slotOf b := by
  unfold slotOf
  rw [find?_adding]
  cases e.find? b with
  | some t' => rfl
  | none =>
    rw [Option.none_or]
    split_ifs
    · rfl
    · rfl

theorem Sound.adding (hs : e.Sound) {t : AdoptingType} (hnew : e.find? t.name = none) :
    (e.adding t).Sound := by
  refine ⟨hs.registry, ?_, fun t' ht' => ?_, fun t' ht' outcome ho => ?_, hs.nested, fun b => ?_,
    fun b => ?_⟩
  · unfold Engine.adding
    rw [List.map_append]
    refine List.nodup_append.2 ⟨hs.distinct, List.nodup_singleton _, ?_⟩
    rintro a ha b hb rfl
    obtain ⟨t', ht', rfl⟩ := List.mem_map.1 ha
    refine List.find?_eq_none.1 hnew t' ht' ?_
    simpa using hb
  · rcases List.mem_append.1 ht' with ht' | ht'
    · exact hs.marked t' ht'
    · rw [List.mem_singleton.1 ht']
      rfl
  · rcases List.mem_append.1 ht' with ht' | ht'
    · exact hs.settles t' ht' outcome ho
    · rw [List.mem_singleton.1 ht'] at ho
      cases ho
  · rw [slotOf_adding]
    exact hs.running b
  · rw [slotOf_adding]
    exact hs.started b

/-- A newly declared type is vacant, and the others are as they were. -/
theorem course_declare (hs : e.Sound) {t : AdoptingType} {handle : Handle}
    (h : e.declare t = .ok (handle, e₁)) : Course e [] e₁ := by
  unfold declare at h
  split_ifs at h with hsome
  cases h
  have hnew : e.find? t.name = none := by simpa using hsome
  refine ⟨hs.adding hnew, rfl, ⟨rfl, rfl, fun b t' ht' => ⟨t', ?_, rfl, .same _⟩⟩, by simp,
    by simp, .nil⟩
  exact (find?_adding e t b).trans (by rw [ht']; rfl)

end Engine

/-! ## Calls -/

theorem runFrom_discard {ε σ α : Type} (step : ExceptT ε (StateM σ) α) (s : σ) :
    runFrom (discard step) s = ((runFrom step s).1.map fun _ => ⟨⟩, (runFrom step s).2) := by
  have hmap : (discard step : ExceptT ε (StateM σ) PUnit) = step >>= fun _ => pure ⟨⟩ := rfl
  rw [hmap, runFrom_bind]
  rcases runFrom step s with ⟨_ | _, _⟩ <;> rfl

/-- The first use of a type composes it; a failure is fatal. -/
theorem runFrom_firstUse (policy : FailurePolicy) (name : String) (e : Engine) :
    runFrom (EngineM.firstUse policy name) e =
      match runFrom (EngineM.compose name) e with
      | (.ok (.ok table), e₁) => (.ok (.ok table), e₁)
      | (.ok (.error cause), e₁) =>
        (if policy = .abort then .error .abort else .ok (.error ⟨name, cause⟩),
          e₁.logged (.compositionFatal name cause))
      | (.error halt, e₁) => (.error halt, e₁) := by
  unfold EngineM.firstUse
  rw [runFrom_bind]
  rcases runFrom (EngineM.compose name) e with ⟨halt | cause | table, e₁⟩
  · rfl
  · cases policy <;> rfl
  · rfl

theorem Course.bind {α β : Type} {l : List Moment} {step : EngineM α} {next : α → EngineM β}
    {trail : α → Engine → List Moment} (h : Course e l (runFrom step e).2)
    (h' : ∀ a e₁, runFrom step e = (.ok a, e₁) → Course e₁ (trail a e₁) (runFrom (next a) e₁).2) :
    Course e (l ++ Trail.after step trail e) (runFrom (step >>= next) e).2 := by
  rw [runFrom_bind]
  unfold Trail.after
  rcases hrun : runFrom step e with ⟨halt | a, e₁⟩
  · rw [hrun] at h
    rw [List.append_nil]
    exact h
  · rw [hrun] at h
    exact h.append (h' a e₁ hrun)

theorem course_compose (hs : e.Sound) (name : String) :
    Course e (Trail.compose e.vacantTypes name e) (runFrom (EngineM.compose name) e).2 :=
  (passage_composeWithin e.vacantTypes name e hs (Nat.le_refl _)).toCourse

theorem course_firstUse (hs : e.Sound) (policy : FailurePolicy) (name : String) :
    Course e (Trail.compose e.vacantTypes name e) (runFrom (EngineM.firstUse policy name) e).2 := by
  have h := course_compose hs name
  rw [runFrom_firstUse]
  generalize runFrom (EngineM.compose name) e = run at h ⊢
  rcases run with ⟨halt | cause | table, e₁⟩
  · exact h
  · have hq : e₁.Quiet (e₁.logged (.compositionFatal name cause)) :=
      ⟨rfl, rfl, rfl, rfl, fun _ => Engine.starts_logged _ _ _⟩
    have h' := h.append (.nil (hq.sound h.sound) hq.leads)
    rwa [List.append_nil] at h'
  · exact h

theorem sound_between (hs : e.Sound) : (Moment.between e).Sound := ⟨hs, Nat.le_refl _⟩

theorem course_firstUses (policy : FailurePolicy) (names : List String) (hs : e.Sound) :
    Course e (Trail.firstUses policy names e) (runFrom (EngineM.firstUses policy names) e).2 := by
  induction names generalizing e with
  | nil => exact .nil hs (.refl e)
  | cons name names ih =>
    have h := course_firstUse hs policy name
    refine .cons (sound_between hs) (h.bind fun used e₁ hrun => ?_)
    rw [hrun] at h
    have h₁ := ih h.sound
    rw [runFrom_bind]
    rcases hrest : runFrom (EngineM.firstUses policy names) e₁ with ⟨halt | fatals, e₂⟩
    · rw [hrest] at h₁
      exact h₁
    · rw [hrest] at h₁
      exact h₁

/-- Each call of a run is a course. -/
theorem course_step (r : Request) (hs : e.Sound) :
    Course e (r.trail e) (runFrom r.step e).2 := by
  have hrefl : Course e [] e := .nil hs (.refl e)
  cases r with
  | declare t =>
    unfold Request.step
    rw [runFrom_modify]
    cases hd : e.declare t with
    | error error => exact hrefl
    | ok declared => exact Engine.course_declare hs hd
  | compose name =>
    unfold Request.step
    rw [runFrom_discard]
    exact course_compose hs name
  | firstUse policy name =>
    unfold Request.step
    rw [runFrom_discard]
    exact course_firstUse hs policy name
  | ensureAll policy =>
    unfold Request.step
    rw [runFrom_discard]
    exact course_firstUses policy _ hs
  | closure role =>
    obtain ⟨reg', hrun, hfill⟩ := Registry.runFrom_closure hs.registry role
    have hend : (runFrom (Request.closure role).step e).2 = { e with registry := reg' } := by
      unfold Request.step
      rw [runFrom_discard]
      show { e with registry := (runFrom (Registry.closure role) e.registry).2 } = _
      rw [hrun]
    rw [hend]
    exact .nil (hs.of_fills hfill) (Engine.leads_of_fills hfill)
  | state name => exact hrefl
  | outcome name => exact hrefl
  | effectiveMethods name => exact hrefl
  | report name => exact hrefl
  | dispatch depth name s receiver args => exact hrefl

/-! ## Histories -/

/-- The moments of a run from an engine on. No engine stands at its end, as an abort leaves none. -/
structure Chronicle (e : Engine) (l : List Moment) : Prop where
  moments : ∀ m ∈ l, m.Sound ∧ e.Progress m.engine
  idle : ∀ m ∈ l, m.hook = none → m.engine.spans = e.spans
  ordered : l.Pairwise fun m m' => m.engine.Progress m'.engine

theorem Chronicle.cons {l : List Moment} (hs : e.Sound) (h : Chronicle e l) :
    Chronicle e (Moment.between e :: l) := by
  refine ⟨fun m hm => ?_, fun m hm hhook => ?_,
    List.pairwise_cons.2 ⟨fun m hm => (h.moments m hm).2, h.ordered⟩⟩
  · rcases List.mem_cons.1 hm with rfl | hm
    · exact ⟨sound_between hs, .refl e⟩
    · exact h.moments m hm
  · rcases List.mem_cons.1 hm with rfl | hm
    · rfl
    · exact h.idle m hm hhook

/-- A run goes on after a course. -/
theorem Course.chronicle {l l' : List Moment} (h : Course e l e₁) (h' : Chronicle e₁ l') :
    Chronicle e (l ++ l') := by
  refine ⟨fun m hm => ?_, fun m hm hhook => ?_,
    List.pairwise_append.2 ⟨h.ordered, h'.ordered, fun m hm m' hm' => ?_⟩⟩
  · rcases List.mem_append.1 hm with hm | hm
    · exact ⟨(h.moments m hm).1, (h.moments m hm).2.1⟩
    · exact ⟨(h'.moments m hm).1, h.progress.trans (h'.moments m hm).2⟩
  · rcases List.mem_append.1 hm with hm | hm
    · exact h.idle m hm hhook
    · exact (h'.idle m hm hhook).trans h.spans
  · exact (h.moments m hm).2.2.trans (h'.moments m' hm').2

theorem chronicle_history (rs : List Request) (hs : e.Sound) : Chronicle e (history e rs) := by
  induction rs generalizing e with
  | nil => exact .cons hs ⟨by simp, by simp, .nil⟩
  | cons r rs ih =>
    have h := course_step r hs
    refine .cons hs ?_
    rcases hrun : runFrom r.step e with ⟨(payload | _) | _, e₁⟩
    all_goals rw [hrun] at h
    · exact h.chronicle (ih h.sound)
    · exact h.chronicle ⟨by simp, by simp, .nil⟩
    · exact h.chronicle (ih h.sound)

section Runs

variable {b : RegistryBuilder} {config : Config} {rs : List Request} {m : Moment}

/-- At every moment of a run the engine is sound, over the definitions it began with. -/
theorem sound_of_mem_history (h : m ∈ history (Engine.new b.freeze config) rs) :
    m.Sound ∧ m.engine.registry.definitions = b.freeze.definitions ∧ m.engine.config = config := by
  obtain ⟨hs, hp⟩ := (chronicle_history rs (Engine.sound_new b config)).moments m h
  exact ⟨hs, hp.definitions, hp.config⟩

/-- From an earlier moment of a run to a later one, slots only move forward. -/
theorem pairwise_progress_history (b : RegistryBuilder) (config : Config) (rs : List Request) :
    (history (Engine.new b.freeze config) rs).Pairwise fun m m' => m.engine.Progress m'.engine :=
  (chronicle_history rs (Engine.sound_new b config)).ordered

/-- Between two calls no type is being composed. -/
theorem idle_of_mem_history (h : m ∈ history (Engine.new b.freeze config) rs)
    (hhook : m.hook = none) : m.engine.spans = [] :=
  (chronicle_history rs (Engine.sound_new b config)).idle m h hhook

end Runs

/-- A run goes on after each call that does not end it. -/
theorem mem_history_cons {r : Request} {rs : List Request} {m : Moment}
    (hr : (runFrom r.step e).1 ≠ .error .abort) (hm : m ∈ history (runFrom r.step e).2 rs) :
    m ∈ history e (r :: rs) := by
  refine List.mem_cons_of_mem _ (List.mem_append_right _ ?_)
  generalize runFrom r.step e = run at hr hm ⊢
  rcases run with ⟨(payload | _) | _, e₁⟩
  · exact hm
  · exact absurd rfl hr
  · exact hm

/-! ## A small run -/

namespace Sample

def greet : Signature := ⟨.onInstance, "greet"⟩

def greeting : RoleDefinition :=
  (RoleDefinition.named ⟨"greeting"⟩).providesPrivate greet (.standIn (.role ⟨"greeting"⟩) greet)

/-- A registry of one role with one method. -/
def roles : RegistryBuilder := { roles := [greeting] }

/-- A type that adopts the role, with a hook that always does the same. -/
def adopter (name : String) (c : Consultation) : AdoptingType :=
  { name, declaredRoles := [greeting.id], veto := some ⟨fun _ _ => c, fun _ _ => c⟩ }

/-- Types that are declared, none of them composed yet. -/
def declared (types : List AdoptingType) : Engine :=
  { Engine.new roles.freeze {} with types := types.map fun t => { definition := t } }

end Sample

end RoleComposition
