import RoleComposition.Proofs.Diagnosis
import RoleComposition.Proofs.OneShot
import RoleComposition.Proofs.Persistence

/-!
# What hooks are asked

The hook of a type is asked only while the type is being merged, and no merge of a type stands
within another one of it. So what a hook is asked can be followed along the steps of the merge,
whatever the hook composes meanwhile. Main statements: `asks_mergeTable` (a merge asks what
`questionsTo` lists, or the first of it if the merge halts) and `consults_questionsTo` (which
questions these are).
-/

namespace RoleComposition

/-- The questions that the hook of a type has been asked so far. -/
def Engine.questionsOf (e : Engine) (name : String) : List Question :=
  e.questions.filter fun q => q.typeName == name

/-- A type is being merged. -/
structure Engine.Underway (e : Engine) (name : String) : Prop where
  sound : e.registry.Sound
  running : e.slotOf name = .running

/-- Only hooks of types whose merges have started have been asked. -/
structure Engine.Orderly (e : Engine) : Prop where
  sound : e.registry.Sound
  started : ∀ q ∈ e.questions, e.slotOf q.typeName ≠ .vacant

/-- What the hook of a type is asked about the candidates for a signature, if it has a hook. -/
def AdoptingType.questionsAbout (t : AdoptingType) (offer : Signature × List Candidate) :
    List Question :=
  match t.veto with
  | none => []
  | some _ => offer.2.map fun c => ⟨t.name, offer.1.level, c.origin, offer.1⟩

/-- What the hook of a type is asked in a merge: nothing if a check fails, and otherwise about each
candidate for each signature in turn. -/
def Registry.questionsTo (reg : Registry) (config : Config) (t : AdoptingType) : List Question :=
  match reg.check config t with
  | .error _ => []
  | .ok _ => (reg.offersTo t).toList.flatMap t.questionsAbout

/-- A step asks the hook of a type the given questions in turn, and if it halts, the first ones of
them; the type is being merged meanwhile. -/
structure Asks {α : Type} (t : AdoptingType) (qs : List Question) (e : Engine) (l : List Moment)
    (run : Except Halt α × Engine) : Prop where
  underway : run.2.Underway t.name
  asked : ∃ asked, run.2.questionsOf t.name = e.questionsOf t.name ++ asked ∧ asked <+: qs ∧
    ∀ a, run.1 = .ok a → asked = qs
  moments : ∀ m ∈ l, m.engine.Underway t.name ∧
    ∃ asked, m.engine.questionsOf t.name = e.questionsOf t.name ++ asked ∧ asked <+: qs

/-- What the hook of a type is asked is asked once, and it is all there is to ask: nothing before
the checks have passed, and then about each role that provides a signature for the type. -/
structure Registry.Consults (reg : Registry) (config : Config) (t : AdoptingType)
    (asked : List Question) : Prop where
  once : asked.Nodup
  mem_iff : ∀ q, q ∈ asked ↔
    (t.veto ≠ none ∧ reg.Resolves t.declaredRoles ∧ reg.Storeless config t.declaredRoles ∧
      ∀ s, ¬ reg.Lacks t s) ∧
    ∃ o s i, q = ⟨t.name, s.level, o, s⟩ ∧ t.owns s = false ∧
      reg.ReachedFrom t.declaredRoles o ∧ reg.Provides o s i

/-! ## Questions that are not asked -/

namespace Engine

theorem questionsOf_ask (e : Engine) (q : Question) (name : String) :
    { e with questions := e.questions ++ [q] : Engine }.questionsOf name =
      e.questionsOf name ++ if q.typeName = name then [q] else [] := by
  unfold questionsOf
  rw [List.filter_append]
  congr 1
  by_cases hq : q.typeName = name
  · simp [hq]
  · simp [hq]

theorem lasting_orderly : Lasting Orderly fun _ => True where
  sound := fun _ h => h.sound
  fills := fun _ _ h hfill => ⟨hfill.sound h.sound, h.started⟩
  starts := fun _ _ _ _ _ _ => trivial
  advances := fun _ t _ h _ hf => ⟨h.sound, fun q hq => hf.slotOf t.name (h.started q hq)⟩
  asks := fun e t role s h _ ht => by
    refine ⟨h.sound, fun q hq => ?_⟩
    rcases List.mem_append.1 hq with hq | hq
    · exact h.started q hq
    · rw [List.mem_singleton.1 hq]
      exact ht
  records := fun e e' h hreg _ htypes hasked => by
    refine ⟨hreg ▸ h.sound, fun q hq => ?_⟩
    rw [slotOf_congr htypes]
    exact h.started q (hasked ▸ hq)
  declares := fun e t h _ => by
    refine ⟨h.sound, fun q hq => ?_⟩
    rw [slotOf_adding]
    exact h.started q hq

/-- Once the merge of a type has started, the merges of other types leave the type as it is, and ask
its hook nothing. -/
theorem lasting_questionsOf (name : String) {slot : Slot MethodTable} (hslot : slot ≠ .vacant)
    (qs : List Question) :
    Lasting (fun e => e.registry.Sound ∧ e.slotOf name = slot ∧ e.questionsOf name = qs)
      fun t => t.name ≠ name where
  sound := fun _ h => h.1
  fills := fun _ _ h hfill => ⟨hfill.sound h.1, h.2⟩
  starts := fun e b t h ht hv hname => by
    -- the type itself has been started before, so it is not vacant
    refine hslot ?_
    rw [← h.2.1, ← hname, name_of_find? ht, slotOf_of_find? ht, hv]
  advances := fun e t f h hne hf => by
    refine ⟨h.1, ?_, h.2.2⟩
    rw [slotOf_updateEntry_of_ne hf.definition hne.symm]
    exact h.2.1
  asks := fun e t role s h hne _ => by
    refine ⟨h.1, h.2.1, ?_⟩
    rw [questionsOf_ask, if_neg hne, List.append_nil]
    exact h.2.2
  records := fun e e' h hreg _ htypes hasked => by
    refine ⟨hreg ▸ h.1, ?_, ?_⟩
    · rw [slotOf_congr htypes]
      exact h.2.1
    · unfold questionsOf
      rw [hasked]
      exact h.2.2
  declares := fun e t h _ => by
    refine ⟨h.1, ?_, h.2.2⟩
    rw [slotOf_adding]
    exact h.2.1

end Engine

/-- At every moment of a run, nothing has been asked about a type that is still vacant. -/
theorem questionsOf_of_vacant {b : RegistryBuilder} {config : Config} {rs : List Request}
    {m : Moment} (hm : m ∈ history (Engine.new b.freeze config) rs) {name : String}
    (hv : m.engine.slotOf name = .vacant) : m.engine.questionsOf name = [] := by
  have hnew : (Engine.new b.freeze config).Orderly :=
    ⟨(Engine.sound_new b config).registry, fun q hq => absurd hq List.not_mem_nil⟩
  have horderly := holds_of_mem_history Engine.lasting_orderly.upheld rs hnew m hm
  refine List.filter_eq_nil_iff.2 fun q hq hname => ?_
  rw [beq_iff_eq] at hname
  exact horderly.started q hq (hname ▸ hv)

/-! ## Questions of a merge -/

namespace Asks

variable {α β : Type} {t : AdoptingType} {qs qs' : List Question} {e : Engine} {l : List Moment}

theorem of_kept {run : Except Halt α × Engine}
    (h : Kept (fun e₁ => e₁.Underway t.name ∧ e₁.questionsOf t.name = e.questionsOf t.name) l run) :
    Asks t [] e l run :=
  ⟨h.last.1, ⟨[], by rw [h.last.2, List.append_nil], List.nil_prefix, fun _ _ => rfl⟩,
    fun m hm => ⟨(h.moments m hm).1, [], by rw [(h.moments m hm).2, List.append_nil],
      List.nil_prefix⟩⟩

theorem of_same {run : Except Halt α × Engine} (h : e.Underway t.name)
    (hreg : run.2.registry = e.registry) (htypes : run.2.types = e.types)
    (hasked : run.2.questions = e.questions) : Asks t [] e [] run := by
  refine of_kept (.of_last ⟨⟨hreg ▸ h.sound, ?_⟩, ?_⟩)
  · rw [Engine.slotOf_congr htypes]
    exact h.running
  · unfold Engine.questionsOf
    rw [hasked]

/-- A step that asks one question, and then what the rest of it asks. -/
theorem cons {run : Except Halt α × Engine} {q : Question} (hq : q.typeName = t.name)
    (h : Asks t qs { e with questions := e.questions ++ [q] } l run) :
    Asks t (q :: qs) e l run := by
  have hask : { e with questions := e.questions ++ [q] : Engine }.questionsOf t.name =
      e.questionsOf t.name ++ [q] := by
    rw [Engine.questionsOf_ask, if_pos hq]
  obtain ⟨hunder, ⟨asked, heq, hprefix, hok⟩, hmoments⟩ := h
  rw [hask, List.append_assoc, List.singleton_append] at heq
  refine ⟨hunder, ⟨q :: asked, heq, List.cons_prefix_cons.2 ⟨rfl, hprefix⟩, fun a ha => ?_⟩,
    fun m hm => ?_⟩
  · rw [hok a ha]
  · obtain ⟨hm, asked', heq', hprefix'⟩ := hmoments m hm
    rw [hask, List.append_assoc, List.singleton_append] at heq'
    exact ⟨hm, q :: asked', heq', List.cons_prefix_cons.2 ⟨rfl, hprefix'⟩⟩

/-- A step after which another one asks on, unless it has halted. -/
theorem bind {step : EngineM α} {next : α → EngineM β} {trail : α → Engine → List Moment}
    (h : Asks t qs e l (runFrom step e))
    (h' : ∀ a e₁, e₁.Underway t.name → Asks t qs' e₁ (trail a e₁) (runFrom (next a) e₁)) :
    Asks t (qs ++ qs') e (l ++ Trail.after step trail e) (runFrom (step >>= next) e) := by
  have hbefore : ∀ m ∈ l, m.engine.Underway t.name ∧ ∃ asked, m.engine.questionsOf t.name =
      e.questionsOf t.name ++ asked ∧ asked <+: qs ++ qs' := by
    intro m hm
    obtain ⟨hm, asked, heq, hprefix⟩ := h.moments m hm
    exact ⟨hm, asked, heq, hprefix.trans (List.prefix_append _ _)⟩
  rw [runFrom_bind]
  unfold Trail.after
  rcases hrun : runFrom step e with ⟨halt | a, e₁⟩
  · rw [hrun] at h
    obtain ⟨asked, heq, hprefix, -⟩ := h.asked
    rw [List.append_nil]
    have hasked : asked <+: qs ++ qs' := hprefix.trans (List.prefix_append qs qs')
    exact ⟨h.underway, ⟨asked, heq, hasked, fun _ ha => by cases ha⟩, hbefore⟩
  · rw [hrun] at h
    obtain ⟨asked, heq, -, hok⟩ := h.asked
    cases hok a rfl
    -- what is asked next comes after all that has been asked here
    have hnext (later : List Question) (h : later <+: qs') : qs ++ later <+: qs ++ qs' :=
      (List.prefix_append_right_inj qs).2 h
    obtain ⟨hunder', ⟨asked', heq', hprefix', hok'⟩, hmoments'⟩ := h' a e₁ h.underway
    refine ⟨hunder', ⟨qs ++ asked', ?_, hnext _ hprefix', fun b hb => ?_⟩,
      List.forall_mem_append.2 ⟨hbefore, fun m hm => ?_⟩⟩
    · rw [heq', heq, List.append_assoc]
    · rw [hok' b hb]
    · obtain ⟨hm, later, hlater, hprefix⟩ := hmoments' m hm
      exact ⟨hm, qs ++ later, by rw [hlater, heq, List.append_assoc], hnext _ hprefix⟩

theorem bind_same {step : EngineM α} {next : α → EngineM β} (h : Asks t qs e l (runFrom step e))
    (h' : ∀ a e₁, e₁.Underway t.name → Asks t [] e₁ [] (runFrom (next a) e₁)) :
    Asks t qs e l (runFrom (step >>= next) e) := by
  have hafter : Trail.after step (fun _ _ => []) e = [] := by
    unfold Trail.after
    split <;> rfl
  have hbind : Asks t (qs ++ []) e (l ++ Trail.after step (fun _ _ => []) e)
      (runFrom (step >>= next) e) := h.bind h'
  rwa [hafter, List.append_nil, List.append_nil] at hbind

end Asks

section Merges

variable (depth : Nat) {t : AdoptingType} {e : Engine}

/-- While a hook is busy with a question, it is asked no other one. -/
theorem asks_consult (c : Consultation) (he : e.Underway t.name) :
    Asks t [] e (Trail.consult depth (Trail.compose depth) c e)
      (runFrom (EngineM.consult (EngineM.composeWithin depth) c) e) := by
  have hlasting := Engine.lasting_questionsOf t.name
    (show Slot.running ≠ .vacant by simp) (e.questionsOf t.name)
  have hkept := kept_consult hlasting.merging
    (fun name e₁ _ h₁ => kept_composeWithin depth hlasting name h₁) c (fun _ _ => trivial)
    ⟨he.sound, he.running, rfl⟩
  exact .of_kept (hkept.mono fun e₁ h => ⟨⟨h.1, h.2.1⟩, h.2.2⟩)

theorem asks_askHook (hook : Hook) (s : Signature) (c : Candidate) (he : e.Underway t.name) :
    Asks t [⟨t.name, s.level, c.origin, s⟩] e
      (Trail.consult depth (Trail.compose depth) (hook.ask s.level c.origin s)
        { e with questions := e.questions ++ [⟨t.name, s.level, c.origin, s⟩] })
      (runFrom (EngineM.askHook (EngineM.composeWithin depth) t hook s c) e) := by
  refine Asks.cons rfl ?_
  have hasked : { e with questions := e.questions ++
      [⟨t.name, s.level, c.origin, s⟩] : Engine }.Underway t.name := ⟨he.sound, he.running⟩
  exact (asks_consult depth (hook.ask s.level c.origin s) hasked).bind_same fun keep e₁ h₁ => by
    cases keep with
    | true => exact .of_same h₁ rfl rfl rfl
    | false => exact .of_same h₁ rfl rfl rfl

/-- Each candidate is put to the hook, whatever became of those before it. -/
theorem asks_keepCandidates (hook : Hook) (s : Signature) (cs : List Candidate)
    (he : e.Underway t.name) :
    Asks t (cs.map fun c => ⟨t.name, s.level, c.origin, s⟩) e
      (Trail.keepCandidates depth (Trail.compose depth) t hook s cs e)
      (runFrom (EngineM.keepCandidates (EngineM.composeWithin depth) t hook s cs) e) := by
  induction cs generalizing e with
  | nil => exact .of_same he rfl rfl rfl
  | cons c cs ih =>
    refine (asks_askHook depth hook s c he).bind fun keep e₁ h₁ => ?_
    exact (ih h₁).bind_same fun kept e₂ h₂ => .of_same h₂ rfl rfl rfl

theorem asks_settleSignature (tally : Tally) (offer : Signature × List Candidate)
    (he : e.Underway t.name) :
    Asks t (t.questionsAbout offer) e
      (Trail.resolve depth (Trail.compose depth) t offer.1 offer.2 e)
      (runFrom (EngineM.settleSignature (EngineM.composeWithin depth) t tally offer) e) := by
  have hresolve : Asks t (t.questionsAbout offer) e
      (Trail.resolve depth (Trail.compose depth) t offer.1 offer.2 e)
      (runFrom (EngineM.resolve (EngineM.composeWithin depth) t offer.1 offer.2) e) := by
    unfold AdoptingType.questionsAbout Trail.resolve EngineM.resolve
    cases t.veto with
    | none => exact .of_same he rfl rfl rfl
    | some hook =>
      exact (asks_keepCandidates depth hook offer.1 offer.2 he).bind_same fun kept e₁ h₁ =>
        .of_same h₁ rfl rfl rfl
  refine hresolve.bind_same fun decision e₁ h₁ => ?_
  rcases decision with c | _ | cs
  · exact .of_same h₁ rfl rfl rfl
  · exact .of_same h₁ rfl rfl rfl
  · exact .of_same h₁ rfl rfl rfl

/-- Signatures are settled one after the other, also when there is a conflict already. -/
theorem asks_settleOffers (offers : List (Signature × List Candidate)) (tally : Tally)
    (he : e.Underway t.name) :
    Asks t (offers.flatMap t.questionsAbout) e
      (Trail.settleOffers depth (Trail.compose depth) t offers tally e)
      (runFrom
        (offers.foldlM (EngineM.settleSignature (EngineM.composeWithin depth) t) tally) e) := by
  induction offers generalizing tally e with
  | nil => exact .of_same he rfl rfl rfl
  | cons offer offers ih =>
    rw [List.foldlM_cons, List.flatMap_cons]
    exact (asks_settleSignature depth tally offer he).bind fun tally' e₁ h₁ => ih tally' h₁

/-- What a merge asks. -/
theorem asks_mergeTable (he : e.Underway t.name) :
    Asks t (e.registry.questionsTo e.config t) e
      (Trail.mergeTable depth (Trail.compose depth) t e)
      (runFrom (EngineM.mergeTable (EngineM.composeWithin depth) t).run e) := by
  obtain ⟨reg', hfill, hgather, hrun⟩ :=
    runFrom_mergeTable (EngineM.composeWithin depth) t he.sound
  have hfilled : { e with registry := reg' : Engine }.Underway t.name :=
    ⟨hfill.sound he.sound, he.running⟩
  unfold Registry.questionsTo Trail.mergeTable Trail.after
  rw [hgather, hrun]
  cases e.registry.check e.config t with
  | error error =>
    exact ⟨hfilled, ⟨[], (List.append_nil _).symm, List.nil_prefix, fun _ _ => rfl⟩,
      List.forall_mem_nil _⟩
  | ok _ =>
    have hsettle : Asks t ((e.registry.offersTo t).toList.flatMap t.questionsAbout)
        { e with registry := reg' }
        (Trail.settleOffers depth (Trail.compose depth) t (e.registry.offersTo t).toList
          (Tally.ofOwn t) { e with registry := reg' })
        (runFrom (EngineM.settleAll (EngineM.composeWithin depth) t (e.registry.offersTo t) >>=
          EngineM.conclude t) { e with registry := reg' }) :=
      (asks_settleOffers depth (e.registry.offersTo t).toList (Tally.ofOwn t) hfilled).bind_same
        fun tally e₁ h₁ => .of_same h₁ rfl rfl rfl
    exact ⟨hsettle.underway, hsettle.asked, hsettle.moments⟩

theorem underway_enter {name : String} {t : TypeEntry} (hs : e.registry.Sound)
    (ht : e.find? name = some t) : (e.enter t.definition).Underway t.definition.name :=
  ⟨hs, Engine.slotOf_enter ht⟩

/-- What composing a vacant type asks its hook. -/
theorem asks_compose {m : Moment} {name : String} {t : TypeEntry} (hm : m.Sound)
    (ht : m.engine.find? name = some t) (hv : t.slot = .vacant) :
    ∃ asked, (m.compose name).2.questionsOf name = m.engine.questionsOf name ++ asked ∧
      asked <+: m.engine.registry.questionsTo m.engine.config t.definition ∧
      ∀ outcome, (m.compose name).1 = .ok outcome →
        asked = m.engine.registry.questionsTo m.engine.config t.definition := by
  obtain ⟨depth, -, -, hrun⟩ := compose_vacant hm ht hv
  have hname := Engine.name_of_find? ht
  obtain ⟨asked, heq, hprefix, hok⟩ :=
    (asks_mergeTable depth (underway_enter hm.engine.registry ht)).asked
  rw [hrun]
  rw [hname] at heq
  generalize runFrom (EngineM.mergeTable (EngineM.composeWithin depth) t.definition).run
    (m.engine.enter t.definition) = run at heq hok ⊢
  -- leaving the merge asks nothing more, however it has ended
  rcases run with ⟨(payload | _) | (error | table), e₁⟩
  · exact ⟨asked, heq, hprefix, fun outcome h => by cases h⟩
  · exact ⟨asked, heq, hprefix, fun outcome h => by cases h⟩
  · exact ⟨asked, heq, hprefix, fun outcome _ => hok _ rfl⟩
  · exact ⟨asked, heq, hprefix, fun outcome _ => hok _ rfl⟩

end Merges

/-! ## Which questions a merge asks -/

namespace AdoptingType

variable {t : AdoptingType} {s : Signature} {cs : List Candidate}

theorem mem_questionsAbout {q : Question} : q ∈ t.questionsAbout (s, cs) ↔
    t.veto ≠ none ∧ ∃ c ∈ cs, q = ⟨t.name, s.level, c.origin, s⟩ := by
  unfold questionsAbout
  cases t.veto with
  | none => simp
  | some hook => simp [eq_comm]

/-- The questions about one signature differ in the role. -/
theorem nodup_questionsAbout (h : (cs.map Candidate.origin).Nodup) :
    (t.questionsAbout (s, cs)).Nodup := by
  unfold questionsAbout
  cases t.veto with
  | none => exact List.nodup_nil
  | some hook =>
    refine List.Nodup.of_map Question.role ?_
    rw [List.map_map]
    exact h

end AdoptingType

namespace Registry

variable {reg : Registry} {config : Config} {t : AdoptingType}

theorem mem_origins_candidatesFor {declared : List RoleId} {s : Signature} {o : RoleId}
    (h : ∀ via ∈ declared, reg.ResolvesWithin reg.size via) :
    (∃ c ∈ reg.candidatesFor declared s, c.origin = o) ↔
      reg.ReachedFrom declared o ∧ ∃ i, reg.Provides o s i := by
  constructor
  · rintro ⟨c, hc, rfl⟩
    obtain ⟨hfirst, hprov⟩ := (mem_candidatesFor h).1 hc
    exact ⟨hfirst.reachedFrom, _, hprov⟩
  · rintro ⟨hreached, i, hi⟩
    obtain ⟨via, hvia⟩ := exists_firstReaching hreached
    exact ⟨⟨o, via, i⟩, (mem_candidatesFor h).2 ⟨hvia, hi⟩, rfl⟩

/-- The questions about different signatures differ in the signature. -/
theorem nodup_questionsTo (reg : Registry) (config : Config) (t : AdoptingType) :
    (reg.questionsTo config t).Nodup := by
  unfold questionsTo
  cases hcheck : reg.check config t with
  | error error => exact List.nodup_nil
  | ok _ =>
    refine List.nodup_flatMap.2 ⟨?_, (reg.offersTo t).ascending.imp ?_⟩
    · rintro ⟨s, cs⟩ hcs
      obtain ⟨-, -, rfl⟩ := (mem_offersTo (resolvesWithin_of_check hcheck)).1 hcs
      exact AdoptingType.nodup_questionsAbout (nodup_firstMet _)
    · rintro ⟨s, cs⟩ ⟨s', cs'⟩ hlt q hq hq'
      obtain ⟨-, c, -, rfl⟩ := AdoptingType.mem_questionsAbout.1 hq
      obtain ⟨-, c', -, heq⟩ := AdoptingType.mem_questionsAbout.1 hq'
      have hs : s = s' := congrArg Question.signature heq
      exact Signature.lt_irrefl s (hs ▸ hlt)

theorem mem_questionsTo {q : Question} : q ∈ reg.questionsTo config t ↔
    (t.veto ≠ none ∧ reg.Resolves t.declaredRoles ∧ reg.Storeless config t.declaredRoles ∧
      ∀ s, ¬ reg.Lacks t s) ∧
    ∃ o s i, q = ⟨t.name, s.level, o, s⟩ ∧ t.owns s = false ∧
      reg.ReachedFrom t.declaredRoles o ∧ reg.Provides o s i := by
  rw [← check_eq_ok_iff]
  unfold questionsTo
  cases hcheck : reg.check config t with
  | error error => simp
  | ok _ =>
    have hwithin := resolvesWithin_of_check hcheck
    rw [List.mem_flatMap]
    constructor
    · rintro ⟨⟨s, cs⟩, hcs, hq⟩
      obtain ⟨hs, -, rfl⟩ := (mem_offersTo hwithin).1 hcs
      obtain ⟨hveto, c, hc, rfl⟩ := AdoptingType.mem_questionsAbout.1 hq
      obtain ⟨ho, i, hi⟩ := (mem_origins_candidatesFor hwithin).1 ⟨c, hc, rfl⟩
      exact ⟨⟨hveto, rfl⟩, c.origin, s, i, rfl, hs, ho, hi⟩
    · rintro ⟨⟨hveto, -⟩, o, s, i, rfl, hs, ho, hi⟩
      obtain ⟨c, hc, rfl⟩ := (mem_origins_candidatesFor hwithin).2 ⟨ho, i, hi⟩
      exact ⟨(s, _), (mem_offersTo hwithin).2 ⟨hs, List.ne_nil_of_mem hc, rfl⟩,
        AdoptingType.mem_questionsAbout.2 ⟨hveto, c, hc, rfl⟩⟩

/-- A merge asks each question once, and it asks all that there are. -/
theorem consults_questionsTo (reg : Registry) (config : Config) (t : AdoptingType) :
    reg.Consults config t (reg.questionsTo config t) :=
  ⟨nodup_questionsTo reg config t, fun _ => mem_questionsTo⟩

end Registry

end RoleComposition
