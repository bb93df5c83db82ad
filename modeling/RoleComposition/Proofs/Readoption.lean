import RoleComposition.Proofs.Bundles
import RoleComposition.Proofs.Hearings

/-!
# Roles adopted again

A type that declares a role which it reaches already gets nothing new by it: the walk has left the
role before, and every candidate of its closure is held already, so that none of them is met first
through the role. The outcome is the same to the last detail, and the hook of the type is asked the
same questions in the same order. Main statement: `outcome_of_readopted`.
-/

namespace RoleComposition

/-- Nothing is added to elements that have all the keys already. -/
theorem keepNew_of_keys_subset {α κ : Type} [DecidableEq κ] {key : α → κ} {held l : List α}
    (h : ∀ a ∈ l, key a ∈ held.map key) : keepNew key held l = held := by
  induction l with
  | nil => rfl
  | cons a l ih =>
    obtain ⟨ha, hl⟩ := List.forall_mem_cons.1 h
    rw [keepNew_cons, if_pos ha, ih hl]

namespace Registry

variable {reg : Registry} {config : Config} {t : AdoptingType} {roots : List RoleId} {r : RoleId}

/-- A walk goes through what it has left already without a trace. -/
theorem resolutionOrder_append_of_reached (hr : reg.ReachedFrom roots r) :
    reg.resolutionOrder (roots ++ [r]) = reg.resolutionOrder roots := by
  unfold resolutionOrder
  rw [List.foldlM_append]
  cases horder : roots.foldlM (reg.visit reg.size []) [] with
  | error error => rfl
  | ok order =>
    have w := walked_of_resolutionOrder horder
    obtain ⟨a, ha, har⟩ := hr
    obtain ⟨d, hd, hid⟩ := w.layered.reaches (w.met a ha) har
    have hleft : (order.any fun d => d.id == r) = true := List.any_eq_true.2 ⟨d, hd, by simp [hid]⟩
    show (reg.visit reg.size [] order r >>= pure) = .ok order
    unfold visit
    rw [if_pos hleft]
    rfl

/-- A role that is reached already brings no candidate of a new origin. -/
theorem candidatesFor_append_of_reached (h : ∀ via ∈ roots, reg.ResolvesWithin reg.size via)
    (hr : reg.ReachedFrom roots r) (s : Signature) :
    reg.candidatesFor (roots ++ [r]) s = reg.candidatesFor roots s := by
  have hwithin : reg.ResolvesWithin reg.size r := by
    obtain ⟨a, ha, har⟩ := hr
    exact (h a ha).reaches har
  unfold candidatesFor
  rw [List.flatMap_append, firstMet, keepNew_append, List.flatMap_singleton]
  refine keepNew_of_keys_subset fun c hc => ?_
  obtain ⟨e, he, rfl⟩ := List.mem_map.1 hc
  obtain ⟨hreach, hprov⟩ := (mem_offersBelow_iff hwithin).1 he
  exact List.mem_map.2 ((mem_origins_candidatesFor h).2 ⟨hr.trans hreach, _, hprov⟩)

section Adopting

variable (hr : reg.ReachedFrom t.declaredRoles r)

include hr

theorem check_adopts_of_reached (config : Config) :
    reg.check config (t.adopts r) = reg.check config t := by
  have horder : reg.resolutionOrder (t.adopts r).declaredRoles =
      reg.resolutionOrder t.declaredRoles := resolutionOrder_append_of_reached hr
  unfold check
  rw [horder]
  rfl

theorem offersTo_adopts_of_reached
    (h : ∀ via ∈ t.declaredRoles, reg.ResolvesWithin reg.size via) :
    reg.offersTo (t.adopts r) = reg.offersTo t := by
  have h' : ∀ via ∈ (t.adopts r).declaredRoles, reg.ResolvesWithin reg.size via := by
    obtain ⟨a, ha, har⟩ := hr
    exact List.forall_mem_append.2 ⟨h, List.forall_mem_singleton.2 ((h a ha).reaches har)⟩
  refine SignatureMap.ext_find? fun s => ?_
  rw [find?_offersTo h', find?_offersTo h]
  exact congrArg (fun cs => if t.owns s then none else present cs)
    (candidatesFor_append_of_reached h hr s)

/-- A role that is reached already changes nothing about the outcome. -/
theorem outcomeOf_adopts_of_reached (config : Config) (keep : RoleId → Signature → Bool) :
    reg.outcomeOf config (t.adopts r) keep = reg.outcomeOf config t keep := by
  have hcheck := check_adopts_of_reached hr config
  cases hok : reg.check config t with
  | error error =>
    rw [outcomeOf_of_check_eq_error hok, outcomeOf_of_check_eq_error (hcheck.trans hok)]
  | ok _ =>
    rw [outcomeOf_of_check_eq_ok hok, outcomeOf_of_check_eq_ok (hcheck.trans hok),
      offersTo_adopts_of_reached hr (resolvesWithin_of_check hok)]
    rfl

/-- Nor about what there is to ask. -/
theorem questionsTo_adopts_of_reached (config : Config) :
    reg.questionsTo config (t.adopts r) = reg.questionsTo config t := by
  unfold questionsTo
  rw [check_adopts_of_reached hr]
  cases hok : reg.check config t with
  | error error => rfl
  | ok _ =>
    rw [offersTo_adopts_of_reached hr (resolvesWithin_of_check hok)]
    rfl

end Adopting

end Registry

/-- Once a type has been composed undisturbed, its hook has been asked all there is to ask. -/
theorem Poised.asks {b : RegistryBuilder} {config : Config} {m : Moment} {t : TypeEntry}
    {keep : RoleId → Signature → Bool} (h : Poised b config m t keep) :
    ∃ e, m.compose t.definition.name = (.ok (b.freeze.outcomeOf config t.definition keep), e) ∧
      e.questionsOf t.definition.name = b.freeze.questionsTo config t.definition := by
  obtain ⟨rs, hm⟩ := h.moment
  have hnew : Engine.Hears b config t.definition.name (Engine.new b.freeze config) :=
    ⟨⟨(Engine.sound_new b config).registry, rfl⟩, rfl, fun t ht => (by cases ht), fun _ => rfl⟩
  have hupheld := (Engine.concerns_hears b config t.definition.name).upheld
  have hbefore := holds_of_mem_history hupheld rs hnew m hm
  -- what has been asked is followed through this composition, be it the first one or not
  have hafter := (hupheld.composes m.depth t.definition.name m.engine hbefore).last
  obtain ⟨e, hrun, entry, hentry, hdef, hslot, hfound⟩ :=
    compose_of_undisturbed hm h.entry h.undisturbed h.answers h.calm
  replace hafter : Engine.Hears b config t.definition.name
      (m.compose t.definition.name).2 := hafter
  rw [hrun] at hafter
  have hcomplete := (hafter.heard entry hentry).complete _ hslot hfound
  rw [hdef] at hcomplete
  exact ⟨e, hrun, hcomplete⟩

/-- A type that adopts a role which it reaches already, and one that does not, come to the same
outcome, each at any moment of a run of its own: to one table, or to one error; and their hooks have
been asked the same questions in the same order. -/
theorem outcome_of_readopted {b : RegistryBuilder} {config : Config} {m m' : Moment}
    {t t' : TypeEntry} {keep : RoleId → Signature → Bool} {r : RoleId}
    (hr : b.freeze.ReachedFrom t.definition.declaredRoles r)
    (hdef : t'.definition = t.definition.adopts r)
    (h : Poised b config m t keep) (h' : Poised b config m' t' keep) :
    ∃ outcome e e', m.compose t.definition.name = (.ok outcome, e) ∧
      m'.compose t.definition.name = (.ok outcome, e') ∧
      e.questionsOf t.definition.name = b.freeze.questionsTo config t.definition ∧
      e'.questionsOf t.definition.name = e.questionsOf t.definition.name := by
  obtain ⟨e, hrun, hasked⟩ := h.asks
  obtain ⟨e', hrun', hasked'⟩ := h'.asks
  rw [hdef, Registry.outcomeOf_adopts_of_reached hr] at hrun'
  rw [hdef, Registry.questionsTo_adopts_of_reached hr] at hasked'
  exact ⟨_, e, e', hrun, hrun', hasked, hasked'.trans hasked.symm⟩

/-- A role that is reached by way of two others, adopted again: the methods still come through the
role that is declared first, and the hook is still asked about four candidates. -/
theorem outcome_of_readopted_greeting :
    let most := fun (role : RoleId) (_ : Signature) => role != Sample.parting.id
    let m := Sample.leagued [⟨"crew"⟩] most
    let m' := Sample.leagued [⟨"crew"⟩, Sample.greeting.id] most
    ∃ table e e', m.compose "torn" = (.ok (.ok table), e) ∧
      m'.compose "torn" = (.ok (.ok table), e') ∧
      (table.get? Sample.greet).map MethodEntry.provider =
        some (.role Sample.greeting.id ⟨"crew"⟩) ∧
      (e.questionsOf "torn").length = 4 ∧ e'.questionsOf "torn" = e.questionsOf "torn" := by
  intro most m m'
  have hcrew : Sample.league.freeze.Composes ⟨"crew"⟩ Sample.parting.id :=
    ⟨Sample.crew [Sample.parting.id, Sample.staying.id], rfl, List.mem_cons_self⟩
  have hparting : Sample.league.freeze.Composes Sample.parting.id Sample.greeting.id :=
    ⟨Sample.parting, rfl, List.mem_cons_self⟩
  have hr : Sample.league.freeze.ReachedFrom (Sample.torn [⟨"crew"⟩] most).declaredRoles
      Sample.greeting.id :=
    ⟨⟨"crew"⟩, List.mem_cons_self, .tail (.single hcrew) hparting⟩
  obtain ⟨outcome, e, e', hrun, hrun', -, hsame⟩ := outcome_of_readopted hr rfl
    (Sample.poised_leagued [⟨"crew"⟩] most)
    (Sample.poised_leagued [⟨"crew"⟩, Sample.greeting.id] most)
  replace hrun : m.compose "torn" = (.ok outcome, e) := hrun
  have hcomposed : (m.compose "torn").1.map (fun outcome => outcome.toOption.bind fun table =>
      (table.get? Sample.greet).map MethodEntry.provider) =
        .ok (some (.role Sample.greeting.id ⟨"crew"⟩)) := by
    decide +kernel
  have hasked : ((m.compose "torn").2.questionsOf "torn").length = 4 := by decide +kernel
  rw [hrun] at hcomposed hasked
  cases outcome with
  | error error => cases hcomposed
  | ok table => exact ⟨table, e, e', hrun, hrun', Except.ok.inj hcomposed, hasked, hsame⟩

end RoleComposition
