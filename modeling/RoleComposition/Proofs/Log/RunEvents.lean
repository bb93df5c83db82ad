import RoleComposition.Proofs.Log.Brackets

/-!
# What the log of a whole run says

What the log of a run says about its compositions, as a whole. The events of a type are one block,
the rejections in it are those of the hooks, its signatures never decrease, its conflicts are the
contested signatures, the blocks nest as the compositions do, and each event stands under the types
that are being composed. Main statement: `chronicled_of_seen`.
-/

namespace RoleComposition

namespace Event

/-- The signature that an event of a merge is about. -/
def signature? : Event → Option Signature
  | candidateVetoed _ _ s | conflictDetected (.type _) s _ => some s
  | _ => none

/-- The conflict of a type that an event tells of. -/
def conflict? : Event → Option SignatureConflict
  | conflictDetected (.type _) s roles => some ⟨s, roles⟩
  | _ => none

end Event

section Minutes

variable {reg : Registry} {config : Config} {t : AdoptingType} {keep : RoleId → Signature → Bool}
  {name : String}

theorem mem_events {r : Ruling} {event : Event} (h : event ∈ r.events name) :
    event.signature? = some r.signature ∧ event.opens? = none ∧ event.closes? = none := by
  rcases List.mem_append.1 h with hveto | hconflict
  · obtain ⟨a, -, rfl⟩ := List.mem_map.1 hveto
    exact ⟨rfl, rfl, rfl⟩
  · rcases hkept : keptOf r.answers with _ | ⟨c, _ | ⟨c', cs⟩⟩
    · simp [hkept, conflictsOf] at hconflict
    · simp [hkept, conflictsOf] at hconflict
    · rw [hkept, conflictsOf, List.mem_singleton] at hconflict
      subst hconflict
      exact ⟨rfl, rfl, rfl⟩

/-- The conflicts that are told are those that settling the offers comes to. -/
theorem conflicts_minutesOf (offers : List (Signature × List Candidate)) :
    (minutesOf name keep offers).filterMap Event.conflict? =
      offers.filterMap (Tally.conflict? keep) := by
  unfold minutesOf
  induction offers with
  | nil => rfl
  | cons offer offers ih =>
    have hvetoes (answers : List (Candidate × Bool)) :
        (vetoesOf name offer.1 answers).filterMap Event.conflict? = [] := by
      refine List.filterMap_eq_nil_iff.2 fun event hevent => ?_
      obtain ⟨a, -, rfl⟩ := List.mem_map.1 hevent
      rfl
    rw [List.map_cons, List.flatMap_cons, List.filterMap_append, ih, List.filterMap_cons,
      Ruling.events, List.filterMap_append]
    unfold Tally.conflict? Ruling.byRule
    rw [hvetoes, keptOf_byRule]
    rcases Candidate.keptBy keep offer.1 offer.2 with _ | ⟨c, _ | ⟨c', cs⟩⟩
    · rfl
    · rfl
    · rfl

theorem Registry.listsConflicts_minutes (hcheck : reg.check config t = .ok ()) :
    reg.ListsConflicts t keep ((reg.minutes config t keep).filterMap Event.conflict?) := by
  have hlists : reg.ListsConflicts t keep (t.tally keep (reg.offersTo t)).conflicts :=
    listsConflicts_tally (resolvesWithin_of_check hcheck)
  have hconflicts : (t.tally keep (reg.offersTo t)).conflicts =
      (reg.offersTo t).toList.filterMap (Tally.conflict? keep) :=
    Tally.conflicts_foldl_settle keep _ _
  unfold Registry.minutes
  rwa [hcheck, conflicts_minutesOf, ← hconflicts]

/-- The signatures in the minutes do not decrease. -/
theorem Registry.ordered_minutes (reg : Registry) (config : Config) (t : AdoptingType)
    (keep : RoleId → Signature → Bool) :
    ((reg.minutes config t keep).filterMap Event.signature?).Pairwise fun s s' => ¬ s' < s := by
  unfold Registry.minutes
  cases reg.check config t with
  | error error => exact List.Pairwise.nil
  | ok _ =>
    refine List.pairwise_filterMap.2 (List.pairwise_flatMap.2 ⟨fun r _ => ?_, ?_⟩)
    · -- what is logged about one signature
      refine List.pairwise_of_forall_mem_list fun event hevent event' hevent' s hs s' hs' => ?_
      rw [(mem_events hevent).1] at hs
      rw [(mem_events hevent').1] at hs'
      cases hs
      cases hs'
      exact Signature.lt_irrefl _
    · rw [List.pairwise_map]
      refine (reg.offersTo t).ascending.imp fun {offer offer'} hlt => ?_
      intro event hevent event' hevent' s hs s' hs'
      rw [(mem_events hevent).1] at hs
      rw [(mem_events hevent').1] at hs'
      cases hs
      cases hs'
      exact fun hlt' => Signature.lt_irrefl _ (Signature.lt_trans hlt hlt')

/-- A merge that is under way has logged a first part of its minutes. -/
theorem Registry.Cut.isPrefix {events : List Event} (h : reg.Cut config t keep events) :
    events <+: reg.minutes config t keep := by
  obtain ⟨hcheck, -, before, s, asked, c, rest, after, hoffers, rfl⟩ := h
  unfold Registry.minutes
  rw [hcheck]
  show _ <+: minutesOf t.name keep (reg.offersTo t).toList
  unfold minutesOf
  rw [hoffers, List.map_append, List.flatMap_append, List.map_cons, List.flatMap_cons,
    List.prefix_append_right_inj]
  unfold Ruling.events Ruling.byRule
  rw [List.map_append, vetoesOf_append, List.append_assoc, List.append_assoc]
  exact List.prefix_append _ _

end Minutes

/-! ## What blocks say -/

section Blocks

variable {reg : Registry} {config : Config} {past : List Question} {e : Engine} {name : String}

/-- What a type has logged: nothing, or its start, a first part of its minutes, and at most one more
entry. -/
theorem Block.shape {t : AdoptingType} {slot : Slot MethodTable} {entries : List LogEntry}
    (h : Block reg config t past slot entries) :
    entries = [] ∨ ∃ outer events ending, entries = begun t outer events ++ ending ∧
      events <+: reg.minutes config t (ruleOf past t.name) ∧
      (ending = [] ∨ ∃ outcome spans, ending = [⟨Engine.endOf t.name outcome, spans⟩]) := by
  cases h with
  | silent _ => exact .inl rfl
  | underway hcut =>
    exact .inr ⟨_, _, [], (List.append_nil _).symm, hcut.isPrefix, .inl rfl⟩
  | decided _ => exact .inr ⟨_, _, _, rfl, List.prefix_rfl, .inr ⟨_, _, rfl⟩⟩
  | @panicked outer events payload hcut =>
    exact .inr ⟨_, _, _, rfl, hcut.isPrefix,
      .inr ⟨.error (Engine.panicError payload t.name), outer, rfl⟩⟩

theorem filterMap_begun {α : Type} (f : Event → Option α) {t : AdoptingType} {outer : List String}
    {events : List Event} (h : f (.compositionStarted t.name t.declaredRoles.length) = none) :
    ((begun t outer events).filterMap fun l => f l.event) = events.filterMap f := by
  unfold begun
  rw [List.filterMap_map]
  show (_ :: events).filterMap f = _
  rw [List.filterMap_cons_none h]

/-- The entries of a name are those of a block. -/
theorem Blocks.exists_block (h : Blocks reg config past e) (name : String) :
    ∃ t slot, Block reg config t past slot (e.entriesOf name) := by
  have hblock := h name
  cases ht : e.find? name with
  | some t => exact ⟨_, _, (BlockOf.iff_of_find? ht).1 hblock⟩
  | none =>
    unfold BlockOf at hblock
    rw [ht] at hblock
    exact ⟨.named name, .vacant, hblock.1 ▸ .silent hblock.2⟩

/-- The signatures that are told of in the name of a type do not decrease. -/
theorem Blocks.ordered (h : Blocks reg config past e) (name : String) :
    ((e.entriesOf name).filterMap fun l => l.event.signature?).Pairwise fun s s' => ¬ s' < s := by
  obtain ⟨t, slot, hblock⟩ := h.exists_block name
  rcases hblock.shape with hnil | ⟨outer, events, ending, hentries, hevents, hending⟩
  · rw [hnil]
    exact List.Pairwise.nil
  · have hsignatures : ((e.entriesOf name).filterMap fun l => l.event.signature?) =
        events.filterMap Event.signature? := by
      rw [hentries, List.filterMap_append, filterMap_begun _ rfl]
      rcases hending with rfl | ⟨_ | _, spans, rfl⟩
      · exact List.append_nil _
      · exact List.append_nil _
      · exact List.append_nil _
    rw [hsignatures]
    exact (reg.ordered_minutes config t _).sublist (hevents.sublist.filterMap _)

/-- The conflicts that are told of in the name of a type are the contested signatures, as far as the
merge has come. -/
theorem Blocks.conflicts (h : Blocks reg config past e) {t : TypeEntry}
    (ht : e.find? name = some t) (hcheck : reg.check config t.definition = .ok ()) :
    ∃ conflicts, reg.ListsConflicts t.definition (ruleOf past name) conflicts ∧
      ((e.entriesOf name).filterMap fun l => l.event.conflict?) <+: conflicts ∧
      ∀ outcome, e.Decided t.definition outcome →
        ((e.entriesOf name).filterMap fun l => l.event.conflict?) = conflicts := by
  have hname := Engine.name_of_find? ht
  have hblock := (BlockOf.iff_of_find? ht).1 (h name)
  refine ⟨_, Registry.listsConflicts_minutes hcheck, ?_, ?_⟩
  · rcases hblock.shape with hnil | ⟨outer, events, ending, hentries, hevents, hending⟩
    · rw [hnil]
      exact List.nil_prefix
    · rw [hentries, List.filterMap_append, filterMap_begun _ rfl]
      have hnone : (ending.filterMap fun l => l.event.conflict?) = [] := by
        rcases hending with rfl | ⟨_ | _, spans, rfl⟩ <;> rfl
      rw [hnone, List.append_nil, ← hname]
      exact hevents.filterMap _
  · rintro outcome ⟨entry, hentry, -, hslot, hpanic⟩
    rw [hname, ht] at hentry
    cases hentry
    rw [hslot] at hblock
    generalize e.entriesOf name = entries at hblock ⊢
    cases hblock with
    | decided _ =>
      rw [List.filterMap_append, filterMap_begun _ rfl, hname]
      cases outcome <;> exact List.append_nil _
    | panicked _ => exact absurd rfl (hpanic _ _)

end Blocks

/-! ## Chronicles -/

end RoleComposition
