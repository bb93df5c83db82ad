import RoleComposition.Proofs.Promptness
import RoleComposition.Proofs.Reordering

/-!
# Methods of the type's own

A type that brings one more method of its own settles the signature of this method and touches
nothing else: the signature is no longer missing, nobody offers it to the type any more, and the
table holds it as the type's own. What happens to all other signatures, also to the one of the same
name on the other level, is what happened without the method. Main statement:
`implemented_of_implements`.
-/

namespace RoleComposition

/-- What an outcome becomes when the type brings a method of its own. A table holds it, and what it
held for the other signatures; the signature is taken off the lists of errors, which are gone when
nothing is left to list; other errors stay. -/
inductive Implemented (s : Signature) (i : Implementation) : Outcome → Outcome → Prop
  | table {table table' : MethodTable} :
      table'.typeName = table.typeName → table'.get? s = some ⟨i, .own⟩ →
      (∀ s', s' ≠ s → table'.get? s' = table.get? s') →
      Implemented s i (.ok table) (.ok table')
  | missing {typeName : String} {missing : List MissingCapability} :
      (∃ m ∈ missing, m.signature ≠ s) →
      Implemented s i (.error (.missingCapability typeName missing))
        (.error (.missingCapability typeName (missing.filter fun m => m.signature ≠ s)))
  | capable {typeName : String} {missing : List MissingCapability} {outcome : Outcome} :
      (∀ m ∈ missing, m.signature = s) →
      (∀ missing', outcome ≠ .error (.missingCapability typeName missing')) →
      Implemented s i (.error (.missingCapability typeName missing)) outcome
  | conflict {owner : Owner} {conflicts : List SignatureConflict} :
      (∃ c ∈ conflicts, c.signature ≠ s) →
      Implemented s i (.error (.roleConflict owner conflicts))
        (.error (.roleConflict owner (conflicts.filter fun c => c.signature ≠ s)))
  | decided {owner : Owner} {conflicts : List SignatureConflict} {table : MethodTable} :
      (∀ c ∈ conflicts, c.signature = s) → table.get? s = some ⟨i, .own⟩ →
      Implemented s i (.error (.roleConflict owner conflicts)) (.ok table)
  | unrelated {error : CompositionError} :
      error.lists = false → Implemented s i (.error error) (.error error)

/-! ## The three places where own methods count -/

namespace AdoptingType

variable {t : AdoptingType} {s : Signature} {i : Implementation}

theorem owns_implements (t : AdoptingType) (s s' : Signature) (i : Implementation) :
    (t.implements s i).owns s' = (s == s' || t.owns s') := by
  unfold owns implements
  rw [SignatureMap.contains_eq, SignatureMap.find?_insert, SignatureMap.contains_eq]
  by_cases h : s = s' <;> simp [h]

/-- The check of capabilities finds the same, but for the signature. -/
theorem missingCapabilities_implements (t : AdoptingType) (s : Signature) (i : Implementation)
    (roles : List RoleDefinition) :
    (t.implements s i).missingCapabilities roles =
      (t.missingCapabilities roles).filter fun m => m.signature ≠ s := by
  have hsatisfies (s' : Signature) :
      (!(t.implements s i).satisfies roles s') = (decide (s' ≠ s) && !t.satisfies roles s') := by
    unfold satisfies
    rw [owns_implements, Bool.or_assoc, Bool.not_or]
    by_cases h : s = s'
    · simp [h]
    · simp [h, Ne.symm h]
  unfold missingCapabilities SignatureMap.filter
  rw [List.filter_map, List.filter_filter]
  simp only [hsatisfies]
  rfl

/-- The type still misses what it missed of other signatures. -/
theorem validate_implements_of_others {roles : List RoleDefinition}
    (h : ∃ m ∈ t.missingCapabilities roles, m.signature ≠ s) :
    (t.implements s i).validate roles = .error (.missingCapability t.name
      ((t.missingCapabilities roles).filter fun m => m.signature ≠ s)) := by
  obtain ⟨m, hm, hne⟩ := h
  have hnonempty : ((t.missingCapabilities roles).filter fun m => m.signature ≠ s) ≠ [] :=
    List.ne_nil_of_mem (List.mem_filter.2 ⟨hm, decide_eq_true hne⟩)
  unfold validate
  rw [missingCapabilities_implements]
  exact if_neg (mt List.isEmpty_iff.1 hnonempty)

/-- A type that misses no other signature gets past the check of capabilities. -/
theorem validate_implements_of_forall {roles : List RoleDefinition}
    (h : ∀ m ∈ t.missingCapabilities roles, m.signature = s) :
    (t.implements s i).validate roles = .ok () := by
  rw [validate_eq_ok_iff_nil, missingCapabilities_implements]
  exact List.filter_eq_nil_iff.2 fun m hm => by simp [h m hm]

/-- Offers for other signatures lead to the conflicts with other signatures. -/
theorem conflicts_tally_implements (t : AdoptingType) (s : Signature) (i : Implementation)
    (keep : RoleId → Signature → Bool) (offers : Offers) :
    ((t.implements s i).tally keep (offers.filter fun s' _ => s' ≠ s)).conflicts =
      (t.tally keep offers).conflicts.filter fun c => c.signature ≠ s := by
  unfold tally SignatureMap.filter
  rw [Tally.conflicts_foldl_settle, Tally.conflicts_foldl_settle]
  show [] ++ _ = List.filter _ ([] ++ _)
  rw [List.nil_append, List.nil_append, List.filterMap_filter, List.filter_filterMap]
  refine List.filterMap_congr fun offer _ => ?_
  cases hc : Tally.conflict? keep offer with
  | none => simp
  | some c =>
    have hsignature : c.signature = offer.1 := by rw [Registry.eq_of_conflict? hc]
    rw [Option.filter_some, hsignature]

/-- Offers for other signatures lead to the same entries for them, next to the own method. -/
theorem entries_tally_implements (t : AdoptingType) (s : Signature) (i : Implementation)
    (keep : RoleId → Signature → Bool) (offers : Offers) :
    ((t.implements s i).tally keep (offers.filter fun s' _ => s' ≠ s)).entries =
      (t.tally keep offers).entries.insert s ⟨i, .own⟩ := by
  refine SignatureMap.ext_find? fun s' => ?_
  have hown : (t.implements s i).ownMethods.find? s' =
      if s = s' then some i else t.ownMethods.find? s' := SignatureMap.find?_insert _ _ _ _
  rw [find?_tally, SignatureMap.find?_filter_ne, SignatureMap.find?_insert, find?_tally, hown]
  split_ifs with h
  · rfl
  · rfl

theorem outcomeOfTally_ne_missingCapability (t : AdoptingType) (tally : Tally) (typeName : String)
    (missing : List MissingCapability) :
    t.outcomeOfTally tally ≠ .error (.missingCapability typeName missing) := by
  unfold outcomeOfTally
  split_ifs <;> simp

/-- A merge that gets to the offers comes to the same, but for the signature. -/
theorem implemented_outcomeOfTally (t : AdoptingType) (s : Signature) (i : Implementation)
    (keep : RoleId → Signature → Bool) (offers : Offers) :
    Implemented s i (t.outcomeOfTally (t.tally keep offers))
      ((t.implements s i).outcomeOfTally
        ((t.implements s i).tally keep (offers.filter fun s' _ => s' ≠ s))) := by
  have hown : ((t.tally keep offers).entries.insert s ⟨i, .own⟩).find? s =
      some (⟨i, .own⟩ : MethodEntry) := SignatureMap.find?_insert_self _ _ _
  unfold outcomeOfTally
  rw [conflicts_tally_implements, entries_tally_implements]
  show Implemented s i _
    (if _ then Except.ok ⟨t.name, _⟩ else .error (.roleConflict (.type t.name) _))
  cases hconflicts : (t.tally keep offers).conflicts with
  | nil => exact .table rfl hown fun s' hne => SignatureMap.find?_insert_of_ne _ _ (Ne.symm hne)
  | cons c cs =>
    rw [← hconflicts, if_neg (by simp [hconflicts])]
    split_ifs with hnone
    · -- nothing is left in conflict, and the table is there
      refine .decided (fun c hc => ?_) hown
      have hfiltered := List.filter_eq_nil_iff.1 (List.isEmpty_iff.1 hnone) c hc
      simpa using hfiltered
    · refine .conflict ?_
      obtain ⟨c, hc⟩ := List.exists_mem_of_ne_nil _ (mt List.isEmpty_iff.2 hnone)
      obtain ⟨hc, hne⟩ := List.mem_filter.1 hc
      exact ⟨c, hc, of_decide_eq_true hne⟩

end AdoptingType

namespace Registry

variable {reg : Registry} {config : Config} {t : AdoptingType} {order : List RoleDefinition}

/-- The declared roles offer the same, but for the signature. -/
theorem offersTo_implements (h : ∀ via ∈ t.declaredRoles, reg.ResolvesWithin reg.size via)
    (s : Signature) (i : Implementation) :
    reg.offersTo (t.implements s i) = (reg.offersTo t).filter fun s' _ => s' ≠ s := by
  refine SignatureMap.ext_find? fun s' => ?_
  have hoffered : (reg.offersTo (t.implements s i)).find? s' =
      if (t.implements s i).owns s' then none
      else present (reg.candidatesFor t.declaredRoles s') :=
    find?_offersTo (t := t.implements s i) h s'
  rw [hoffered, SignatureMap.find?_filter_ne, find?_offersTo h, AdoptingType.owns_implements]
  by_cases hs : s = s' <;> simp [hs]

/-- The outcome of a type with one more method of its own. -/
theorem implemented_outcomeOf (reg : Registry) (config : Config) (t : AdoptingType) (s : Signature)
    (i : Implementation) (keep : RoleId → Signature → Bool) :
    Implemented s i (reg.outcomeOf config t keep)
      (reg.outcomeOf config (t.implements s i) keep) := by
  cases hcheck : reg.check config t with
  | ok _ =>
    obtain ⟨order, horder, hstorage, hvalidate⟩ := check_eq_ok.1 hcheck
    have hnone : ∀ m ∈ t.missingCapabilities order, m.signature = s := by
      rw [AdoptingType.validate_eq_ok_iff_nil.1 hvalidate]
      exact List.forall_mem_nil _
    have hcheck' : reg.check config (t.implements s i) = .ok () :=
      check_eq_ok.2 ⟨order, horder, hstorage, AdoptingType.validate_implements_of_forall hnone⟩
    rw [outcomeOf_of_check_eq_ok hcheck, outcomeOf_of_check_eq_ok hcheck',
      offersTo_implements (resolvesWithin_of_check hcheck)]
    exact t.implemented_outcomeOfTally s i keep _
  | error error =>
    rw [outcomeOf_of_check_eq_error hcheck]
    rcases check_eq_error hcheck with
      horder | ⟨order, horder, hstorage | ⟨hstorage, hvalidate⟩⟩
    · have hcheck' : reg.check config (t.implements s i) = .error error := by
        unfold check
        rw [show reg.resolutionOrder (t.implements s i).declaredRoles = _ from horder]
        rfl
      rw [outcomeOf_of_check_eq_error hcheck']
      exact .unrelated (faulty_of_resolutionOrder horder).lists_eq_false
    · have hcheck' : reg.check config (t.implements s i) = .error error := by
        rw [check_of_resolutionOrder (t := t.implements s i) horder, hstorage]
        rfl
      obtain ⟨role, fields, rfl⟩ := Engine.checkStorage_eq_error hstorage
      rw [outcomeOf_of_check_eq_error hcheck']
      exact .unrelated rfl
    · have hcheck' : reg.check config (t.implements s i) = (t.implements s i).validate order := by
        rw [check_of_resolutionOrder (t := t.implements s i) horder, hstorage]
        rfl
      rw [AdoptingType.validate_eq_error hvalidate]
      by_cases hothers : ∃ m ∈ t.missingCapabilities order, m.signature ≠ s
      · rw [AdoptingType.validate_implements_of_others hothers] at hcheck'
        rw [outcomeOf_of_check_eq_error hcheck']
        exact .missing hothers
      · -- the merge goes on to the offers, which it had not come to before
        have hnone : ∀ m ∈ t.missingCapabilities order, m.signature = s := by
          simpa using hothers
        rw [AdoptingType.validate_implements_of_forall hnone] at hcheck'
        rw [outcomeOf_of_check_eq_ok hcheck']
        exact .capable hnone (AdoptingType.outcomeOfTally_ne_missingCapability _ _ _)

end Registry

/-- A type, and the same type with one more method of its own, come to outcomes that differ in the
signature of this method only, each at any moment of a run of its own: both to tables, or the first
one to an error from the lists of which the signature is taken off. -/
theorem implemented_of_implements {b : RegistryBuilder} {config : Config} {m m' : Moment}
    {t t' : TypeEntry} {keep : RoleId → Signature → Bool} {s : Signature} {i : Implementation}
    (hdef : t'.definition = t.definition.implements s i) (h : Poised b config m t keep)
    (h' : Poised b config m' t' keep) :
    ∃ outcome outcome' e e', m.compose t.definition.name = (.ok outcome, e) ∧
      m'.compose t.definition.name = (.ok outcome', e') ∧ Implemented s i outcome outcome' := by
  obtain ⟨e, hrun⟩ := h.compose
  obtain ⟨e', hrun'⟩ := h'.compose
  rw [hdef] at hrun'
  exact ⟨_, _, e, e', hrun, hrun', b.freeze.implemented_outcomeOf config t.definition s i keep⟩

namespace Sample

/-- The signatures that an outcome reports as contested. -/
def contested : Outcome → List Signature
  | .error (.roleConflict _ conflicts) => conflicts.map SignatureConflict.signature
  | _ => []

/-- What the type brings itself. -/
def ownBody : Implementation := .standIn (.type "torn") part

end Sample

/-- A type over rival roles brings one of the contested methods itself, and then the other one as
well: first it is in conflict about the other one only, and in the end there is a table. -/
theorem implemented_of_rivals :
    let torn := Sample.torn [Sample.parting.id, Sample.staying.id] fun _ _ => true
    let once := torn.implements Sample.part Sample.ownBody
    let twice := once.implements Sample.greet Sample.ownBody
    (∃ outcome outcome' e e', (Sample.before [torn]).compose "torn" = (.ok outcome, e) ∧
      (Sample.before [once]).compose "torn" = (.ok outcome', e') ∧
      Implemented Sample.part Sample.ownBody outcome outcome' ∧
      Sample.contested outcome = [Sample.greet, Sample.part] ∧
      Sample.contested outcome' = [Sample.greet]) ∧
    ∃ outcome table e e', (Sample.before [once]).compose "torn" = (.ok outcome, e) ∧
      (Sample.before [twice]).compose "torn" = (.ok (.ok table), e') ∧
      Implemented Sample.greet Sample.ownBody outcome (.ok table) ∧
      table.ownSignatures = [Sample.greet, Sample.part] := by
  intro torn once twice
  have hprompt : torn.Prompt fun _ _ => true := .of_rule rfl
  have hpoised {t : AdoptingType} (h : t.Prompt fun _ _ => true) :
      Poised Sample.rivals {} (Sample.before [t]) { definition := t } fun _ _ => true :=
    .of_alone h.answersBy (h.calm _)
  constructor
  · obtain ⟨outcome, outcome', e, e', hrun, hrun', himplemented⟩ :=
      implemented_of_implements (s := Sample.part) (i := Sample.ownBody) rfl
        (hpoised hprompt) (hpoised (t := once) hprompt)
    have hcontested : ((Sample.before [torn]).compose "torn").1.map Sample.contested =
        .ok [Sample.greet, Sample.part] := by
      decide +kernel
    have hcontested' : ((Sample.before [once]).compose "torn").1.map Sample.contested =
        .ok [Sample.greet] := by
      decide +kernel
    replace hrun : (Sample.before [torn]).compose "torn" = (.ok outcome, e) := hrun
    replace hrun' : (Sample.before [once]).compose "torn" = (.ok outcome', e') := hrun'
    rw [hrun] at hcontested
    rw [hrun'] at hcontested'
    exact ⟨outcome, outcome', e, e', hrun, hrun', himplemented, Except.ok.inj hcontested,
      Except.ok.inj hcontested'⟩
  · obtain ⟨outcome, outcome', e, e', hrun, hrun', himplemented⟩ :=
      implemented_of_implements (s := Sample.greet) (i := Sample.ownBody) rfl
        (hpoised (t := once) hprompt) (hpoised (t := twice) hprompt)
    have hcomposed : ((Sample.before [twice]).compose "torn").1.map (fun outcome =>
        outcome.toOption.map MethodTable.ownSignatures) =
          .ok (some [Sample.greet, Sample.part]) := by
      decide +kernel
    replace hrun : (Sample.before [once]).compose "torn" = (.ok outcome, e) := hrun
    replace hrun' : (Sample.before [twice]).compose "torn" = (.ok outcome', e') := hrun'
    rw [hrun'] at hcomposed
    cases outcome' with
    | error error => cases hcomposed
    | ok table =>
      exact ⟨outcome, table, e, e', hrun, hrun', himplemented,
        Option.some.inj (Except.ok.inj hcomposed)⟩

end RoleComposition
