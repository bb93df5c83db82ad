import RoleComposition.Proofs.Soundness

/-!
# Reports taken while a type is composed

A report reads the state of a type's slot, the mark that the type is settled, and the outcome, one
after the other, and the thread that composes the type may take steps between them. Each part of the
report is right at its own moment (`reads_iff`). A report that says that the type is composed or has
failed is complete and stays true; any other report is consistent only if it has been taken before
the type was marked (`report_of_reads`). A report that saw a vacant slot may yet have a digest
(`torn_report`).
-/

namespace RoleComposition

open Relation (ReflTransGen)

/-- A step of the thread that composes a type: it takes the slot, marks the type as settled, and
publishes the outcome. -/
inductive TypeEntry.Goes : TypeEntry → TypeEntry → Prop
  | take {t : TypeEntry} : t.slot = .vacant → Goes t { t with slot := .running }
  | mark {t : TypeEntry} : t.slot = .running → Goes t { t with settled := true }
  | publish {t : TypeEntry} (outcome : Outcome) : t.slot = .running → t.settled = true →
      Goes t { t with slot := .settled outcome }

/-- How far a report has got. -/
inductive Reading where
  | begun
  | seen (state : CompositionState)
  | marked (state : CompositionState) (settled : Bool)
  | done (report : Report)

/-- A step of the thread that composes a type, or of a thread that takes a report of it. -/
inductive Reading.Step : TypeEntry × Reading → TypeEntry × Reading → Prop
  | goes {t t' : TypeEntry} {r : Reading} : t.Goes t' → Step (t, r) (t', r)
  | sees {t : TypeEntry} : Step (t, .begun) (t, .seen t.slot.state)
  | marks {t : TypeEntry} {state : CompositionState} :
      Step (t, .seen state) (t, .marked state t.settled)
  | ends {t : TypeEntry} {state : CompositionState} {settled : Bool} :
      Step (t, .marked state settled) (t, .done
        ((Report.pending t.definition.name t.definition.declaredRoles settled state).withOutcome
          t.slot.outcome?))

/-- A report has a digest if and only if it says that the type is composed, an error if and only if
it says that the type has failed, and the mark if and only if it says either. -/
structure Report.Consistent (r : Report) : Prop where
  digest : r.digest.isSome ↔ r.state = .composed
  error : r.error.isSome ↔ r.state = .failed
  settled : r.settled = r.state.isTerminal

namespace TypeEntry

variable {d : AdoptingType} {t t' : TypeEntry}

/-- Nothing happens to a type that is settled. -/
theorem eq_of_goes {outcome : Outcome} (hslot : t.slot = .settled outcome)
    (h : ReflTransGen Goes t t') : t' = t := by
  rcases ReflTransGen.cases_head h with rfl | ⟨t₁, hstep, -⟩
  · rfl
  · cases hstep with
    | take hvacant => simp [hslot] at hvacant
    | mark hrunning => simp [hslot] at hrunning
    | publish _ hrunning => simp [hslot] at hrunning

/-- An outcome is published only for a type that is marked. -/
theorem settled_of_goes (h : ReflTransGen Goes { definition := d } t)
    (hterminal : t.slot.state.isTerminal) : t.settled = true := by
  rcases ReflTransGen.cases_tail h with rfl | ⟨t₁, -, hstep⟩
  · cases hterminal
  · cases hstep with
    | take => cases hterminal
    | mark => rfl
    | publish _ _ hmarked => exact hmarked

end TypeEntry

theorem Slot.eq_settled_of_isTerminal {α : Type} {slot : Slot α} (h : slot.state.isTerminal) :
    ∃ outcome, slot = .settled outcome := by
  cases slot with
  | settled outcome => exact ⟨outcome, rfl⟩
  | vacant | running => cases h

/-! ## Reports as they come out -/

/-- The report whose parts were read off a type at three moments. -/
def Report.ofReads (t₁ t₂ t₃ : TypeEntry) : Report :=
  (Report.pending t₃.definition.name t₃.definition.declaredRoles t₂.settled t₁.slot.state).withOutcome
    t₃.slot.outcome?

/-- What has been read was so at a moment since the type was declared. -/
def Reading.Since (d : AdoptingType) (t : TypeEntry) : Reading → Prop
  | .begun => ReflTransGen TypeEntry.Goes { definition := d } t
  | .seen state => ∃ t₁, ReflTransGen TypeEntry.Goes { definition := d } t₁ ∧
      ReflTransGen TypeEntry.Goes t₁ t ∧ state = t₁.slot.state
  | .marked state settled => ∃ t₁ t₂, ReflTransGen TypeEntry.Goes { definition := d } t₁ ∧
      ReflTransGen TypeEntry.Goes t₁ t₂ ∧ ReflTransGen TypeEntry.Goes t₂ t ∧
      state = t₁.slot.state ∧ settled = t₂.settled
  | .done report => ∃ t₁ t₂ t₃, ReflTransGen TypeEntry.Goes { definition := d } t₁ ∧
      ReflTransGen TypeEntry.Goes t₁ t₂ ∧ ReflTransGen TypeEntry.Goes t₂ t₃ ∧
      ReflTransGen TypeEntry.Goes t₃ t ∧ report = .ofReads t₁ t₂ t₃

namespace Reading

variable {d : AdoptingType} {t t' : TypeEntry} {r r' : Reading}

theorem Since.goes (h : r.Since d t) (hstep : t.Goes t') : r.Since d t' := by
  cases r with
  | begun => exact h.tail hstep
  | seen state =>
    obtain ⟨t₁, h₁, h₂, heq⟩ := h
    exact ⟨t₁, h₁, h₂.tail hstep, heq⟩
  | marked state settled =>
    obtain ⟨t₁, t₂, h₁, h₂, h₃, heq⟩ := h
    exact ⟨t₁, t₂, h₁, h₂, h₃.tail hstep, heq⟩
  | done report =>
    obtain ⟨t₁, t₂, t₃, h₁, h₂, h₃, h₄, heq⟩ := h
    exact ⟨t₁, t₂, t₃, h₁, h₂, h₃, h₄.tail hstep, heq⟩

theorem Step.since (h : r.Since d t) (hstep : Step (t, r) (t', r')) : r'.Since d t' := by
  cases hstep with
  | goes hgoes => exact h.goes hgoes
  | sees => exact ⟨t, h, .refl, rfl⟩
  | marks =>
    obtain ⟨t₁, h₁, h₂, heq⟩ := h
    exact ⟨t₁, t, h₁, h₂, .refl, heq, rfl⟩
  | ends =>
    obtain ⟨t₁, t₂, h₁, h₂, h₃, rfl, rfl⟩ := h
    exact ⟨t₁, t₂, t, h₁, h₂, h₃, .refl, rfl⟩

theorem since_of_steps {now : TypeEntry × Reading}
    (h : ReflTransGen Step ({ definition := d }, .begun) now) : now.2.Since d now.1 := by
  induction h with
  | refl => exact .refl
  | tail _ hstep ih => exact hstep.since ih

theorem steps_of_goes (h : ReflTransGen TypeEntry.Goes t t') (r : Reading) :
    ReflTransGen Step (t, r) (t', r) := by
  induction h with
  | refl => exact .refl
  | tail _ hstep ih => exact ih.tail (.goes hstep)

/-- The reports that can come out are those whose parts were read off one after the other. -/
theorem reads_iff {report : Report} :
    ReflTransGen Step ({ definition := d }, .begun) (t, .done report) ↔
      ∃ t₁ t₂ t₃, ReflTransGen TypeEntry.Goes { definition := d } t₁ ∧
        ReflTransGen TypeEntry.Goes t₁ t₂ ∧ ReflTransGen TypeEntry.Goes t₂ t₃ ∧
        ReflTransGen TypeEntry.Goes t₃ t ∧ report = .ofReads t₁ t₂ t₃ := by
  constructor
  · exact since_of_steps
  · rintro ⟨t₁, t₂, t₃, h₁, h₂, h₃, h₄, rfl⟩
    have hseen := (steps_of_goes h₁ .begun).tail .sees
    have hmarked := (hseen.trans (steps_of_goes h₂ _)).tail .marks
    exact ((hmarked.trans (steps_of_goes h₃ _)).tail .ends).trans (steps_of_goes h₄ _)

end Reading

namespace Report

variable {t₁ t₂ t₃ : TypeEntry}

theorem state_ofReads : (ofReads t₁ t₂ t₃).state = t₁.slot.state := by
  unfold ofReads
  rcases t₃.slot.outcome? with _ | (_ | _) <;> rfl

/-- A report that has a digest or an error has it from an outcome. -/
theorem exists_outcome_of_ofReads
    (h : (ofReads t₁ t₂ t₃).digest.isSome ∨ (ofReads t₁ t₂ t₃).error.isSome) :
    ∃ outcome, t₃.slot = .settled outcome := by
  unfold ofReads at h
  cases houtcome : t₃.slot.outcome? with
  | some outcome => exact ⟨outcome, Slot.outcome?_eq_some.mp houtcome⟩
  | none =>
    rw [houtcome] at h
    simp [withOutcome, pending] at h

/-- The report of a settled type is consistent if the type is marked. -/
theorem consistent_of_settled {t : TypeEntry} (hterminal : t.slot.state.isTerminal)
    (hmarked : t.settled = true) : t.report.Consistent := by
  obtain ⟨outcome, hslot⟩ := Slot.eq_settled_of_isTerminal hterminal
  unfold TypeEntry.report
  rw [hslot, hmarked]
  cases outcome with
  | ok table => exact ⟨by simp [withOutcome, pending, Slot.outcome?, Slot.state],
      by simp [withOutcome, pending, Slot.outcome?, Slot.state], rfl⟩
  | error error => exact ⟨by simp [withOutcome, pending, Slot.outcome?, Slot.state],
      by simp [withOutcome, pending, Slot.outcome?, Slot.state], rfl⟩

/-- A consistent report that says nothing final says nothing else. -/
theorem consistent_iff_of_not_isTerminal {r : Report} (h : r.state.isTerminal = false) :
    r.Consistent ↔ r.settled = false ∧ r.digest = none ∧ r.error = none := by
  have hcomposed : r.state ≠ .composed := fun heq => by simp [heq, CompositionState.isTerminal] at h
  have hfailed : r.state ≠ .failed := fun heq => by simp [heq, CompositionState.isTerminal] at h
  constructor
  · rintro ⟨hdigest, herror, hsettled⟩
    exact ⟨hsettled.trans h, by simpa [hcomposed] using hdigest, by simpa [hfailed] using herror⟩
  · rintro ⟨hsettled, hdigest, herror⟩
    exact ⟨by simp [hdigest, hcomposed], by simp [herror, hfailed], hsettled.trans h.symm⟩

end Report

/-- A report that says that the type is composed or has failed is the report of the type from then
on, and is consistent. What any report has of an outcome stays true as well; but unless it says that
the type is composed or has failed, it is consistent only if it has neither that nor the mark. -/
theorem report_of_reads {d : AdoptingType} {t : TypeEntry} {report : Report}
    (h : ReflTransGen Reading.Step ({ definition := d }, .begun) (t, .done report)) :
    (report.state.isTerminal → report.Consistent ∧
      ∀ t', ReflTransGen TypeEntry.Goes t t' → t'.report = report) ∧
    (report.digest.isSome ∨ report.error.isSome → ∀ t', ReflTransGen TypeEntry.Goes t t' →
      t'.report.methods = report.methods ∧ t'.report.digest = report.digest ∧
        t'.report.error = report.error) ∧
    (report.state.isTerminal = false → (report.Consistent ↔
      report.settled = false ∧ report.digest = none ∧ report.error = none)) := by
  obtain ⟨t₁, t₂, t₃, h₁, h₂, h₃, h₄, rfl⟩ := Reading.reads_iff.mp h
  refine ⟨fun hterminal => ?_, fun hsome t' h' => ?_, Report.consistent_iff_of_not_isTerminal⟩
  · rw [Report.state_ofReads] at hterminal
    obtain ⟨outcome, hslot⟩ := Slot.eq_settled_of_isTerminal hterminal
    -- the type was settled at the first moment, so it has stayed the same since
    obtain rfl := TypeEntry.eq_of_goes hslot h₂
    obtain rfl := TypeEntry.eq_of_goes hslot h₃
    obtain rfl := TypeEntry.eq_of_goes hslot h₄
    refine ⟨Report.consistent_of_settled hterminal (TypeEntry.settled_of_goes h₁ hterminal),
      fun t' h' => ?_⟩
    rw [TypeEntry.eq_of_goes hslot h']
    rfl
  · obtain ⟨outcome, hslot⟩ := Report.exists_outcome_of_ofReads hsome
    obtain rfl := TypeEntry.eq_of_goes hslot h₄
    obtain rfl := TypeEntry.eq_of_goes hslot h'
    unfold TypeEntry.report Report.ofReads
    rw [hslot]
    cases outcome <;> exact ⟨rfl, rfl, rfl⟩

/-- Between two moments of a run, a type goes by such steps. -/
theorem goes_of_progress {e e' : Engine} (hs : e.Sound) (hs' : e'.Sound) (h : e.Progress e')
    {name : String} {t t' : TypeEntry} (ht : e.find? name = some t) (ht' : e'.find? name = some t') :
    ReflTransGen TypeEntry.Goes t t' := by
  obtain ⟨t₁, hfind, hdefinition, hleads⟩ := h.types name t ht
  obtain rfl : t' = t₁ := Option.some.inj (ht'.symm.trans hfind)
  have hmarked := hs.marked t (Engine.mem_of_find? ht)
  have hmarked' := hs'.marked t' (Engine.mem_of_find? ht')
  obtain ⟨d, slot, settled⟩ := t
  obtain ⟨d', slot', settled'⟩ := t'
  obtain rfl : d' = d := hdefinition
  obtain rfl : settled = slot.state.isTerminal := hmarked
  obtain rfl : settled' = slot'.state.isTerminal := hmarked'
  have finish (outcome : Outcome) :
      ReflTransGen TypeEntry.Goes ⟨d', .running, false⟩ ⟨d', .settled outcome, true⟩ :=
    .tail (.single (.mark rfl)) (.publish outcome rfl rfl)
  have hterminal (outcome : Outcome) : (Slot.settled outcome).state.isTerminal = true := by
    cases outcome <;> rfl
  cases hleads with
  | same => exact .refl
  | start => exact .single (.take rfl)
  | fill outcome =>
    rw [hterminal]
    exact .head (.take rfl) (finish outcome)
  | finish outcome =>
    rw [hterminal]
    exact finish outcome

namespace Sample

/-- A type at a stage of its composition. -/
def staged (slot : Slot MethodTable) (settled : Bool) : TypeEntry :=
  { definition := .named "host", slot, settled }

theorem goes_marked : ReflTransGen TypeEntry.Goes (staged .vacant false) (staged .running true) :=
  .tail (.single (.take rfl)) (.mark rfl)

theorem goes_settled (outcome : Outcome) :
    ReflTransGen TypeEntry.Goes (staged .vacant false) (staged (.settled outcome) true) :=
  goes_marked.tail (.publish outcome rfl rfl)

end Sample

open Sample in
/-- A report whose reads fall before and after a whole composition has a digest and the mark, and
says that the type is uncomposed. One whose reads fall together, between the mark and the
publication, has the mark and says that the type is being composed. -/
theorem torn_report :
    (∃ t report, ReflTransGen Reading.Step (staged .vacant false, .begun) (t, .done report) ∧
      report.state = .uncomposed ∧ report.settled = true ∧ report.digest.isSome ∧
      ¬ report.Consistent) ∧
    ∃ t, ReflTransGen Reading.Step (staged .vacant false, .begun) (t, .done t.report) ∧
      t.report.state = .composing ∧ t.report.settled = true ∧ ¬ t.report.Consistent := by
  constructor
  · have hsettled := goes_settled (.ok ⟨"host", ∅⟩)
    refine ⟨_, _, Reading.reads_iff.mpr ⟨_, _, _, .refl, hsettled, .refl, .refl, rfl⟩, rfl, rfl, rfl,
      fun h => ?_⟩
    cases h.settled
  · refine ⟨_, Reading.reads_iff.mpr ⟨_, _, _, goes_marked, .refl, .refl, .refl, rfl⟩, rfl, rfl,
      fun h => ?_⟩
    cases h.settled

open Sample in
/-- A report that is taken after the composition. -/
theorem report_of_reads_of_staged :
    let t := staged (.settled (.ok ⟨"host", ∅⟩)) true
    ReflTransGen Reading.Step (staged .vacant false, .begun) (t, .done t.report) ∧
      t.report.state.isTerminal ∧ t.report.Consistent ∧
      ∀ t', ReflTransGen TypeEntry.Goes t t' → t'.report = t.report := by
  intro t
  have hsteps : ReflTransGen Reading.Step (staged .vacant false, .begun) (t, .done t.report) :=
    Reading.reads_iff.mpr ⟨t, t, t, goes_settled _, .refl, .refl, .refl, rfl⟩
  obtain ⟨hconsistent, hfinal⟩ := (report_of_reads hsteps).1 rfl
  exact ⟨hsteps, rfl, hconsistent, hfinal⟩

end RoleComposition
