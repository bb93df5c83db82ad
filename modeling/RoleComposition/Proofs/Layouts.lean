import Mathlib.Algebra.GroupWithZero.Nat
import Mathlib.Algebra.Order.BigOperators.Group.List
import Mathlib.Algebra.Order.Group.Nat
import RoleComposition.Proofs.OneShot

/-!
# The layout of a report

Each method of a composed type has a line of its report, the signature in front and the provider
behind it. The providers would stand in one column if each signature that is shorter than the
column were filled up with blanks; but the signature is written as it is, so that its provider
begins wherever it ends. Main statement: `layout_of_composed`.
-/

namespace RoleComposition

/-- The number of characters since the last line break. -/
def column (text : String) : Nat := (text.toList.reverse.takeWhile (· != '\n')).length

/-- A text filled up with blanks to a width. -/
def padded (width : Nat) (text : String) : String :=
  text ++ String.ofList (List.replicate (width - text.length) ' ')

namespace Report

/-- The lines above the methods. -/
def heading (r : Report) : String :=
  line (r.typeName ++ " [" ++ r.state.text ++ "]") ++
    if r.declaredRoles.isEmpty then "" else line ("  roles: " ++ RoleId.listText r.declaredRoles)

/-- The lines below the methods. -/
def footing (r : Report) : String :=
  (match r.digest with
    | some digest => line ("  digest: " ++ (digest.take 16).toString)
    | none => "") ++
  (match r.error with
    | some error => line ("  error: " ++ error)
    | none => "")

/-- What stands in front of a provider if signatures are filled up to a width. -/
def cell (width : Nat) (e : ReportEntry) : String := "  " ++ padded width e.signature.text ++ " "

/-- The lines of some methods, the signatures filled up to a width. -/
def rows (width : Nat) (es : List ReportEntry) : String :=
  String.join (es.map fun e => line (cell width e ++ e.provider.text))

/-- What stands in front of the provider of a method below some others. -/
def leadIn (r : Report) (above : List ReportEntry) (e : ReportEntry) : String :=
  r.heading ++ String.join (above.map methodLine) ++ "  " ++ e.signature.text ++ " "

/-- The report as text, the signatures filled up to a width. -/
def laidOut (width : Nat) (r : Report) : String := r.heading ++ rows width r.methods ++ r.footing

end Report

variable {r : Report} {e : ReportEntry} {es : List ReportEntry} {width : Nat}

/-! ## Columns -/

/-- Text without a line break moves on by its length. -/
theorem column_append (a : String) {b : String} (h : '\n' ∉ b.toList) :
    column (a ++ b) = column a + b.length := by
  have hpass : ∀ c ∈ b.toList.reverse, (c != '\n') = true := by
    intro c hc
    have hne : c ≠ '\n' := fun heq => h (heq ▸ List.mem_reverse.1 hc)
    simpa using hne
  unfold column
  rw [String.toList_append, List.reverse_append, List.takeWhile_append_of_pos hpass,
    List.length_append, List.length_reverse, String.length_toList, Nat.add_comm]

theorem column_append_line (a b : String) : column (a ++ Report.line b) = 0 := by
  unfold column Report.line
  simp

theorem column_append_rows {a : String} (h : column a = 0) (es : List ReportEntry) :
    column (a ++ Report.rows width es) = 0 := by
  induction es generalizing a with
  | nil => simpa [Report.rows] using h
  | cons e es ih =>
    have hstep := ih (column_append_line a (Report.cell width e ++ e.provider.text))
    rw [String.append_assoc] at hstep
    simpa [Report.rows] using hstep

theorem column_heading (r : Report) : column r.heading = 0 := by
  unfold Report.heading
  split_ifs
  · rw [String.append_empty]
    exact column_append_line "" _
  · exact column_append_line _ _

theorem length_padded (width : Nat) (text : String) :
    (padded width text).length = text.length + (width - text.length) := by
  unfold padded
  rw [String.length_append, String.length_ofList, List.length_replicate]

/-- Behind a signature that is filled up, the provider stands in the column of the width, or after
the signature if that is longer. -/
theorem column_cell {a : String} (h : column a = 0) (hplain : '\n' ∉ e.signature.text.toList) :
    column (a ++ Report.cell width e) = max width e.signature.text.length + 3 := by
  have hcell : '\n' ∉ (Report.cell width e).toList := by
    unfold Report.cell padded
    simpa using hplain
  rw [column_append a hcell, h]
  unfold Report.cell
  rw [String.length_append, String.length_append, length_padded]
  have htwo : "  ".length = 2 := rfl
  have hone : " ".length = 1 := rfl
  omega

/-! ## Rows -/

namespace Report

theorem cell_zero (e : ReportEntry) : cell 0 e = "  " ++ e.signature.text ++ " " := by
  simp [cell, padded]

theorem length_cell (width : Nat) (e : ReportEntry) :
    (cell width e).length = (cell 0 e).length + (width - e.signature.text.length) := by
  unfold cell
  simp only [String.length_append, length_padded]
  omega

theorem rows_cons (width : Nat) (e : ReportEntry) (es : List ReportEntry) :
    rows width (e :: es) = line (cell width e ++ e.provider.text) ++ rows width es := by
  unfold rows
  rw [List.map_cons, String.join_cons]

theorem rows_append (width : Nat) (es es' : List ReportEntry) :
    rows width (es ++ es') = rows width es ++ rows width es' := by
  unfold rows
  rw [List.map_append, String.join_append]

theorem rows_zero (es : List ReportEntry) : rows 0 es = String.join (es.map methodLine) := by
  unfold rows
  simp only [cell_zero]
  rfl

/-- The text of a report fills no signature up. -/
theorem render_eq_laidOut (r : Report) : r.render = r.laidOut 0 := by
  unfold render laidOut heading footing
  rw [rows_zero]
  exact String.append_assoc

theorem length_rows (width : Nat) (es : List ReportEntry) :
    (rows width es).length = (rows 0 es).length +
      (es.map fun e => width - e.signature.text.length).sum := by
  induction es with
  | nil => rfl
  | cons e es ih =>
    rw [rows_cons, rows_cons, List.map_cons, List.sum_cons]
    unfold line
    simp only [String.length_append, length_cell width e, ih]
    omega

/-- Rows are the same at two widths only if they are equally long, so that nothing is filled up. -/
theorem rows_eq_iff : rows 0 es = rows width es ↔ ∀ e ∈ es, width ≤ e.signature.text.length := by
  constructor
  · intro heq e he
    have hlength := congrArg String.length heq
    rw [length_rows width] at hlength
    have hsum : (es.map fun e => width - e.signature.text.length).sum = 0 := by omega
    have hmissing := List.sum_eq_zero_iff.1 hsum _ (List.mem_map_of_mem he)
    omega
  · intro hlong
    unfold rows
    refine congrArg String.join (List.map_congr_left fun e he => ?_)
    have hfull : padded width e.signature.text = padded 0 e.signature.text := by
      unfold padded
      rw [Nat.sub_eq_zero_of_le (hlong e he), Nat.zero_sub]
    unfold cell
    rw [hfull]

/-- Filling signatures up to a width is seen unless all of them reach it. -/
theorem render_eq_laidOut_iff :
    r.render = r.laidOut width ↔ ∀ e ∈ r.methods, width ≤ e.signature.text.length := by
  rw [render_eq_laidOut]
  unfold laidOut
  rw [String.append_left_inj, String.append_right_inj, rows_eq_iff]

/-- The text of a report around a provider. -/
theorem render_eq_of_methods {above below : List ReportEntry} (h : r.methods = above ++ e :: below) :
    r.render = r.leadIn above e ++ e.provider.text ++ "\n" ++
      (String.join (below.map methodLine) ++ r.footing) := by
  rw [render_eq_laidOut]
  unfold laidOut leadIn
  rw [h, rows_append, rows_cons, rows_zero, rows_zero, cell_zero]
  unfold line
  simp only [String.append_assoc]

theorem column_leadIn (r : Report) (above : List ReportEntry)
    (hplain : '\n' ∉ e.signature.text.toList) :
    column (r.leadIn above e) = e.signature.text.length + 3 := by
  have hcolumn : column (r.heading ++ rows 0 above ++ cell 0 e) = _ :=
    column_cell (column_append_rows (column_heading r) above) hplain
  rw [rows_zero, cell_zero, Nat.zero_max] at hcolumn
  unfold leadIn
  simpa only [String.append_assoc] using hcolumn

end Report

/-! ## Composed types -/

/-- The report of a composed type lists the methods of its table. -/
theorem Engine.report_of_effectiveMethods {e : Engine} {name : String} {table : MethodTable}
    (h : e.effectiveMethods name = .ok (some table)) :
    ∃ r, e.report name = .ok r ∧ r.state = .composed ∧
      r.methods.map ReportEntry.signature = table.entries.signatures := by
  obtain ⟨t, ht, hslot⟩ := outcome_eq_some.1 (outcome_of_effectiveMethods h)
  refine ⟨t.report, ?_, ?_, ?_⟩
  · unfold report entry
    rw [ht]
    rfl
  · unfold TypeEntry.report
    rw [hslot]
    rfl
  · unfold TypeEntry.report
    rw [hslot]
    exact List.map_map

/-- The report of a composed type has a line for each of its methods, in which the provider follows
the signature after one blank, so that the providers of two methods stand in one column only if
their signatures are equally long. At no width is this the layout with the signatures filled up to
it, unless all of them have that many characters. -/
theorem layout_of_composed {e : Engine} {name : String} {table : MethodTable}
    (h : e.effectiveMethods name = .ok (some table))
    (hplain : ∀ s ∈ table.entries.signatures, '\n' ∉ s.text.toList) :
    ∃ r, e.report name = .ok r ∧ r.state = .composed ∧
      r.methods.map ReportEntry.signature = table.entries.signatures ∧
      (∀ above entry below, r.methods = above ++ entry :: below →
        r.render = r.leadIn above entry ++ entry.provider.text ++ "\n" ++
          (String.join (below.map Report.methodLine) ++ r.footing) ∧
        column (r.leadIn above entry) = entry.signature.text.length + 3) ∧
      ∀ width, r.render = r.laidOut width ↔
        ∀ entry ∈ r.methods, width ≤ entry.signature.text.length := by
  obtain ⟨r, hr, hstate, hmethods⟩ := Engine.report_of_effectiveMethods h
  refine ⟨r, hr, hstate, hmethods, ?_, fun width => Report.render_eq_laidOut_iff⟩
  intro above entry below hsplit
  have hentry : entry ∈ r.methods := by
    rw [hsplit]
    exact List.mem_append_right above List.mem_cons_self
  have hsignature : entry.signature ∈ table.entries.signatures :=
    hmethods ▸ List.mem_map_of_mem hentry
  exact ⟨Report.render_eq_of_methods hsplit,
    Report.column_leadIn r above (hplain entry.signature hsignature)⟩

namespace Sample

def erase : Signature := ⟨.onInstance, "erase"⟩

def play : Signature := ⟨.onInstance, "play"⟩

/-- A type with two methods of its own. -/
def recorder : AdoptingType :=
  ((AdoptingType.named "Recorder").implements play
    ⟨"Recorder.play", .given 0, Body.constant .null⟩).implements erase
    ⟨"Recorder.erase", .given 1, Body.constant .null⟩

/-- An engine that has composed it. -/
def recording : Engine :=
  (runFrom (Request.compose "Recorder").step
    (runFrom (Request.declare recorder).step (Engine.new (RegistryBuilder.freeze {}) {})).2).2

theorem methods_of_recording :
    ∃ table, recording.effectiveMethods "Recorder" = .ok (some table) ∧
      table.entries.signatures = [erase, play] := by
  have hsignatures : (recording.effectiveMethods "Recorder").map
      (Option.map fun table => table.entries.signatures) = .ok (some [erase, play]) := by
    decide +kernel
  rcases hmethods : recording.effectiveMethods "Recorder" with error | _ | table
  · rw [hmethods] at hsignatures
    cases hsignatures
  · rw [hmethods] at hsignatures
    cases hsignatures
  · rw [hmethods] at hsignatures
    exact ⟨table, rfl, Option.some.inj (Except.ok.inj hsignatures)⟩

end Sample

open Sample in
/-- The provider of each method stands three places behind the end of its signature. -/
theorem layout_of_composed_recorder :
    ∃ r, recording.report "Recorder" = .ok r ∧ r.methods.map ReportEntry.signature = [erase, play] ∧
      ∀ above entry below, r.methods = above ++ entry :: below →
        column (r.leadIn above entry) = entry.signature.text.length + 3 := by
  obtain ⟨table, hmethods, hsignatures⟩ := methods_of_recording
  have hplain : ∀ s ∈ table.entries.signatures, '\n' ∉ s.text.toList := by
    rw [hsignatures]
    decide +kernel
  obtain ⟨r, hr, -, hlisted, hlines, -⟩ := layout_of_composed hmethods hplain
  exact ⟨r, hr, hlisted.trans hsignatures, fun above entry below h => (hlines above entry below h).2⟩

open Sample in
/-- Two methods with signatures of fewer than 24 characters whose providers stand in different
columns. -/
theorem layout_of_short_signatures :
    ∃ r, recording.report "Recorder" = .ok r ∧ r.state = .composed ∧
      (∀ entry ∈ r.methods,
        '\n' ∉ entry.signature.text.toList ∧ entry.signature.text.length < 24) ∧
      r.render ≠ r.laidOut 24 ∧
      ∃ entry entry', r.methods = [entry, entry'] ∧
        column (r.leadIn [] entry) ≠ column (r.leadIn [entry] entry') := by
  obtain ⟨table, hmethods, hsignatures⟩ := methods_of_recording
  obtain ⟨r, hr, hstate, hlisted⟩ := Engine.report_of_effectiveMethods hmethods
  rw [hsignatures] at hlisted
  have hshort : ∀ entry ∈ r.methods,
      '\n' ∉ entry.signature.text.toList ∧ entry.signature.text.length < 24 := by
    have hall : ∀ s ∈ [erase, play], '\n' ∉ s.text.toList ∧ s.text.length < 24 := by
      decide +kernel
    exact fun entry hentry => hall _ (hlisted ▸ List.mem_map_of_mem hentry)
  obtain ⟨entry, entries, hcons, herase, hrest⟩ := List.map_eq_cons_iff.1 hlisted
  obtain ⟨entry', entries', hcons', hplay, hnil⟩ := List.map_eq_cons_iff.1 hrest
  cases List.map_eq_nil_iff.1 hnil
  rw [hcons'] at hcons
  refine ⟨r, hr, hstate, hshort, ?_, entry, entry', hcons, ?_⟩
  · intro heq
    have hentry : entry ∈ r.methods := by
      rw [hcons]
      exact List.mem_cons_self
    exact absurd (Report.render_eq_laidOut_iff.1 heq entry hentry)
      (Nat.not_le_of_lt (hshort entry hentry).2)
  · have hplain : ∀ entry ∈ r.methods, '\n' ∉ entry.signature.text.toList :=
      fun entry hentry => (hshort entry hentry).1
    rw [hcons] at hplain
    rw [Report.column_leadIn r [] (hplain entry List.mem_cons_self),
      Report.column_leadIn r [entry] (hplain entry' (List.mem_cons_of_mem _ List.mem_cons_self)),
      herase, hplay]
    decide +kernel

end RoleComposition
