import RoleComposition.Proofs.Consultations
import RoleComposition.Veto.Recording

/-!
# Interviews

A hook is asked by giving it control at one of its entry points and doing what it does there, up to
its answer. A merge is an interview of the hook of its type: the questions are put to it one after
the other, each at the entry point for the level of the signature, and nothing that a hook could
notice happens from one to the next. So a hook that keeps a record has noted each question in the
end. Main statements: `merges_of_vacant` (composing a vacant type is one interview along
`questionsTo`) and `notes_of_interview` (what a recording hook has noted).
-/

namespace RoleComposition

/-- What a hook does, thing after thing, from one engine to another one, until it has answered or
has come to a halt. -/
inductive Consultation.Runs (depth : Nat) :
    Consultation → Engine → Except Halt Bool → Engine → Prop
  | answer (keep : Bool) (e : Engine) : Runs depth (.answer keep) e (.ok keep) e
  | panic (payload : Panic) (e : Engine) :
      Runs depth (.panic payload) e (.error (.panic payload)) e
  | compose {name : String} {next : Outcome → Consultation} {outcome : Outcome}
      {exit : Except Halt Bool} {e e₁ e' : Engine}
      (composed : runFrom (EngineM.composeWithin depth name) e = (.ok outcome, e₁))
      (rest : Runs depth (next outcome) e₁ exit e') : Runs depth (.compose name next) e exit e'
  | halt {name : String} {next : Outcome → Consultation} {halt : Halt} {e e' : Engine}
      (halted : runFrom (EngineM.composeWithin depth name) e = (.error halt, e')) :
      Runs depth (.compose name next) e (.error halt) e'
  | attempt {name : String} {next : Except Panic Outcome → Consultation} {outcome : Outcome}
      {exit : Except Halt Bool} {e e₁ e' : Engine}
      (composed : runFrom (EngineM.composeWithin depth name) e = (.ok outcome, e₁))
      (rest : Runs depth (next (.ok outcome)) e₁ exit e') :
      Runs depth (.attempt name next) e exit e'
  | caught {name : String} {next : Except Panic Outcome → Consultation} {payload : Panic}
      {exit : Except Halt Bool} {e e₁ e' : Engine}
      (raised : runFrom (EngineM.composeWithin depth name) e = (.error (.panic payload), e₁))
      (rest : Runs depth (next (.error payload)) e₁ exit e') :
      Runs depth (.attempt name next) e exit e'
  | abort {name : String} {next : Except Panic Outcome → Consultation} {e e' : Engine}
      (aborted : runFrom (EngineM.composeWithin depth name) e = (.error .abort, e')) :
      Runs depth (.attempt name next) e (.error .abort) e'
  | observe {name : String} {next : Except CompositionError Observation → Consultation}
      {exit : Except Halt Bool} {e e' : Engine}
      (rest : Runs depth (next (e.observe name)) e exit e') :
      Runs depth (.observe name next) e exit e'
  | note {n : Note} {next : Consultation} {exit : Except Halt Bool} {e e' : Engine}
      (rest : Runs depth next { e with notes := e.notes ++ [n] } exit e') :
      Runs depth (.note n next) e exit e'
  | recall {next : List Note → Consultation} {exit : Except Halt Bool} {e e' : Engine}
      (rest : Runs depth (next e.notes) e exit e') : Runs depth (.recall next) e exit e'

/-- The engine has recorded some questions, and is the same as before to hooks: they can see the
types and the notes, and what they compose depends on the settings and the roles besides, but not on
which closures have been filled. -/
structure Engine.Puts (e : Engine) (qs : List Question) (e' : Engine) : Prop where
  questions : e'.questions = e.questions ++ qs
  notes : e'.notes = e.notes
  types : e'.types = e.types
  config : e'.config = e.config
  fills : e.registry.Sound → e.registry.Fills e'.registry

/-- The hook of a type is put some questions in turn on the way from one engine to another one: each
gives control to the entry point for its signature, and what the hook does then is done. If it does
not come to an answer, then it is asked nothing more. -/
inductive Interview (t : AdoptingType) (depth : Nat) :
    List Question → Except Halt Unit → Engine → Engine → Prop
  | finished {e e' : Engine} (h : e.Puts [] e') : Interview t depth [] (.ok ()) e e'
  | answered {hook : Hook} {q : Question} {qs : List Question} {keep : Bool}
      {exit : Except Halt Unit} {e e₁ e₂ e' : Engine} (veto : t.veto = some hook)
      (put : e.Puts [q] e₁)
      (answer : (hook.opening q.role q.signature).Runs depth e₁ (.ok keep) e₂)
      (rest : Interview t depth qs exit e₂ e') : Interview t depth (q :: qs) exit e e'
  | halted {hook : Hook} {q : Question} {halt : Halt} {e e₁ e' : Engine}
      (veto : t.veto = some hook) (put : e.Puts [q] e₁)
      (halts : (hook.opening q.role q.signature).Runs depth e₁ (.error halt) e') :
      Interview t depth [q] (.error halt) e e'

/-- A step is an interview along a list of questions, to its end unless the step halts. -/
def Interviews {α : Type} (t : AdoptingType) (depth : Nat) (qs : List Question) (e : Engine)
    (run : Except Halt α × Engine) : Prop :=
  ∃ asked, asked <+: qs ∧ (∀ a, run.1 = .ok a → asked = qs) ∧
    Interview t depth asked (run.1.map fun _ => ()) e run.2

/-- Composing a vacant type at a moment, as the caller or the hook in control would, is to begin its
merge, to interview its hook along a list of questions, and to leave the merge as the interview has
ended. -/
structure Moment.Merges (m : Moment) (t : AdoptingType) (qs asked : List Question)
    (result : Except Halt Outcome) (e : Engine) : Prop where
  inOrder : asked <+: qs
  complete : ∀ outcome, result = .ok outcome → asked = qs
  interview : ∃ depth, m.depth = depth + 1 ∧
    Interview t depth asked (result.map fun _ => ()) (m.engine.enter t) e
  left : m.compose t.name = Engine.afterMerge t.name (result, e)
  recorded : (m.compose t.name).2.questionsOf t.name = asked

variable {t : AdoptingType} {depth : Nat} {qs qs' asked : List Question} {e e₁ e' : Engine}
  {exit : Except Halt Unit}

/-! ## What hooks do -/

/-- An engine that consults a hook does what the hook does. -/
theorem runs_iff {c : Consultation} {answer : Except Halt Bool} :
    c.Runs depth e answer e' ↔
      runFrom (EngineM.consult (EngineM.composeWithin depth) c) e = (answer, e') := by
  constructor
  · intro h
    induction h with
    | answer keep e => rfl
    | panic payload e => rfl
    | compose hrun _ ih => rwa [EngineM.consult, runFrom_bind_ok hrun]
    | halt hrun => rw [EngineM.consult, runFrom_bind_error hrun]
    | attempt hrun _ ih =>
      unfold EngineM.consult EngineM.attempt
      rw [runFrom_bind_ok (runFrom_lift_run _ _), hrun]
      exact ih
    | caught hrun _ ih =>
      unfold EngineM.consult EngineM.attempt
      rw [runFrom_bind_ok (runFrom_lift_run _ _), hrun]
      exact ih
    | abort hrun =>
      unfold EngineM.consult EngineM.attempt
      rw [runFrom_bind_ok (runFrom_lift_run _ _), hrun]
      rfl
    | observe _ ih => exact ih
    | note _ ih => exact ih
    | «recall» _ ih => exact ih
  · intro h
    induction c generalizing e with
    | answer keep =>
      cases h
      exact .answer keep _
    | panic payload =>
      cases h
      exact .panic payload _
    | compose name next ih =>
      rw [EngineM.consult, runFrom_bind] at h
      rcases hrun : runFrom (EngineM.composeWithin depth name) e with ⟨halt | outcome, e₁⟩
      · rw [hrun] at h
        cases h
        exact .halt hrun
      · rw [hrun] at h
        exact .compose hrun (ih outcome h)
    | attempt name next ih =>
      unfold EngineM.consult EngineM.attempt at h
      rw [runFrom_bind_ok (runFrom_lift_run _ _)] at h
      rcases hrun : runFrom (EngineM.composeWithin depth name) e with
        ⟨(payload | _) | outcome, e₁⟩
      · rw [hrun] at h
        exact .caught hrun (ih _ h)
      · rw [hrun] at h
        cases h
        exact .abort hrun
      · rw [hrun] at h
        exact .attempt hrun (ih _ h)
    | observe name next ih => exact .observe (ih _ h)
    | note n next ih => exact .note (ih h)
    | «recall» next ih => exact .recall (ih _ h)

/-! ## Between two questions -/

namespace Engine.Puts

theorem refl (e : Engine) : e.Puts [] e :=
  ⟨(List.append_nil _).symm, rfl, rfl, rfl, fun hs => .refl hs.kept⟩

theorem trans (h : e.Puts [] e₁) (h' : e₁.Puts qs e') : e.Puts qs e' where
  questions := by rw [h'.questions, h.questions, List.append_nil]
  notes := h'.notes.trans h.notes
  types := h'.types.trans h.types
  config := h'.config.trans h.config
  fills := fun hs => (h.fills hs).trans (h'.fills ((h.fills hs).sound hs))

/-- A type whose merge is under way has been put the question. -/
theorem underway (h : e.Puts qs e') {name : String} (he : e.Underway name) : e'.Underway name :=
  ⟨(h.fills he.sound).sound he.sound, (Engine.slotOf_congr h.types name).trans he.running⟩

theorem questionsOf (h : e.Puts qs e') {name : String} (hqs : ∀ q ∈ qs, q.typeName = name) :
    e'.questionsOf name = e.questionsOf name ++ qs := by
  have hfilter : qs.filter (fun q => q.typeName == name) = qs :=
    List.filter_eq_self.2 fun q hq => by simpa using hqs q hq
  unfold Engine.questionsOf
  rw [h.questions, List.filter_append, hfilter]

end Engine.Puts

namespace Interview

/-- What happens before the first question. -/
theorem after (h : e.Puts [] e₁) (hrest : Interview t depth qs exit e₁ e') :
    Interview t depth qs exit e e' := by
  cases hrest with
  | finished h' => exact .finished (h.trans h')
  | answered hveto hput hanswer hrest => exact .answered hveto (h.trans hput) hanswer hrest
  | halted hveto hput hhalts => exact .halted hveto (h.trans hput) hhalts

/-- An interview that goes on after all of its questions have been answered. -/
theorem append (h : Interview t depth qs (.ok ()) e e₁)
    (h' : Interview t depth qs' exit e₁ e') : Interview t depth (qs ++ qs') exit e e' := by
  generalize hexit : (Except.ok () : Except Halt Unit) = first at h
  induction h with
  | finished h => exact h'.after h
  | answered hveto hput hanswer _ ih => exact .answered hveto hput hanswer (ih h' hexit)
  | halted => cases hexit

/-- The questions of an interview are on record, after those that were on record before. -/
theorem questionsOf (h : Interview t depth qs exit e e') (he : e.Underway t.name)
    (hqs : ∀ q ∈ qs, q.typeName = t.name) :
    e'.questionsOf t.name = e.questionsOf t.name ++ qs := by
  -- while the hook is busy with a question, no other one is put to it
  have hbusy {c : Consultation} {answer : Except Halt Bool} {e e' : Engine}
      (he : e.Underway t.name) (h : c.Runs depth e answer e') :
      e'.Underway t.name ∧ e'.questionsOf t.name = e.questionsOf t.name := by
    obtain ⟨hunder, ⟨asked, heq, hprefix, -⟩, -⟩ := asks_consult depth c he
    rw [runs_iff.1 h] at hunder heq
    rw [List.prefix_nil.1 hprefix, List.append_nil] at heq
    exact ⟨hunder, heq⟩
  induction h with
  | finished h => exact h.questionsOf hqs
  | @answered hook q qs keep exit e e₁ e₂ e' _ hput hanswer _ ih =>
    obtain ⟨hq, hrest⟩ := List.forall_mem_cons.1 hqs
    obtain ⟨hunder, heq⟩ := hbusy (hput.underway he) hanswer
    rw [ih hunder hrest, heq, hput.questionsOf (List.forall_mem_singleton.2 hq), List.append_assoc]
    rfl
  | @halted hook q halt e e₁ e' _ hput hhalts =>
    obtain ⟨-, heq⟩ := hbusy (hput.underway he) hhalts
    rw [heq, hput.questionsOf hqs]

end Interview

/-! ## Merges as interviews -/

namespace Interviews

variable {α β : Type}

/-- A step that comes to a result without a question. -/
theorem of_puts {run : Except Halt α × Engine} {a : α} (hrun : run.1 = .ok a)
    (h : e.Puts [] run.2) : Interviews t depth [] e run := by
  refine ⟨[], List.nil_prefix, fun _ _ => rfl, ?_⟩
  rw [hrun]
  exact .finished h

theorem after {run : Except Halt α × Engine} (h : e.Puts [] e₁)
    (hrun : Interviews t depth qs e₁ run) : Interviews t depth qs e run := by
  obtain ⟨asked, hprefix, hall, hinterview⟩ := hrun
  exact ⟨asked, hprefix, hall, hinterview.after h⟩

/-- A step after which another one goes on with the interview, unless it has halted. -/
theorem bind {step : EngineM α} {next : α → EngineM β}
    (h : Interviews t depth qs e (runFrom step e))
    (h' : ∀ a e₁, Interviews t depth qs' e₁ (runFrom (next a) e₁)) :
    Interviews t depth (qs ++ qs') e (runFrom (step >>= next) e) := by
  obtain ⟨asked, hprefix, hall, hinterview⟩ := h
  rw [runFrom_bind]
  rcases hrun : runFrom step e with ⟨halt | a, e₁⟩
  · rw [hrun] at hinterview
    exact ⟨asked, hprefix.trans (List.prefix_append qs qs'), fun _ h => (by cases h), hinterview⟩
  · rw [hrun] at hall hinterview
    cases hall a rfl
    obtain ⟨asked', hprefix', hall', hinterview'⟩ := h' a e₁
    exact ⟨qs ++ asked', (List.prefix_append_right_inj qs).2 hprefix',
      fun b hb => by rw [hall' b hb], hinterview.append hinterview'⟩

/-- A step after which the engine is kept as it is for hooks. -/
theorem bind_puts {step : EngineM α} {next : α → EngineM β}
    (h : Interviews t depth qs e (runFrom step e))
    (h' : ∀ a e₁, ∃ b e₂, runFrom (next a) e₁ = (.ok b, e₂) ∧ e₁.Puts [] e₂) :
    Interviews t depth qs e (runFrom (step >>= next) e) := by
  have hbind : Interviews t depth (qs ++ []) e (runFrom (step >>= next) e) := h.bind fun a e₁ => by
    obtain ⟨b, e₂, hrun, hput⟩ := h' a e₁
    rw [hrun]
    exact of_puts rfl hput
  rwa [List.append_nil] at hbind

end Interviews

section Merges

variable (depth)

theorem interviews_askHook {hook : Hook} (hveto : t.veto = some hook) (s : Signature)
    (c : Candidate) (e : Engine) :
    Interviews t depth [⟨t.name, s.level, c.origin, s⟩] e
      (runFrom (EngineM.askHook (EngineM.composeWithin depth) t hook s c) e) := by
  have hput : e.Puts [⟨t.name, s.level, c.origin, s⟩]
      { e with questions := e.questions ++ [⟨t.name, s.level, c.origin, s⟩] } :=
    ⟨rfl, rfl, rfl, rfl, fun hs => .refl hs.kept⟩
  unfold EngineM.askHook
  rw [runFrom_bind_ok (runFrom_modify _ _), Hook.ask_level, runFrom_bind]
  rcases hrun : runFrom (EngineM.consult (EngineM.composeWithin depth) (hook.opening c.origin s))
    { e with questions := e.questions ++ [⟨t.name, s.level, c.origin, s⟩] } with ⟨halt | keep, e₁⟩
  · exact ⟨_, List.prefix_rfl, fun _ h => (by cases h), .halted hveto hput (runs_iff.2 hrun)⟩
  · refine ⟨_, List.prefix_rfl, fun _ _ => rfl, ?_⟩
    -- a rejection is logged, which hooks do not see
    have hlogged : e₁.Puts [] (e₁.logged (.candidateVetoed t.name c.origin s)) :=
      ⟨(List.append_nil _).symm, rfl, rfl, rfl, fun hs => .refl hs.kept⟩
    cases keep with
    | true => exact .answered hveto hput (runs_iff.2 hrun) (.finished (.refl e₁))
    | false => exact .answered hveto hput (runs_iff.2 hrun) (.finished hlogged)

theorem interviews_keepCandidates {hook : Hook} (hveto : t.veto = some hook) (s : Signature)
    (cs : List Candidate) (e : Engine) :
    Interviews t depth (cs.map fun c => ⟨t.name, s.level, c.origin, s⟩) e
      (runFrom (EngineM.keepCandidates (EngineM.composeWithin depth) t hook s cs) e) := by
  induction cs generalizing e with
  | nil => exact .of_puts rfl (.refl e)
  | cons c cs ih =>
    refine (interviews_askHook depth hveto s c e).bind fun keep e₁ => ?_
    exact (ih e₁).bind_puts fun kept e₂ => ⟨_, _, rfl, .refl e₂⟩

theorem interviews_settleSignature (tally : Tally) (offer : Signature × List Candidate)
    (e : Engine) :
    Interviews t depth (t.questionsAbout offer) e
      (runFrom (EngineM.settleSignature (EngineM.composeWithin depth) t tally offer) e) := by
  have hresolve : Interviews t depth (t.questionsAbout offer) e
      (runFrom (EngineM.resolve (EngineM.composeWithin depth) t offer.1 offer.2) e) := by
    unfold AdoptingType.questionsAbout EngineM.resolve
    cases hveto : t.veto with
    | none => exact .of_puts rfl (.refl e)
    | some hook =>
      exact (interviews_keepCandidates depth hveto offer.1 offer.2 e).bind_puts
        fun kept e₁ => ⟨_, _, rfl, .refl e₁⟩
  refine hresolve.bind_puts fun decision e₁ => ?_
  rcases decision with c | _ | cs
  · exact ⟨_, _, rfl, .refl e₁⟩
  · exact ⟨_, _, rfl, .refl e₁⟩
  · exact ⟨_, _, rfl, (List.append_nil _).symm, rfl, rfl, rfl, fun hs => .refl hs.kept⟩

theorem interviews_settleOffers (offers : List (Signature × List Candidate)) (tally : Tally)
    (e : Engine) :
    Interviews t depth (offers.flatMap t.questionsAbout) e
      (runFrom
        (offers.foldlM (EngineM.settleSignature (EngineM.composeWithin depth) t) tally) e) := by
  induction offers generalizing tally e with
  | nil => exact .of_puts rfl (.refl e)
  | cons offer offers ih =>
    rw [List.foldlM_cons, List.flatMap_cons]
    exact (interviews_settleSignature depth tally offer e).bind fun tally' e₁ => ih tally' e₁

/-- A merge is an interview along the questions that the definitions fix. -/
theorem interviews_mergeTable (t : AdoptingType) (hs : e.registry.Sound) :
    Interviews t depth (e.registry.questionsTo e.config t) e
      (runFrom (EngineM.mergeTable (EngineM.composeWithin depth) t).run e) := by
  obtain ⟨reg', hfill, -, hrun⟩ := runFrom_mergeTable (EngineM.composeWithin depth) t hs
  have hput : e.Puts [] { e with registry := reg' } :=
    ⟨(List.append_nil _).symm, rfl, rfl, rfl, fun _ => hfill⟩
  unfold Registry.questionsTo
  rw [hrun]
  cases e.registry.check e.config t with
  | error error => exact .of_puts rfl hput
  | ok _ =>
    refine .after hput ?_
    exact (interviews_settleOffers depth (e.registry.offersTo t).toList (Tally.ofOwn t) _).bind_puts
      fun tally e₁ =>
        ⟨_, _, rfl, (List.append_nil _).symm, rfl, rfl, rfl, fun hs => .refl hs.kept⟩

end Merges

/-- The questions of a merge are those of its type. -/
theorem Registry.typeName_of_mem_questionsTo {reg : Registry} {config : Config} {q : Question}
    (h : q ∈ reg.questionsTo config t) : q.typeName = t.name := by
  obtain ⟨-, o, s, i, rfl, -⟩ := mem_questionsTo.1 h
  rfl

theorem Engine.questionsOf_afterMerge (name : String) (run : Except Halt Outcome × Engine) :
    (afterMerge name run).2.questionsOf name = run.2.questionsOf name := by
  rcases run with ⟨(payload | _) | (error | table), e₁⟩ <;> rfl

/-- Composing a vacant type that has been asked nothing is one interview of its hook. -/
theorem merges_of_vacant {m : Moment} {name : String} {t : TypeEntry} (hm : m.Sound)
    (ht : m.engine.find? name = some t) (hv : t.slot = .vacant)
    (hunasked : m.engine.questionsOf name = []) :
    ∃ asked result e, m.Merges t.definition
      (m.engine.registry.questionsTo m.engine.config t.definition) asked result e := by
  obtain ⟨depth, hdepth, -, hrun⟩ := compose_vacant hm ht hv
  have hname := Engine.name_of_find? ht
  subst hname
  have hs := hm.engine.registry
  obtain ⟨asked, hprefix, hall, hinterview⟩ :=
    interviews_mergeTable depth t.definition (e := m.engine.enter t.definition) hs
  have hasked := hinterview.questionsOf (underway_enter hs ht) fun q hq =>
    Registry.typeName_of_mem_questionsTo (List.IsPrefix.subset hprefix hq)
  refine ⟨asked, _, _, hprefix, hall, ⟨depth, hdepth, hinterview⟩, hrun, ?_⟩
  rw [hrun, Engine.questionsOf_afterMerge, hasked,
    show (m.engine.enter t.definition).questionsOf t.definition.name = [] from hunasked]
  rfl

/-! ## Hooks that keep a record -/

namespace Instructions

variable {i : Instructions}

/-- A recording hook that composes nothing keeps one note, whatever else it does. -/
theorem runFrom_consult_opening (h : i.compose = none) (compose : String → EngineM Outcome)
    (role : RoleId) (s : Signature) (e : Engine) :
    ∃ n exit, n.entry = s.level ∧ n.role = role ∧ n.signature = s ∧
      runFrom (EngineM.consult compose (i.hook.opening role s)) e =
        (exit, { e with notes := e.notes ++ [n] }) := by
  let noted : Note := { entry := s.level, role, signature := s }
  have hopening : i.hook.opening role s = i.lookAround noted := by
    unfold Hook.opening hook consult
    rw [h]
    cases hlevel : s.level <;> simp only [noted, hlevel]
  have hfinish (n : Note) : ∃ exit, runFrom (EngineM.consult compose (i.finish n)) e =
      (exit, { e with notes := e.notes ++ [n] }) := by
    unfold finish
    cases i.panic with
    | none => exact ⟨_, rfl⟩
    | some payload => exact ⟨_, rfl⟩
  rw [hopening]
  unfold lookAround
  cases i.observe with
  | none =>
    obtain ⟨exit, hrun⟩ := hfinish noted
    exact ⟨noted, exit, rfl, rfl, rfl, hrun⟩
  | some name =>
    obtain ⟨exit, hrun⟩ := hfinish { noted with observed := (e.observe name).toOption }
    exact ⟨_, exit, rfl, rfl, rfl, hrun⟩

end Instructions

/-- A recording hook that composes nothing has noted each question of an interview, at the entry
point for the level of the signature, and nothing else has been noted meanwhile. -/
theorem notes_of_interview {i : Instructions} (hveto : t.veto = some i.hook)
    (hcompose : i.compose = none) (h : Interview t depth qs exit e e') :
    ∃ notes, e'.notes = e.notes ++ notes ∧
      notes.map (fun n => (n.entry, n.role, n.signature)) =
        qs.map fun q => (q.signature.level, q.role, q.signature) := by
  induction h with
  | finished h => exact ⟨[], by rw [h.notes, List.append_nil], rfl⟩
  | @answered hook q qs keep exit e e₁ e₂ e' hhook hput hanswer _ ih =>
    obtain rfl := Option.some.inj (hveto.symm.trans hhook)
    obtain ⟨n, exit, hentry, hrole, hsignature, hrun⟩ := Instructions.runFrom_consult_opening
      hcompose (EngineM.composeWithin depth) q.role q.signature e₁
    cases (runs_iff.1 hanswer).symm.trans hrun
    obtain ⟨notes, heq, hnotes⟩ := ih
    refine ⟨n :: notes, ?_, ?_⟩
    · rw [heq, hput.notes, List.append_assoc]
      rfl
    · rw [List.map_cons, List.map_cons, hnotes, hentry, hrole, hsignature]
  | @halted hook q halt e e₁ e' hhook hput hhalts =>
    obtain rfl := Option.some.inj (hveto.symm.trans hhook)
    obtain ⟨n, exit, hentry, hrole, hsignature, hrun⟩ := Instructions.runFrom_consult_opening
      hcompose (EngineM.composeWithin depth) q.role q.signature e₁
    cases (runs_iff.1 hhalts).symm.trans hrun
    exact ⟨[n], by rw [hput.notes], by simp [hentry, hrole, hsignature]⟩

end RoleComposition
