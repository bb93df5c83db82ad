import Mathlib.Logic.Relation
import RoleComposition.Proofs.Log.RunSteps
import RoleComposition.Proofs.Sends

/-!
# Stacks of calls

A call of a method is carried out step by step: the body on top of a stack runs, and a call that it
sends is looked up in the table of the method that sends it and put on top. `MethodTable.invoke` is
what these steps come to. Whatever the bodies do, each method on the stack has been found in the
table that the first call went to, and is called with its type name and receiver; and where bodies
pass on the errors of the calls that they send, the error of a call is the first one that arises,
with a layer for each method on the stack. Main statement: `dispatch_of_composed`.
-/

namespace RoleComposition

/-- A method that is being called: the table in which it was found, and what it is called with. -/
structure Activation where
  table : MethodTable
  call : Call
  method : MethodEntry

/-- A method that has sent a call, and how it goes on with the answer. -/
structure Suspended extends Activation where
  next : Except CallError Json → Act

/-- Where a call stands: a body is running on top of those that wait, the innermost first, or the
call has ended. -/
inductive CallState where
  | running (now : Activation) (act : Act) (waiting : List Suspended)
  | ended (outcome : CallOutcome)

namespace CallState

/-- An answer goes to the method that waits for it, or to the caller. -/
def answer : List Suspended → Except CallError Json → CallState
  | [], .ok value => .ended (.returned value)
  | [], .error error => .ended (.failed error)
  | w :: waiting, reply => .running w.toActivation (w.next reply) waiting

/-- A call is looked up in a table. -/
def enter (table : MethodTable) (receiver : Json) (s : Signature) (args : List Json)
    (waiting : List Suspended) : CallState :=
  match table.get? s with
  | none => answer waiting (.error (.methodNotFound table.typeName s))
  | some e =>
    .running ⟨table, ⟨table.typeName, s, receiver⟩, e⟩
      (e.implementation.body ⟨table.typeName, s, receiver⟩ args) waiting

/-- What comes next, unless the call has ended. -/
def step? : CallState → Option CallState
  | .running _ (.done value) waiting => some (answer waiting (.ok value))
  | .running now (.fail error) waiting =>
    some (answer waiting (.error (.methodFailed now.table.typeName now.call.signature error)))
  | .running _ (.panic payload) _ => some (.ended (.panicked payload))
  | .running now (.send s args next) waiting =>
    some (enter now.table now.call.receiver s args (⟨now, next⟩ :: waiting))
  | .ended _ => none

/-- A state is come to, in any number of steps. -/
def Reaches : CallState → CallState → Prop := Relation.ReflTransGen fun x y => x.step? = some y

/-- The state that a call comes to with an outcome. -/
def finish (waiting : List Suspended) : CallOutcome → CallState
  | .returned value => answer waiting (.ok value)
  | .failed error => answer waiting (.error error)
  | outcome => .ended outcome

/-- How many methods are being called within each other. -/
def height : CallState → Nat
  | .running _ _ waiting => waiting.length + 1
  | .ended _ => 0

/-- The signatures of the methods that are being called, the outermost first. -/
def signatures : CallState → List Signature
  | .running now _ waiting =>
    waiting.reverse.map (fun w => w.call.signature) ++ [now.call.signature]
  | .ended _ => []

/-- An error arises: a body fails of its own accord, or sends a call that no method answers. -/
inductive Raises : CallState → CallError → Prop
  | own {now : Activation} {error : CallError} {waiting : List Suspended} :
      Raises (.running now (.fail error) waiting) error
  | missing {now : Activation} {s : Signature} {args : List Json}
      {next : Except CallError Json → Act} {waiting : List Suspended} :
      now.table.get? s = none →
      Raises (.running now (.send s args next) waiting) (.methodNotFound now.table.typeName s)

/-- A state is come to, and no error has arisen on the way. -/
def ReachesSmoothly : CallState → CallState → Prop :=
  Relation.ReflTransGen fun x y => x.step? = some y ∧ ∀ error, ¬ x.Raises error

end CallState

/-- A method has been found in a table under the signature that it is called by, and is called with
the table's type name and a given receiver. -/
structure Activation.Of (table : MethodTable) (receiver : Json) (a : Activation) : Prop where
  table_eq : a.table = table
  call_eq : a.call = ⟨table.typeName, a.call.signature, receiver⟩
  found : table.get? a.call.signature = some a.method

/-- The layer that a method puts around the error with which its body fails. -/
def Activation.wrap (a : Activation) : CallOutcome → CallOutcome
  | .failed error => .failed (.methodFailed a.table.typeName a.call.signature error)
  | outcome => outcome

/-- All methods on the stack have been found in one table, and are called with one receiver. -/
def CallState.Of (table : MethodTable) (receiver : Json) : CallState → Prop
  | .running now _ waiting =>
    now.Of table receiver ∧ ∀ w ∈ waiting, w.toActivation.Of table receiver
  | .ended _ => True

/-- The errors of the calls that are sent are passed on unchanged. -/
def Act.PassesOn : Act → Prop
  | .done _ | .fail _ | .panic _ => True
  | .send _ _ next => (∀ error, next (.error error) = .fail error) ∧
      ∀ value, (next (.ok value)).PassesOn

/-- A method passes on the error of the call for which it waits, and those of later ones. -/
structure Suspended.PassesOn (w : Suspended) : Prop where
  error : ∀ error, w.next (.error error) = .fail error
  value : ∀ value, (w.next (.ok value)).PassesOn

/-- The body that runs passes errors on, and so do all that wait. -/
def CallState.PassesOn : CallState → Prop
  | .running _ act waiting => act.PassesOn ∧ ∀ w ∈ waiting, w.PassesOn
  | .ended _ => True

/-- All bodies of a table pass errors on. -/
def MethodTable.PassesOn (t : MethodTable) : Prop :=
  ∀ s e, t.get? s = some e → ∀ call args, (e.implementation.body call args).PassesOn

/-- An error within a layer for each of some methods of a type, the outermost first. -/
def CallError.layered (typeName : String) (signatures : List Signature) (error : CallError) :
    CallError :=
  signatures.foldr (CallError.methodFailed typeName) error

namespace CallState

variable {table : MethodTable} {receiver : Json} {x y : CallState} {waiting : List Suspended}
  {s : Signature} {args : List Json}

/-! ## Steps and outcomes -/

theorem step?_unique : Relator.RightUnique fun x y : CallState => x.step? = some y :=
  fun _ _ _ hy hz => Option.some.inj (hy.symm.trans hz)

/-- A call that has ended does not go on. -/
theorem reaches_ended {outcome : CallOutcome} (h : (ended outcome).Reaches y) :
    y = ended outcome := by
  rcases Relation.ReflTransGen.cases_head h with heq | ⟨_, hstep, -⟩
  · exact heq.symm
  · cases hstep

/-- There is one way to go on, so a call has one end. -/
theorem Reaches.ended_inj {outcome outcome' : CallOutcome} (h : x.Reaches (.ended outcome))
    (h' : x.Reaches (.ended outcome')) : outcome = outcome' := by
  rcases Relation.ReflTransGen.total_of_right_unique step?_unique h h' with h | h
  · exact (ended.inj (reaches_ended h)).symm
  · exact ended.inj (reaches_ended h)

theorem finish_nil (outcome : CallOutcome) : finish [] outcome = ended outcome := by
  cases outcome <;> rfl

/-- A body whose calls the table answers, if the steps come to these answers. -/
theorem reaches_finish_run {depth : Nat} {now : Activation} {act : Act}
    (ih : ∀ s args waiting, now.table.invoke now.call.receiver depth s args ≠ .tooDeep →
      (enter now.table now.call.receiver s args waiting).Reaches
        (finish waiting (now.table.invoke now.call.receiver depth s args)))
    (h : act.run (now.table.invoke now.call.receiver depth) ≠ .tooDeep) :
    (running now act waiting).Reaches
      (finish waiting (now.wrap (act.run (now.table.invoke now.call.receiver depth)))) := by
  induction act with
  | done value => exact .single rfl
  | fail error => exact .single rfl
  | panic payload => exact .single rfl
  | send s args next ihnext =>
    have hsent := ih s args (⟨now, next⟩ :: waiting)
    rw [Act.run] at h ⊢
    cases hanswer : now.table.invoke now.call.receiver depth s args with
    | returned value =>
      rw [hanswer] at h hsent
      exact .head rfl ((hsent (by simp)).trans (ihnext _ h))
    | failed error =>
      rw [hanswer] at h hsent
      exact .head rfl ((hsent (by simp)).trans (ihnext _ h))
    | panicked payload =>
      rw [hanswer] at hsent
      exact .head rfl (hsent (by simp))
    | tooDeep => exact absurd (by rw [hanswer]) h

/-- A method of the table is run on calls that stand one less deep. -/
theorem invoke_of_get? {e : MethodEntry} (h : table.get? s = some e) (receiver : Json) (depth : Nat)
    (args : List Json) :
    table.invoke receiver (depth + 1) s args =
      (Activation.mk table ⟨table.typeName, s, receiver⟩ e).wrap
        ((e.implementation.body ⟨table.typeName, s, receiver⟩ args).run
          (table.invoke receiver depth)) := by
  rw [MethodTable.invoke, h]
  rfl

theorem wrap_eq_tooDeep {now : Activation} {outcome : CallOutcome} :
    now.wrap outcome = .tooDeep ↔ outcome = .tooDeep := by
  cases outcome <;> simp [Activation.wrap]

/-- A call that does not go too deep comes to its outcome. -/
theorem reaches_finish (table : MethodTable) (receiver : Json) (depth : Nat) (s : Signature)
    (args : List Json) (waiting : List Suspended)
    (h : table.invoke receiver depth s args ≠ .tooDeep) :
    (enter table receiver s args waiting).Reaches
      (finish waiting (table.invoke receiver depth s args)) := by
  -- on the depth; what one body does is the induction in `reaches_finish_run`
  induction depth generalizing s args waiting with
  | zero => exact absurd rfl h
  | succ depth ih =>
    cases he : table.get? s with
    | none =>
      rw [enter, MethodTable.invoke, he]
      exact .refl
    | some e =>
      rw [invoke_of_get? he] at h ⊢
      rw [enter, he]
      exact reaches_finish_run ih (mt wrap_eq_tooDeep.2 h)

theorem length_le_height_answer (waiting : List Suspended) (reply : Except CallError Json) :
    waiting.length ≤ (answer waiting reply).height := by
  cases waiting with
  | nil => exact Nat.zero_le _
  | cons w waiting => exact Nat.le_refl _

/-- A body goes too deep, if a call does that it sends. -/
theorem exists_height_run {depth : Nat} {now : Activation} {act : Act}
    (ih : ∀ s args waiting, now.table.invoke now.call.receiver depth s args = .tooDeep →
      ∃ y, (enter now.table now.call.receiver s args waiting).Reaches y ∧
        waiting.length + depth ≤ y.height)
    (h : act.run (now.table.invoke now.call.receiver depth) = .tooDeep) :
    ∃ y, (running now act waiting).Reaches y ∧ waiting.length + (depth + 1) ≤ y.height := by
  induction act with
  | done value => cases h
  | fail error => cases h
  | panic payload => cases h
  | send s args next ihnext =>
    have hsent := reaches_finish now.table now.call.receiver depth s args (⟨now, next⟩ :: waiting)
    rw [Act.run] at h
    cases hanswer : now.table.invoke now.call.receiver depth s args with
    | returned value =>
      rw [hanswer] at h hsent
      obtain ⟨y, hy, hheight⟩ := ihnext _ h
      exact ⟨y, .head rfl ((hsent (by simp)).trans hy), hheight⟩
    | failed error =>
      rw [hanswer] at h hsent
      obtain ⟨y, hy, hheight⟩ := ihnext _ h
      exact ⟨y, .head rfl ((hsent (by simp)).trans hy), hheight⟩
    | panicked payload =>
      rw [hanswer] at h
      cases h
    | tooDeep =>
      obtain ⟨y, hy, hheight⟩ := ih s args (⟨now, next⟩ :: waiting) hanswer
      rw [List.length_cons] at hheight
      exact ⟨y, .head rfl hy, by omega⟩

/-- A call that goes too deep comes to a stack that is as high as it may not be. -/
theorem exists_height (depth : Nat) (s : Signature) (args : List Json) (waiting : List Suspended)
    (h : table.invoke receiver depth s args = .tooDeep) :
    ∃ y, (enter table receiver s args waiting).Reaches y ∧ waiting.length + depth ≤ y.height := by
  induction depth generalizing s args waiting with
  | zero =>
    refine ⟨_, .refl, ?_⟩
    unfold enter
    split
    · exact length_le_height_answer _ _
    · exact Nat.le_succ _
  | succ depth ih =>
    cases he : table.get? s with
    | none =>
      rw [MethodTable.invoke, he] at h
      cases h
    | some e =>
      rw [invoke_of_get? he] at h
      rw [enter, he]
      exact exists_height_run ih (wrap_eq_tooDeep.1 h)

/-- Until it ends, a call comes only to so many states. -/
theorem Reaches.exists_bound {outcome : CallOutcome} (h : x.Reaches (.ended outcome)) :
    ∃ bound, ∀ y, x.Reaches y → y.height ≤ bound := by
  induction h using Relation.ReflTransGen.head_induction_on with
  | refl =>
    refine ⟨0, fun y hy => ?_⟩
    rw [reaches_ended hy]
    exact Nat.le_refl _
  | @head x x' hstep _ ih =>
    obtain ⟨bound, hbound⟩ := ih
    refine ⟨max x.height bound, fun y hy => ?_⟩
    rcases Relation.ReflTransGen.cases_head hy with rfl | ⟨x'', hstep', hy⟩
    · exact Nat.le_max_left _ _
    · rw [step?_unique hstep' hstep] at hy
      exact (hbound y hy).trans (Nat.le_max_right _ _)

/-- A call ends in the steps with what it comes to when it may go deep enough. -/
theorem reaches_ended_iff {outcome : CallOutcome} :
    (enter table receiver s args []).Reaches (.ended outcome) ↔
      outcome ≠ .tooDeep ∧ ∃ depth, table.invoke receiver depth s args = outcome := by
  constructor
  · intro h
    obtain ⟨bound, hbound⟩ := h.exists_bound
    -- one more than the stack ever holds is deep enough
    have hdeep : table.invoke receiver (bound + 1) s args ≠ .tooDeep := by
      intro hdeep
      obtain ⟨y, hy, hheight⟩ := exists_height _ _ _ _ hdeep
      have hle := hbound y hy
      rw [List.length_nil] at hheight
      omega
    have hend := reaches_finish table receiver (bound + 1) s args [] hdeep
    rw [finish_nil] at hend
    have heq := hend.ended_inj h
    exact ⟨heq ▸ hdeep, bound + 1, heq⟩
  · rintro ⟨hdeep, depth, rfl⟩
    have hend := reaches_finish table receiver depth s args [] hdeep
    rwa [finish_nil] at hend

/-! ## What is on the stack -/

theorem Of.answer (h : ∀ w ∈ waiting, w.toActivation.Of table receiver)
    (reply : Except CallError Json) : (answer waiting reply).Of table receiver := by
  match waiting, reply with
  | [], .ok _ => trivial
  | [], .error _ => trivial
  | w :: waiting, reply => exact List.forall_mem_cons.1 h

/-- A call that is looked up in the table puts a method of the table on the stack. -/
theorem Of.enter (h : ∀ w ∈ waiting, w.toActivation.Of table receiver) (s : Signature)
    (args : List Json) : (enter table receiver s args waiting).Of table receiver := by
  unfold CallState.enter
  cases he : table.get? s with
  | none => exact .answer h _
  | some e => exact ⟨⟨rfl, rfl, he⟩, h⟩

/-- What sends a call is a method of the table, and the call is looked up there as well. -/
theorem Of.step (h : x.Of table receiver) (hstep : x.step? = some y) : y.Of table receiver := by
  match x with
  | .ended _ => cases hstep
  | .running now act waiting =>
    obtain ⟨hnow, hwaiting⟩ := h
    cases act with
    | done value =>
      cases hstep
      exact .answer hwaiting _
    | fail error =>
      cases hstep
      exact .answer hwaiting _
    | panic payload =>
      cases hstep
      trivial
    | send s args next =>
      cases hstep
      rw [hnow.table_eq, hnow.call_eq]
      exact .enter (List.forall_mem_cons.2 ⟨hnow, hwaiting⟩) s args

theorem Of.reaches (h : x.Of table receiver) (hy : x.Reaches y) : y.Of table receiver := by
  induction hy with
  | refl => exact h
  | tail _ hstep ih => exact ih.step hstep

/-! ## Errors that are passed on -/

theorem PassesOn.answer (h : ∀ w ∈ waiting, w.PassesOn) (reply : Except CallError Json) :
    (answer waiting reply).PassesOn := by
  match waiting, reply with
  | [], .ok _ => trivial
  | [], .error _ => trivial
  | w :: waiting, reply =>
    obtain ⟨hw, hwaiting⟩ := List.forall_mem_cons.1 h
    refine ⟨?_, hwaiting⟩
    cases reply with
    | ok value => exact hw.value value
    | error error =>
      rw [hw.error]
      trivial

theorem PassesOn.enter (htable : table.PassesOn) (h : ∀ w ∈ waiting, w.PassesOn)
    (receiver : Json) (s : Signature) (args : List Json) :
    (enter table receiver s args waiting).PassesOn := by
  unfold CallState.enter
  cases he : table.get? s with
  | none => exact .answer h _
  | some e => exact ⟨htable s e he _ _, h⟩

theorem PassesOn.step (htable : table.PassesOn) (h : x.PassesOn) (hof : x.Of table receiver)
    (hstep : x.step? = some y) : y.PassesOn := by
  match x with
  | .ended _ => cases hstep
  | .running now act waiting =>
    obtain ⟨hact, hwaiting⟩ := h
    cases act with
    | done value =>
      cases hstep
      exact .answer hwaiting _
    | fail error =>
      cases hstep
      exact .answer hwaiting _
    | panic payload =>
      cases hstep
      trivial
    | send s args next =>
      cases hstep
      rw [hof.1.table_eq]
      exact .enter htable (List.forall_mem_cons.2 ⟨⟨hact.1, hact.2⟩, hwaiting⟩) _ s args

/-- The error that a method passes on gets a layer for it, and one for each that waits below. -/
theorem reaches_layered (waiting : List Suspended)
    (hof : ∀ w ∈ waiting, w.toActivation.Of table receiver)
    (hpass : ∀ w ∈ waiting, w.PassesOn) (error : CallError) :
    (answer waiting (.error error)).Reaches (.ended (.failed
      (.layered table.typeName (waiting.reverse.map fun w => w.call.signature) error))) := by
  induction waiting generalizing error with
  | nil => exact .refl
  | cons w waiting ih =>
    obtain ⟨hw, hof⟩ := List.forall_mem_cons.1 hof
    obtain ⟨hpassw, hpass⟩ := List.forall_mem_cons.1 hpass
    have hrest := ih hof hpass (.methodFailed table.typeName w.call.signature error)
    rw [List.reverse_cons, List.map_append, CallError.layered, List.foldr_append]
    refine .head ?_ hrest
    rw [CallState.answer, hpassw.error, ← hw.table_eq]
    rfl

theorem passesOn_ofReply (now : Activation) : Suspended.PassesOn ⟨now, Act.ofReply⟩ :=
  ⟨fun _ => rfl, fun _ => trivial⟩

/-- An error that arises becomes that of the call, with a layer for each method on the stack. -/
theorem Raises.reaches_layered {base : CallError} (h : x.Raises base) (hof : x.Of table receiver)
    (hpass : x.PassesOn) :
    x.Reaches (.ended (.failed (.layered table.typeName x.signatures base))) := by
  cases h with
  | @own now _ waiting =>
    obtain ⟨-, hwaiting⟩ := hpass
    have hends := CallState.reaches_layered (⟨now, Act.ofReply⟩ :: waiting)
      (List.forall_mem_cons.2 hof) (List.forall_mem_cons.2 ⟨passesOn_ofReply now, hwaiting⟩) base
    rwa [List.reverse_cons, List.map_append] at hends
  | @missing now s args next waiting hnone =>
    obtain ⟨hact, hwaiting⟩ := hpass
    have hends := CallState.reaches_layered (⟨now, next⟩ :: waiting)
      (List.forall_mem_cons.2 hof) (List.forall_mem_cons.2 ⟨⟨hact.1, hact.2⟩, hwaiting⟩)
      (.methodNotFound now.table.typeName s)
    rw [List.reverse_cons, List.map_append] at hends
    refine .head ?_ hends
    rw [step?, enter, hnone]

/-- Nothing but an error that arises makes a call end with one at once. -/
theorem exists_raises_of_step {error : CallError} (h : x.step? = some (.ended (.failed error))) :
    ∃ base, x.Raises base := by
  match x with
  | .ended _ => cases h
  | .running now act waiting =>
    cases act with
    | done value => cases waiting <;> cases h
    | fail error => exact ⟨_, .own⟩
    | panic payload => cases h
    | send s args next =>
      refine ⟨_, .missing (Option.eq_none_iff_forall_ne_some.2 fun e he => ?_)⟩
      rw [step?, enter, he] at h
      cases h

/-- Where errors are passed on, the error of a call is the first one that arises. -/
theorem Reaches.exists_raises (htable : table.PassesOn) {error : CallError}
    (h : x.Reaches (.ended (.failed error))) (hof : x.Of table receiver) (hpass : x.PassesOn) :
    x = .ended (.failed error) ∨ ∃ y base, x.ReachesSmoothly y ∧ y.Raises base ∧
      error = .layered table.typeName y.signatures base := by
  induction h using Relation.ReflTransGen.head_induction_on with
  | refl => exact .inl rfl
  | @head x x' hstep hrest ih =>
    refine .inr ?_
    -- the first state at which an error arises is this one, or the first from the next one on
    by_cases hraises : ∃ base, x.Raises base
    · obtain ⟨base, hraises⟩ := hraises
      have hends := (Reaches.ended_inj (.head hstep hrest) (hraises.reaches_layered hof hpass))
      exact ⟨x, base, .refl, hraises, CallOutcome.failed.inj hends⟩
    · rcases ih (hof.step hstep) (hpass.step htable hof hstep) with rfl | ⟨y, base, hy, hbase, heq⟩
      · exact absurd (exists_raises_of_step hstep) hraises
      · exact ⟨y, base, .head ⟨hstep, fun e he => hraises ⟨e, he⟩⟩ hy, hbase, heq⟩

/-- Where errors are passed on, a call fails for want of a method, or with the first error that
arises within the layers of the methods that are being called then. -/
theorem layered_of_failed (htable : table.PassesOn) {depth : Nat} {error : CallError}
    (h : table.invoke receiver depth s args = .failed error) :
    table.get? s = none ∧ error = .methodNotFound table.typeName s ∨
      ∃ y base, (enter table receiver s args []).ReachesSmoothly y ∧ y.Raises base ∧
        error = .layered table.typeName y.signatures base := by
  have hends := reaches_finish table receiver depth s args [] (by simp [h])
  rw [h, finish_nil] at hends
  have hof : (enter table receiver s args []).Of table receiver := .enter (by simp) s args
  have hpass : (enter table receiver s args []).PassesOn := .enter htable (by simp) receiver s args
  refine (hends.exists_raises htable hof hpass).imp_left fun hended => ?_
  rw [enter] at hended
  cases he : table.get? s with
  | none =>
    rw [he] at hended
    exact ⟨rfl, (CallOutcome.failed.inj (ended.inj hended)).symm⟩
  | some e =>
    rw [he] at hended
    cases hended

end CallState

/-- The bodies of a table pass errors on, if those of the type and of the roles do. -/
theorem Registry.Fits.passesOn {reg : Registry} {t : AdoptingType}
    {keep : RoleId → Signature → Bool} {table : MethodTable} (h : reg.Fits t keep table)
    (hown : ∀ s i, t.ownMethods.find? s = some i → ∀ call args, (i.body call args).PassesOn)
    (hroles : ∀ o s i, reg.Provides o s i → ∀ call args, (i.body call args).PassesOn) :
    table.PassesOn := by
  intro s e he
  cases hs : t.owns s with
  | true =>
    obtain ⟨i, hi⟩ := SignatureMap.contains_iff.1 hs
    rw [h.own s i hi] at he
    cases he
    exact hown s i hi
  | false =>
    obtain ⟨o, -, i, -, -, -, hi, rfl⟩ := (h.role s hs e).1 he
    exact hroles o s i hi

section Runs

variable {b : RegistryBuilder} {reg : Registry} {config : Config} {rs : List Request} {m : Moment}
  {name : String} {t : TypeEntry} {table : MethodTable}

/-- What the steps of a call to a composed type come to is what the call returns, if it ends. On the
way each method has been found in the type's own table under the signature that it is called by,
whoever provides it, and is called with the type's name and the receiver of the first call. If the
bodies pass on the errors of the calls that they send, a failing call ends with the first error that
arises, be it a body's own or that a signature has no entry, within one layer for each method that
is being called then. -/
theorem dispatch_of_composed (hreg : Registry.Used b reg)
    (hm : m ∈ history (Engine.new reg config) rs) (ht : m.engine.find? name = some t)
    (hslot : t.slot = .settled (.ok table)) (s : Signature) (receiver : Json) (args : List Json) :
    let start := CallState.enter table receiver s args []
    table.typeName = name ∧
    (∀ outcome, start.Reaches (.ended outcome) ↔
      outcome ≠ .tooDeep ∧ ∃ depth, m.engine.dispatch depth name s receiver args = outcome) ∧
    (∀ now act waiting, start.Reaches (.running now act waiting) →
      ∀ a ∈ now :: waiting.map (·.toActivation), a.table = table ∧
        a.call = ⟨name, a.call.signature, receiver⟩ ∧
        table.get? a.call.signature = some a.method) ∧
    (∀ now s' args' next waiting, start.Reaches (.running now (.send s' args' next) waiting) →
      (CallState.running now (.send s' args' next) waiting).step? = some
        (match table.get? s' with
        | none => .running now (next (.error (.methodNotFound name s'))) waiting
        | some e => .running ⟨table, ⟨name, s', receiver⟩, e⟩
            (e.implementation.body ⟨name, s', receiver⟩ args') (⟨now, next⟩ :: waiting))) ∧
    (table.PassesOn → ∀ depth error,
      m.engine.dispatch depth name s receiver args = .failed error →
      table.get? s = none ∧ error = .methodNotFound name s ∨
        ∃ y base, start.ReachesSmoothly y ∧ y.Raises base ∧
          error = .layered name y.signatures base) := by
  intro start
  obtain ⟨keep, hfits⟩ := exists_fits_of_settled (hreg.over config) hm ht hslot
  have hname : table.typeName = name := hfits.typeName.trans (Engine.name_of_find? ht)
  have hdispatch : ∀ depth, m.engine.dispatch depth name s receiver args =
      table.invoke receiver depth s args := by
    intro depth
    rw [Engine.dispatch, ht, Option.bind_some, hslot]
    rfl
  have hof : start.Of table receiver := .enter (by simp) s args
  simp only [hdispatch]
  refine ⟨hname, fun outcome => CallState.reaches_ended_iff, ?_, ?_, ?_⟩
  · intro now act waiting hreaches a ha
    obtain ⟨hnow, hwaiting⟩ := hof.reaches hreaches
    have hall := List.forall_mem_cons.2 ⟨hnow, List.forall_mem_map.2 hwaiting⟩
    exact ⟨(hall a ha).table_eq, hname ▸ (hall a ha).call_eq, (hall a ha).found⟩
  · intro now s' args' next waiting hreaches
    have hnow := (hof.reaches hreaches).1
    rw [CallState.step?, hnow.table_eq, hnow.call_eq, CallState.enter, hname]
    rfl
  · intro hpass depth error herror
    rw [← hname]
    exact CallState.layered_of_failed hpass herror

end Runs

namespace Sample

/-- A type that answers its roles with an error. -/
def mute : AdoptingType :=
  ((AdoptingType.named "mute").adopts calling.id).implements name
    ⟨"mute.name", .given 3, Body.failing "no voice"⟩

/-- The bodies of the roles send one call and answer with what it comes to. -/
theorem passesOn_callers {o : RoleId} {s : Signature} {i : Implementation}
    (h : callers.freeze.Provides o s i) (call : Call) (args : List Json) :
    (i.body call args).PassesOn := by
  obtain ⟨d, hd, hi⟩ := h
  have hmem : d ∈ [relaying, calling] := Registry.mem_definitions_of_lookup hd
  rcases List.mem_pair.1 hmem with rfl | rfl
  · cases SignatureMap.eq_of_find?_insert_empty hi
    exact ⟨fun _ => rfl, fun _ => trivial⟩
  · cases SignatureMap.eq_of_find?_insert_empty hi
    exact ⟨fun _ => rfl, fun _ => trivial⟩

end Sample

/-- A call within a call within a call, the innermost of which fails. -/
theorem dispatch_of_mute :
    ∃ m ∈ history (Engine.new Sample.callers.freeze {})
        [.declare Sample.mute, .compose "mute"],
      ∃ t table, m.engine.find? "mute" = some t ∧ t.slot = .settled (.ok table) ∧
        table.PassesOn ∧
        m.engine.dispatch 3 "mute" Sample.call .null [] = .failed
          (.layered "mute" [Sample.call, Sample.relay, Sample.name] (.raised "no voice")) ∧
        ∃ y base, (CallState.enter table .null Sample.call [] []).ReachesSmoothly y ∧
          y.Raises base ∧
          .layered "mute" [Sample.call, Sample.relay, Sample.name] (.raised "no voice") =
            CallError.layered "mute" y.signatures base := by
  have hs := (course_step (.declare Sample.mute) (Engine.sound_new Sample.callers {})).sound
  have hcourse := course_step (.compose "mute") hs
  obtain ⟨t, ht, hdef, -⟩ := hcourse.progress.types "mute" { definition := Sample.mute } rfl
  replace hdef : t.definition = Sample.mute := hdef
  let e := (runFrom (Request.compose "mute").step
    (runFrom (Request.declare Sample.mute).step (Engine.new Sample.callers.freeze {})).2).2
  have hm : Moment.between e ∈ history (Engine.new Sample.callers.freeze {})
      [.declare Sample.mute, .compose "mute"] :=
    mem_history_cons (r := .declare Sample.mute) (by decide +kernel)
      (mem_history_cons (r := .compose "mute") (by decide +kernel) List.mem_cons_self)
  have hfailed : (match e.dispatch 3 "mute" Sample.call .null [] with
      | .failed error => some error
      | _ => none) =
        some (.layered "mute" [Sample.call, Sample.relay, Sample.name] (.raised "no voice")) := by
    decide +kernel
  have hdispatch : e.dispatch 3 "mute" Sample.call .null [] = .failed
      (.layered "mute" [Sample.call, Sample.relay, Sample.name] (.raised "no voice")) := by
    split at hfailed
    · next error herror => rw [herror, Option.some.inj hfailed]
    · cases hfailed
  have houtcome := hdispatch
  rw [Engine.dispatch, show e.find? "mute" = some t from ht, Option.bind_some] at houtcome
  rcases hslot : t.slot with _ | _ | cause | table
  · rw [hslot] at houtcome
    cases houtcome
  · rw [hslot] at houtcome
    cases houtcome
  · rw [hslot] at houtcome
    cases houtcome
  · obtain ⟨keep, hfits⟩ := exists_fits_of_settled (Registry.Used.frozen.over {}) hm ht hslot
    have hpass : table.PassesOn := by
      refine hfits.passesOn (fun s i hi call args => ?_) fun o s i => Sample.passesOn_callers
      rw [hdef] at hi
      cases SignatureMap.eq_of_find?_insert_empty hi
      trivial
    have hchain := (dispatch_of_composed .frozen hm ht hslot Sample.call .null []).2.2.2.2 hpass 3 _
      hdispatch
    refine ⟨_, hm, t, table, ht, hslot, hpass, hdispatch, hchain.resolve_left ?_⟩
    rintro ⟨-, herror⟩
    cases herror

end RoleComposition
