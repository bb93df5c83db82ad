import RoleComposition.Proofs.Failures
import RoleComposition.Proofs.Gathering
import RoleComposition.Proofs.Waiting

/-!
# Threads that gather closures

Threads gather closures from the same slots. Who asks for a closure has walked down from its role
before, so nothing below it lies on a cycle, and gathering it only goes down. No circle of threads
can come of that, and no thread meets itself; and each closure is the one that a single caller would
gather.

Main statements: `gatherers_never_stall`, `closure_of_returned`.
-/

namespace RoleComposition

/-- Where a thread stands that gathers a closure: with the methods so far and the roles that are
left to be asked for, or at its end. Outside of that it is idle. -/
inductive Gathering where
  | idle
  | gathering (role : RoleId) (methods : SignatureMap (List ClosureEntry)) (rest : List RoleId)
  | ended (exit : Ending RoleClosure)

namespace Gathering

/-- The closure of a dependency is absorbed; an error or a panic ends the gathering. -/
def resume : Gathering → Ending RoleClosure → Gathering
  | gathering role methods (_ :: rest), .ok (.ok closure) =>
    gathering role (RoleClosure.absorb methods closure) rest
  | gathering _ _ (_ :: _), exit => ended exit
  | state, _ => state

end Gathering

/-- Only a closure comes to a closure as outcome. -/
theorem Ending.eq_of_outcome {α : Type} {exit : Ending α} {panicked : String → CompositionError}
    {a : α} (h : exit.outcome panicked = .ok a) : exit = .ok (.ok a) := by
  cases exit with
  | ok outcome => exact congrArg Except.ok h
  | error payload => cases h

namespace Registry

/-- The closures that are asked for from outside: that of a role that resolves, and, once the roles
that a type declares have been resolved, those of all that they reach and then their own. -/
inductive Requested (reg : Registry) : RoleId → Prop
  | closure {id : RoleId} {order : List RoleDefinition} :
      reg.resolutionOrder [id] = .ok order → Requested reg id
  | ordered {declaredRoles : List RoleId} {order : List RoleDefinition} {role : RoleDefinition} :
      reg.resolutionOrder declaredRoles = .ok order → role ∈ order → Requested reg role.id
  | declared {declaredRoles : List RoleId} {order : List RoleDefinition} {via : RoleId} :
      reg.resolutionOrder declaredRoles = .ok order → via ∈ declaredRoles → Requested reg via

/-- What is asked for next. A role that is not registered has no slot. -/
def Asks (reg : Registry) : Gathering → RoleId → Prop
  | .idle, id => reg.Requested id
  | .gathering _ _ (dependency :: _), id => id = dependency ∧ reg.contains id = true
  | _, _ => False

/-- How the gathering ends, if it does not ask any more. -/
def Ends (reg : Registry) : Gathering → Ending RoleClosure → Prop
  | .gathering role methods [], exit => exit = .ok (.ok ⟨role, methods⟩)
  | .gathering _ _ (dependency :: _), exit =>
    reg.contains dependency = false ∧ exit = .ok (.error (.unknownRole dependency))
  | .ended exit, exit' => exit' = exit
  | .idle, _ => False

/-- How the gathering of a closure begins. -/
def beginning (reg : Registry) (id : RoleId) : Gathering :=
  match reg.lookup id with
  | .ok d => .gathering id (RoleClosure.ownMethods d) d.composed
  | .error error => .ended (.ok (.error error))

/-- Gathering closures in a registry. -/
def gatherers (reg : Registry) : Conduct RoleId RoleClosure Gathering where
  start := reg.beginning
  asks := reg.Asks
  resume := Gathering.resume
  ends := reg.Ends
  reentry id := .roleCycle [id, id]
  panicked id message := .compositionPanicked (.role id) message

variable {reg : Registry} {id b : RoleId}

theorem Requested.resolvesWithin (h : reg.Requested id) : reg.ResolvesWithin reg.size id := by
  cases h with
  | closure horder => exact resolvesWithin_of_reachedFrom horder (reachedFrom_singleton.2 .refl)
  | ordered horder hmem =>
    exact resolvesWithin_of_reachedFrom horder ((mem_resolutionOrder horder).1 hmem).1
  | declared horder hmem => exact resolvesWithin_of_reachedFrom horder ⟨id, hmem, .refl⟩

/-- A thread that starts outside stays there, and asks for what may be asked for from there. -/
theorem requested_of_enters (h : reg.gatherers.Enters .idle id) : reg.Requested id := by
  obtain ⟨s, hreaches, hasks⟩ := h
  have hidle : .idle = s := by
    refine hreaches.preserves rfl ?_
    rintro s k exit rfl - -
    rfl
  subst hidle
  exact hasks

/-- What a gathering has left to ask for is composed by its role. -/
def Below (reg : Registry) (id : RoleId) : Gathering → Prop
  | .idle => False
  | .gathering _ _ rest => ∃ d, reg.lookup id = .ok d ∧ rest ⊆ d.composed
  | .ended _ => True

theorem below_beginning : reg.Below id (reg.beginning id) := by
  unfold beginning
  split
  case h_1 d hd => exact ⟨d, hd, List.Subset.refl _⟩
  case h_2 => trivial

theorem Below.resume {s : Gathering} (h : reg.Below id s) (exit : Ending RoleClosure) :
    reg.Below id (s.resume exit) := by
  match s with
  | .gathering role methods (dependency :: rest) =>
    obtain ⟨d, hd, hsub⟩ := h
    match exit with
    | .ok (.ok closure) => exact ⟨d, hd, fun b hb => hsub (.tail _ hb)⟩
    | .ok (.error error) | .error payload => trivial
  | .gathering role methods [] | .ended exit => exact h

/-- A closure needs only those of the roles that its role composes. -/
theorem composes_of_needs (h : reg.gatherers.Needs id b) : reg.Composes id b := by
  obtain ⟨s, hreaches, hasks⟩ := h
  have hbelow : reg.Below id s :=
    hreaches.preserves below_beginning fun s k exit hs _ _ => hs.resume exit
  match s with
  | .gathering role methods (dependency :: rest) =>
    obtain ⟨d, hd, hsub⟩ := hbelow
    obtain ⟨rfl, -⟩ := hasks
    exact ⟨d, hd, hsub (.head _)⟩

/-- What is needed for a closure that may be asked for resolves, and so does not need itself. -/
theorem resolvesWithin_of_needs {root : RoleId} (hroot : reg.gatherers.Enters .idle root)
    (hneeds : Relation.ReflTransGen reg.gatherers.Needs root id) :
    reg.ResolvesWithin reg.size id :=
  (requested_of_enters hroot).resolvesWithin.reaches
    (Relation.ReflTransGen.mono (fun _ _ => composes_of_needs) _ _ hneeds)

theorem not_transGen_needs (h : reg.ResolvesWithin reg.size id) :
    ¬ Relation.TransGen reg.gatherers.Needs id id :=
  fun hneeds => h.not_onCycle (Relation.TransGen.mono (fun _ _ => composes_of_needs) _ _ hneeds)

/-- An outcome that a role which resolves can have. -/
def IsClosure (reg : Registry) (id : RoleId) (outcome : Except CompositionError RoleClosure) : Prop :=
  reg.ResolvesWithin reg.size id → outcome = .ok (reg.closureOf id)

/-- The methods so far are those of the closures that were asked for. -/
def Gathered (reg : Registry) (id : RoleId) (s : Gathering) : Prop :=
  ∃ d before rest, reg.lookup id = .ok d ∧ d.composed = before ++ rest ∧
    s = .gathering id (before.foldl (fun methods b => RoleClosure.absorb methods (reg.closureOf b))
      (RoleClosure.ownMethods d)) rest

theorem gathered_of_from (hr : reg.ResolvesWithin reg.size id) {s : Gathering}
    (hfrom : reg.gatherers.From reg.IsClosure (reg.beginning id) s) : reg.Gathered id s := by
  obtain ⟨d, hd⟩ := hr.registered
  have hstart : reg.Gathered id (reg.beginning id) :=
    ⟨d, [], d.composed, hd, rfl, by simp [beginning, hd]⟩
  refine hfrom.preserves hstart ?_
  rintro s b exit ⟨d', before, rest, hd', hcomposed, rfl⟩ hasks hright
  match rest with
  | dependency :: rest =>
    obtain ⟨rfl, -⟩ := hasks
    have hb : reg.Composes id b := ⟨d', hd', by simp [hcomposed]⟩
    obtain rfl : exit = .ok (.ok (reg.closureOf b)) :=
      Ending.eq_of_outcome (hright (hr.reaches (.single hb)))
    exact ⟨d', before ++ [b], rest, hd', by simp [hcomposed], by
      simp [gatherers, Gathering.resume]⟩

/-- Gathering comes to the closure of its role. -/
theorem isClosure_of_ends {s : Gathering} {exit : Ending RoleClosure}
    (hfrom : reg.gatherers.From reg.IsClosure (reg.gatherers.start id) s)
    (hends : reg.gatherers.ends s exit) :
    reg.IsClosure id (exit.outcome (reg.gatherers.panicked id)) := by
  intro hr
  obtain ⟨d, before, rest, hd, hcomposed, rfl⟩ := gathered_of_from hr hfrom
  match rest with
  | [] =>
    cases hends
    rw [closureOf_eq hr hd, hcomposed, List.append_nil]
    rfl
  | dependency :: rest =>
    obtain ⟨habsent, -⟩ := hends
    have hdependency : reg.Composes id dependency := ⟨d, hd, by simp [hcomposed]⟩
    have hregistered := contains_iff.2 (hr.reaches (.single hdependency)).registered
    rw [hregistered] at habsent
    cases habsent

end Registry

namespace World

variable {τ : Type} [DecidableEq τ] {reg : Registry} {ms : List (τ × Move RoleId RoleClosure)}
  {w : World τ RoleId RoleClosure Gathering} {t : τ} {id : RoleId}

/-- A closure that a thread has called for resolves. -/
theorem resolvesWithin_of_call (hrun : Run reg.gatherers (initial fun _ => .idle) ms w)
    {calls : List (Frame RoleId RoleClosure Gathering)} {phase : Phase RoleClosure Gathering}
    (hcalls : (w.threads t).calls = ⟨id, phase⟩ :: calls) : reg.ResolvesWithin reg.size id := by
  obtain ⟨root, hroot, hneeds⟩ := exists_enters_of_call hrun hcalls
  exact Registry.resolvesWithin_of_needs hroot hneeds

/-- A thread that calls for a closure is not gathering it already. -/
theorem runner_ne_of_call (hrun : Run reg.gatherers (initial fun _ => .idle) ms w)
    {calls : List (Frame RoleId RoleClosure Gathering)} {phase : Phase RoleClosure Gathering}
    (hcalls : (w.threads t).calls = ⟨id, phase⟩ :: calls) (hphase : phase.isRunning = false) :
    (w.slots id).runner ≠ some t := by
  intro hrunner
  obtain ⟨root, hroot, hneeds, hcycle⟩ := needs_of_reentry hrun hcalls hphase hrunner
  exact Registry.not_transGen_needs (Registry.resolvesWithin_of_needs hroot hneeds) hcycle

theorem not_dismissed (hrun : Run reg.gatherers (initial fun _ => .idle) ms w) :
    (t, .dismissed id) ∉ ms := by
  intro hmem
  obtain ⟨_, _, w₁, w₂, hbefore, hmove, -⟩ := hrun.exists_step hmem
  cases hmove with
  | dismisses ht =>
    have hcalls := congrArg Thread.calls ht
    exact runner_ne_of_call hbefore hcalls rfl
      (((hbefore.sound (sound_initial _)).fits t).knows _ _ hcalls)

/-- However the threads interleave, each call for a closure comes back with the one that a single
caller would gather. -/
theorem closure_of_returned (hs : reg.Sound)
    (hrun : Run reg.gatherers (initial fun _ => .idle) ms w) {exit : Ending RoleClosure}
    (hreturned : (t, .returned id exit) ∈ ms) :
    ∃ c, exit = .ok (.ok c) ∧ (runFrom (Registry.closureResolved id) reg).1 = .ok c := by
  have houtcome := hrun.outcome_of_returned hreturned
  have htraced : w.Traced reg.gatherers reg.IsClosure fun _ => .idle :=
    hrun.traced (fun _ _ _ => Registry.isClosure_of_ends) fun _ _ hmem =>
      absurd hmem (not_dismissed hrun)
  obtain ⟨_, _, w₁, w₂, hbefore, hmove, -⟩ := hrun.exists_step hreturned
  have hr : reg.ResolvesWithin reg.size id := by
    cases hmove with
    | returns ht => exact resolvesWithin_of_call hbefore (congrArg Thread.calls ht)
  obtain ⟨reg', hgathered, -⟩ := Registry.runFrom_closureResolved hs hr
  exact ⟨reg.closureOf id, Ending.eq_of_outcome (htraced.outcome id _ houtcome hr), by
    rw [hgathered]⟩

/-- Threads that gather closures never wait for each other in a circle, none of them meets itself,
and none is refused. -/
theorem gatherers_never_stall (hrun : Run reg.gatherers (initial fun _ => .idle) ms w) :
    ¬ w.Deadlocked ∧
      (∀ t id calls, (w.threads t).calls = ⟨id, .checking⟩ :: calls →
        (w.slots id).runner ≠ some t) ∧
      ∀ t id, (t, .refused id) ∉ ms := by
  refine ⟨fun hdeadlocked => ?_, fun t id calls hcalls => runner_ne_of_call hrun hcalls rfl,
    fun t id hmem => ?_⟩
  · obtain ⟨t, root, id, b, hroot, hneeds, -, hforth, hback⟩ := needs_of_deadlocked hrun hdeadlocked
    exact Registry.not_transGen_needs (Registry.resolvesWithin_of_needs hroot hneeds)
      (hforth.trans hback)
  · obtain ⟨_, _, w₁, w₂, hbefore, hmove, -⟩ := hrun.exists_step hmem
    cases hmove with
    | refuses ht _ hrunner => exact runner_ne_of_call hbefore (congrArg Thread.calls ht) rfl hrunner

end World

namespace Sample

open World

/-- Two threads ask for closures of which the one needs the other. -/
def gatherings : List (Bool × Move RoleId RoleClosure) :=
  [(false, .asked parting.id), (true, .asked greeting.id), (false, .read parting.id),
    (false, .took parting.id), (true, .read greeting.id), (true, .took greeting.id),
    (false, .asked greeting.id), (false, .read greeting.id), (false, .slept greeting.id)]

theorem gatherings_run : ∃ w, Run rivals.freeze.gatherers (initial fun _ => .idle) gatherings w ∧
    w.Waits false true := by
  have hparting : rivals.freeze.Requested parting.id := .closure rfl
  have hgreeting : rivals.freeze.Requested greeting.id := .closure rfl
  have h := Run.nil (c := rivals.freeze.gatherers) (w := initial fun _ : Bool => .idle)
  replace h := h.snoc (t := false) (.asks (k := parting.id) rfl rfl hparting)
  replace h := h.snoc (t := true) (.asks (k := greeting.id) rfl rfl hgreeting)
  replace h := h.snoc (t := false) (.misses rfl rfl)
  replace h := h.snoc (t := false) (.takes rfl rfl rfl)
  replace h := h.snoc (t := true) (.misses rfl rfl)
  replace h := h.snoc (t := true) (.takes rfl rfl rfl)
  replace h := h.snoc (t := false) (.asks (k := greeting.id) rfl rfl ⟨rfl, by decide⟩)
  replace h := h.snoc (t := false) (.misses rfl rfl)
  replace h := h.snoc (t := false) (.sleeps rfl rfl rfl (by decide : true ≠ false))
  exact ⟨_, h, greeting.id, ⟨_, rfl⟩, rfl⟩

end Sample

namespace World

/-- A thread waits for another, which does not wait for it. -/
theorem gatherers_never_stall_of_gatherings :
    ∃ w, Run Sample.rivals.freeze.gatherers (initial fun _ => .idle)
        Sample.gatherings w ∧ w.Waits false true ∧ ¬ w.Deadlocked ∧
      (∀ t id calls, (w.threads t).calls = ⟨id, .checking⟩ :: calls →
        (w.slots id).runner ≠ some t) ∧
      ∀ t id, (t, .refused id) ∉ Sample.gatherings := by
  obtain ⟨w, hrun, hwaits⟩ := Sample.gatherings_run
  exact ⟨w, hrun, hwaits, gatherers_never_stall hrun⟩

end World

end RoleComposition
