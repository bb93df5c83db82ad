import RoleComposition.Engine

/-!
# Running steps

A step that may fail and change a state is run from a state: it comes to a result, or to an error,
and leaves a state either way. The lemmas say what running does to each way of putting steps
together, so that no later proof has to look into the monads.
-/

namespace RoleComposition

variable {ε σ α β : Type}

/-- How a step ends when it is run from a state, and the state that it leaves. -/
def runFrom (step : ExceptT ε (StateM σ) α) (s : σ) : Except ε α × σ := step.run.run s

@[simp] theorem runFrom_pure (a : α) (s : σ) :
    runFrom (pure a : ExceptT ε (StateM σ) α) s = (.ok a, s) := rfl

@[simp] theorem runFrom_throw (error : ε) (s : σ) :
    runFrom (throw error : ExceptT ε (StateM σ) α) s = (.error error, s) := rfl

/-- A step goes on from where the step before it has ended, unless that one has failed. -/
theorem runFrom_bind (step : ExceptT ε (StateM σ) α) (next : α → ExceptT ε (StateM σ) β) (s : σ) :
    runFrom (step >>= next) s =
      match runFrom step s with
      | (.ok a, s') => runFrom (next a) s'
      | (.error error, s') => (.error error, s') := by
  unfold runFrom
  rw [ExceptT.run_bind, StateT.run_bind]
  generalize step.run.run s = outcome
  obtain ⟨result, s'⟩ := outcome
  cases result with
  | ok a => rfl
  | error error => rfl

theorem runFrom_bind_ok {step : ExceptT ε (StateM σ) α} {next : α → ExceptT ε (StateM σ) β}
    {s s' : σ} {a : α} (h : runFrom step s = (.ok a, s')) :
    runFrom (step >>= next) s = runFrom (next a) s' := by
  rw [runFrom_bind, h]

theorem runFrom_bind_error {step : ExceptT ε (StateM σ) α} {next : α → ExceptT ε (StateM σ) β}
    {s s' : σ} {error : ε} (h : runFrom step s = (.error error, s')) :
    runFrom (step >>= next) s = (.error error, s') := by
  rw [runFrom_bind, h]

@[simp] theorem runFrom_get (s : σ) :
    runFrom (get : ExceptT ε (StateM σ) σ) s = (.ok s, s) := rfl

@[simp] theorem runFrom_set (s s' : σ) :
    runFrom (set s' : ExceptT ε (StateM σ) PUnit) s = (.ok ⟨⟩, s') := rfl

@[simp] theorem runFrom_modify (f : σ → σ) (s : σ) :
    runFrom (modify f : ExceptT ε (StateM σ) PUnit) s = (.ok ⟨⟩, f s) := rfl

@[simp] theorem runFrom_mk_pure (result : Except ε α) (s : σ) :
    runFrom (ExceptT.mk (pure result) : ExceptT ε (StateM σ) α) s = (result, s) := rfl

/-- A step whose end is looked at does not fail. -/
@[simp] theorem runFrom_lift_run (step : ExceptT ε (StateM σ) α) (s : σ) :
    runFrom (ExceptT.lift step.run : ExceptT ε (StateM σ) (Except ε α)) s =
      (.ok (runFrom step s).1, (runFrom step s).2) := rfl

end RoleComposition
