import RoleComposition.Proofs.Deciding

/-!
# Revised definitions

A walk looks at nothing of a definition but its name and what it composes. Definitions that are
revised in other respects are met in the same order, and where storage is left alone as well, it is
refused at the same role. Main statements: `resolutionOrder_revised`, `walk_revised` and
`checkStorage_map_of_revises`.
-/

namespace RoleComposition

/-- A revision of definitions that leaves alone their names, what they compose and their storage. -/
structure RoleDefinition.Revises (f : RoleDefinition → RoleDefinition) : Prop where
  id : ∀ d, (f d).id = d.id
  composed : ∀ d, (f d).composed = d.composed
  storage : ∀ d, (f d).storage = d.storage

/-- The registry of the revised definitions, before any closure is gathered. -/
def Registry.revised (reg : Registry) (f : RoleDefinition → RoleDefinition) : Registry :=
  ⟨reg.entries.map fun e => { definition := f e.definition }⟩

/-- Steps that can be looked at before or after they are taken can be taken in a row. -/
theorem foldlM_map_except {σ τ ι ε : Type} {step : σ → ι → Except ε σ} {step' : τ → ι → Except ε τ}
    {view : σ → τ} (h : ∀ s i, step' (view s) i = (step s i).map view) (l : List ι) (s : σ) :
    l.foldlM step' (view s) = (l.foldlM step s).map view := by
  induction l generalizing s with
  | nil => rfl
  | cons i l ih =>
    rw [List.foldlM_cons, List.foldlM_cons, h]
    cases step s i with
    | error error => rfl
    | ok s₁ => exact ih s₁

namespace Registry

variable {f : RoleDefinition → RoleDefinition} (hf : RoleDefinition.Revises f) (reg : Registry)

theorem size_revised (f : RoleDefinition → RoleDefinition) : (reg.revised f).size = reg.size :=
  List.length_map _

include hf

theorem lookup_revised (id : RoleId) : (reg.revised f).lookup id = (reg.lookup id).map f := by
  have hfind : (reg.revised f).find? id =
      (reg.find? id).map fun e => { definition := f e.definition } := by
    unfold find? revised
    rw [List.find?_map]
    simp only [Function.comp_def, hf.id]
  unfold lookup
  rw [hfind]
  cases reg.find? id <;> rfl

theorem visit_revised (depth : Nat) (path : List RoleId) (left : List RoleDefinition)
    (id : RoleId) :
    (reg.revised f).visit depth path (left.map f) id =
      (reg.visit depth path left id).map (List.map f) := by
  -- what has been left is known by its name
  have hleft (left : List RoleDefinition) (id : RoleId) :
      ((left.map f).any fun r => r.id == id) = left.any fun r => r.id == id := by
    rw [List.any_map]
    simp only [Function.comp_def, hf.id]
  induction depth generalizing path left id with
  | zero =>
    unfold visit
    rw [hleft, lookup_revised hf]
    split_ifs
    · rfl
    · rfl
    · cases reg.lookup id <;> rfl
  | succ depth ih =>
    unfold visit
    rw [hleft, lookup_revised hf]
    split_ifs
    · rfl
    · rfl
    · cases reg.lookup id with
      | error error => rfl
      | ok d =>
        show (do
          let left ← (f d).composed.foldlM ((reg.revised f).visit depth (path ++ [id])) (left.map f)
          return left ++ [f d]) = Except.map _ (do
          let left ← d.composed.foldlM (reg.visit depth (path ++ [id])) left
          return left ++ [d])
        rw [hf.composed, foldlM_map_except (ih (path ++ [id]))]
        cases d.composed.foldlM (reg.visit depth (path ++ [id])) left with
        | error error => rfl
        | ok left => simp [Except.map, bind, Except.bind, pure, Except.pure]

/-- Roots resolve to the revised definitions of what they resolve to. -/
theorem resolutionOrder_revised (roots : List RoleId) :
    (reg.revised f).resolutionOrder roots = (reg.resolutionOrder roots).map (List.map f) := by
  unfold resolutionOrder
  rw [size_revised]
  exact foldlM_map_except (fun left id => visit_revised hf reg reg.size [] left id) roots []

theorem walk_revised (n : Nat) (id : RoleId) : (reg.revised f).walk n id = reg.walk n id := by
  induction n generalizing id with
  | zero => rfl
  | succ n ih =>
    rw [walk, walk, lookup_revised hf]
    cases reg.lookup id with
    | error error => rfl
    | ok d =>
      show id :: (f d).composed.flatMap ((reg.revised f).walk n) =
        id :: d.composed.flatMap (reg.walk n)
      rw [hf.composed, funext ih]

end Registry

/-- The check of storage looks at nothing that is revised. -/
theorem Engine.checkStorage_map_of_revises {f : RoleDefinition → RoleDefinition}
    (hf : RoleDefinition.Revises f) (config : Config) (roles : List RoleDefinition) :
    Engine.checkStorage config (roles.map f) = Engine.checkStorage config roles := by
  have hrole (r : RoleDefinition) : (f r).checkStorage = r.checkStorage := by
    unfold RoleDefinition.checkStorage
    rw [hf.id, hf.storage]
  unfold Engine.checkStorage
  cases config.storageCheck with
  | atRegistration => rfl
  | atComposition =>
    exact List.forM_map.trans (congrArg roles.forM (funext hrole))

end RoleComposition
