import RoleComposition.Registry

/-!
# Resolution order

The roles that a list of roots reaches through `composes`, each once and after all the roles that
it composes: the order in which a walk in depth leaves them. The walk stops at a role that is not
registered, and at one that it meets again before it has left it.
-/

namespace RoleComposition.Registry

/-- The part of a path from a role on, closed by that role. -/
def cycleAt (path : List RoleId) (id : RoleId) : List RoleId :=
  path.dropWhile (· ≠ id) ++ [id]

/-- Walks down from a role along a path; `left` holds the roles that the walk has left, in order.
A path has no repeats, so it is never longer than the registry, and `depth` bounds what is left of
it. -/
def visit (reg : Registry) : Nat → List RoleId → List RoleDefinition → RoleId →
    Except CompositionError (List RoleDefinition)
  | depth, path, left, id =>
    if left.any fun r => r.id == id then .ok left
    else if path.contains id then .error (.roleCycle (cycleAt path id))
    else do
      let definition ← reg.lookup id
      match depth with
      | 0 => .error (.roleCycle (cycleAt path id))
      | depth + 1 =>
        let left ← definition.composed.foldlM (reg.visit depth (path ++ [id])) left
        return left ++ [definition]

/-- The roles that some roots reach, each after the roles that it composes. -/
def resolutionOrder (reg : Registry) (roots : List RoleId) :
    Except CompositionError (List RoleDefinition) :=
  roots.foldlM (reg.visit reg.size []) []

/-- Every role reaches only registered roles, and none of them again. -/
def checkAcyclic (reg : Registry) : Except CompositionError Unit := do
  discard <| reg.resolutionOrder reg.ids

end RoleComposition.Registry
