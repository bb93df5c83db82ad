import RoleComposition.ResolutionOrder

/-!
# Role closures

A role's closure is gathered from its own methods and from the closures of the roles it composes.
It decides nothing: a signature keeps every offer that reaches it, one from each origin, in the
order in which they are met. Each closure is gathered once and kept in the role's slot.
-/

namespace RoleComposition

namespace RoleClosure

/-- The offers that come from a role itself. -/
def ownMethods (r : RoleDefinition) : SignatureMap (List ClosureEntry) :=
  r.provided.map fun _ implementation => [⟨r.id, implementation⟩]

/-- Adds to some offers those from new origins. -/
def addOffers (held offered : List ClosureEntry) : List ClosureEntry :=
  offered.foldl
    (fun held e => if held.any fun c => c.origin == e.origin then held else held ++ [e]) held

/-- Adds the offers of one closure to those gathered so far. -/
def absorb (methods : SignatureMap (List ClosureEntry)) (inner : RoleClosure) :
    SignatureMap (List ClosureEntry) :=
  inner.methods.toList.foldl
    (fun methods e => methods.insert e.1 (addOffers ((methods.find? e.1).getD []) e.2)) methods

end RoleClosure

/-- A step that may fail and that may fill closure slots either way. -/
abbrev ClosureM := ExceptT CompositionError (StateM Registry)

namespace Registry

/-- The closure of a role, gathered if its slot is still vacant. A closure that is asked for while
it is being gathered would contain itself. The roles being gathered are distinct, so `depth` need
not exceed the number of roles. -/
def gather : Nat → RoleId → ClosureM RoleClosure
  | depth, id => do
    let reg ← get
    match reg.find? id with
    | none => throw (.unknownRole id)
    | some e =>
      match e.closure with
      | .settled outcome => ExceptT.mk (pure outcome)
      | .running => throw (.roleCycle [id, id])
      | .vacant =>
        match depth with
        | 0 => throw (.roleCycle [id, id])
        | depth + 1 => do
          set (reg.setClosure id .running)
          let gathered : ClosureM RoleClosure := do
            let methods ← e.definition.composed.foldlM
              (fun methods dependency => do
                return RoleClosure.absorb methods (← gather depth dependency))
              (RoleClosure.ownMethods e.definition)
            return ⟨id, methods⟩
          let outcome ← ExceptT.lift gathered.run
          modify fun reg => reg.setClosure id (.settled outcome)
          ExceptT.mk (pure outcome)

/-- The closure of a role whose dependencies are known to resolve. -/
def closureResolved (id : RoleId) : ClosureM RoleClosure := do
  gather (← get).size id

/-- The closure of a role, if all that the role reaches resolves. -/
def closure (id : RoleId) : ClosureM RoleClosure := do
  let reg ← get
  discard <| ExceptT.mk (pure (reg.resolutionOrder [id]))
  closureResolved id

end Registry

end RoleComposition
