import RoleComposition.Engine

/-!
# Manifests

A manifest lists roles and types by the shape of their methods. The bodies come from a catalog,
which holds them by owner and signature and may let stand-ins take the place of those it lacks.
-/

namespace RoleComposition

/-- A role as a manifest lists it. -/
structure RoleDecl where
  name : RoleId
  requires : List Signature := []
  provides : List Signature := []
  privates : List Signature := []
  composes : List RoleId := []
  storage : List String := []
deriving DecidableEq, Repr

/-- A method of a role that a type excludes. -/
structure VetoDecl where
  role : RoleId
  method : Signature
deriving DecidableEq, Repr

/-- A type as a manifest lists it. -/
structure TypeDecl where
  name : String
  adopts : List RoleId := []
  implements : List Signature := []
  veto : List VetoDecl := []
deriving DecidableEq, Repr

/-- The roles and types of a manifest. -/
structure Manifest where
  roles : List RoleDecl := []
  types : List TypeDecl := []
deriving DecidableEq, Repr

/-- Bodies by the name of their owner and their signature. -/
structure Catalog where
  bindings : List ((String × Signature) × Implementation) := []
  standIns : Bool := false

namespace Catalog

/-- The catalog in which everything is a stand-in. -/
def ofStandIns : Catalog := { standIns := true }

/-- The body bound to an owner's signature. -/
def find? (c : Catalog) (owner : String) (s : Signature) : Option Implementation :=
  (c.bindings.find? fun b => b.1 == (owner, s)).map Prod.snd

/-- Binds a body, in the place of an older one. -/
def bind (c : Catalog) (owner : String) (s : Signature) (i : Implementation) : Catalog :=
  { c with bindings := ((owner, s), i) :: c.bindings.filter fun b => b.1 != (owner, s) }

/-- The number of bindings. -/
def size (c : Catalog) : Nat := c.bindings.length

/-- The body for an owner's signature. -/
def resolve (c : Catalog) (owner : Owner) (s : Signature) :
    Except CompositionError Implementation :=
  match c.find? owner.name s with
  | some i => .ok i
  | none =>
    if c.standIns then .ok (.standIn owner s)
    else .error (.unboundImplementation owner.name s)

end Catalog

/-- The definition of a listed role with its bodies. -/
def RoleDecl.toDefinition (d : RoleDecl) (c : Catalog) : Except CompositionError RoleDefinition := do
  let owner := Owner.role d.name
  let r := d.requires.foldl RoleDefinition.requires (.named d.name)
  let r ← d.provides.foldlM (fun r s => return r.provides s (← c.resolve owner s)) r
  let r ← d.privates.foldlM (fun r s => return r.providesPrivate s (← c.resolve owner s)) r
  let r := d.composes.foldl RoleDefinition.composes r
  return d.storage.foldl RoleDefinition.withStorage r

/-- The hook of a type that excludes the listed methods, if it lists any. -/
def TypeDecl.hook? (d : TypeDecl) : Option Hook :=
  if d.veto.isEmpty then none
  else some (Exclusions.ofList (d.veto.map fun v => (v.role, v.method))).hook

/-- A listed type with its bodies. -/
def TypeDecl.toAdoptingType (d : TypeDecl) (c : Catalog) : Except CompositionError AdoptingType := do
  let owner := Owner.type d.name
  let t := d.adopts.foldl AdoptingType.adopts (.named d.name)
  let t ← d.implements.foldlM (fun t s => return t.implements s (← c.resolve owner s)) t
  return { t with veto := d.hook? }

/-- Takes steps over a list until one fails; what was reached before comes with the error. -/
def runSteps {σ ι ε : Type} (step : σ → ι → Except ε σ) : σ → List ι → σ × Option ε
  | s, [] => (s, none)
  | s, i :: rest =>
    match step s i with
    | .ok s => runSteps step s rest
    | .error e => (s, some e)

namespace Manifest

/-- Registers the roles in turn. Those before the first that fails stay registered. -/
def install (m : Manifest) (c : Catalog) (b : RegistryBuilder) :
    RegistryBuilder × Option CompositionError :=
  runSteps (fun b d => do b.register (← d.toDefinition c)) b m.roles

/-- Declares the types in turn. Those before the first that fails stay declared. -/
def declareTypes (m : Manifest) (c : Catalog) (e : Engine) : Engine × Option CompositionError :=
  runSteps (fun e d => do return (← e.declare (← d.toAdoptingType c)).2) e m.types

end Manifest

end RoleComposition
