import RoleComposition.Capability
import RoleComposition.Proofs.Lookup

/-!
# Names in increasing order

The roles that an error lists stand in strictly increasing order, and so the list is determined by
what is in it. Main statements: `Ascending.eq_of_mem_iff`, and `ascending_sort` with
`ascending_sortedSet`.
-/

namespace RoleComposition

/-- Each element of a list is left once. -/
theorem nodup_eraseDups {α : Type} [DecidableEq α] (l : List α) : l.eraseDups.Nodup := by
  cases l with
  | nil => exact List.nodup_nil
  | cons a l =>
    rw [List.eraseDups_cons, List.nodup_cons]
    constructor
    · simp
    · exact nodup_eraseDups _
termination_by l.length
decreasing_by exact Nat.lt_succ_of_le (List.length_filter_le _ _)

namespace RoleId

/-- Names in strictly increasing order. -/
def Ascending (ids : List RoleId) : Prop := ids.Pairwise fun a b => a.name < b.name

theorem Ascending.eq_of_mem_iff {ids ids' : List RoleId} (h : Ascending ids) (h' : Ascending ids')
    (same : ∀ id, id ∈ ids ↔ id ∈ ids') : ids = ids' :=
  eq_of_same_elements (r := fun a b : RoleId => a.name < b.name)
    (fun a => String.lt_irrefl a.name) (fun _ _ _ => String.lt_trans) h h' same

theorem mem_sort {ids : List RoleId} {id : RoleId} : id ∈ sort ids ↔ id ∈ ids :=
  List.mem_mergeSort

/-- Sorting roles without repeats leaves no two with one name next to each other. -/
theorem ascending_sort {ids : List RoleId} (h : ids.Nodup) : Ascending (sort ids) := by
  have hle : (sort ids).Pairwise fun a b => precedes a b = true := by
    refine List.pairwise_mergeSort (fun a b c hab hbc => ?_) (fun a b => ?_) ids
    · simp only [precedes, decide_eq_true_eq] at *
      exact String.le_trans hab hbc
    · simpa [precedes] using String.le_total a.name b.name
  have hne : (sort ids).Nodup := List.nodup_mergeSort.2 h
  refine (hle.and hne).imp fun {a b} hab => ?_
  obtain ⟨hle, hne⟩ := hab
  rw [precedes, decide_eq_true_eq] at hle
  refine String.not_le.1 fun hge => hne ?_
  cases a
  cases b
  exact congrArg RoleId.mk (String.le_antisymm hle hge)

theorem mem_sortedSet {ids : List RoleId} {id : RoleId} : id ∈ sortedSet ids ↔ id ∈ ids := by
  rw [sortedSet, mem_sort, List.mem_eraseDups]

theorem ascending_sortedSet (ids : List RoleId) : Ascending (sortedSet ids) :=
  ascending_sort (nodup_eraseDups ids)

end RoleId

end RoleComposition
