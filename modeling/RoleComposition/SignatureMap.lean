import RoleComposition.Signature

/-!
# Tables keyed by signatures

A table holds each signature at most once, in increasing order. `toList` is its view; the order
is kept by the type, so two tables with the same entries are the same list.
-/

namespace RoleComposition

/-- Entries in strictly increasing order of their signatures. -/
structure SignatureMap (α : Type) where
  toList : List (Signature × α)
  ascending : toList.Pairwise fun a b => a.1 < b.1

namespace SignatureMap

variable {α β : Type}

/-- Puts an entry at its place in an ascending list, over an older entry of its signature. -/
def insertInto (s : Signature) (a : α) : List (Signature × α) → List (Signature × α)
  | [] => [(s, a)]
  | (t, b) :: rest =>
    if s < t then (s, a) :: (t, b) :: rest
    else if s = t then (s, a) :: rest
    else (t, b) :: insertInto s a rest

theorem mem_insertInto {s : Signature} {a : α} {e : Signature × α} {l : List (Signature × α)}
    (member : e ∈ insertInto s a l) : e = (s, a) ∨ e ∈ l := by
  induction l with
  | nil => simpa [insertInto] using member
  | cons head rest ih =>
    obtain ⟨t, b⟩ := head
    simp only [insertInto] at member
    split at member
    · simpa using member
    · split at member
      · rcases List.mem_cons.1 member with h | h
        · exact .inl h
        · exact .inr (List.mem_cons_of_mem _ h)
      · rcases List.mem_cons.1 member with h | h
        · exact .inr (h ▸ List.mem_cons_self)
        · rcases ih h with h | h
          · exact .inl h
          · exact .inr (List.mem_cons_of_mem _ h)

theorem insertInto_ascending {s : Signature} {a : α} {l : List (Signature × α)}
    (ascending : l.Pairwise fun a b => a.1 < b.1) :
    (insertInto s a l).Pairwise fun a b => a.1 < b.1 := by
  induction l with
  | nil => simp [insertInto]
  | cons head rest ih =>
    obtain ⟨t, b⟩ := head
    obtain ⟨above, tail⟩ := List.pairwise_cons.1 ascending
    simp only [insertInto]
    split
    · next below =>
      refine List.pairwise_cons.2 ⟨fun e member => ?_, ascending⟩
      rcases List.mem_cons.1 member with h | h
      · exact h ▸ below
      · exact Signature.lt_trans below (above e h)
    · next notBelow =>
      split
      · next equal =>
        subst equal
        exact List.pairwise_cons.2 ⟨above, tail⟩
      · next differ =>
        refine List.pairwise_cons.2 ⟨fun e member => ?_, ih tail⟩
        rcases mem_insertInto member with h | h
        · subst h
          exact Signature.lt_of_ne_of_not_lt differ notBelow
        · exact above e h

/-- The table without entries. -/
def empty : SignatureMap α := ⟨[], .nil⟩

instance : EmptyCollection (SignatureMap α) := ⟨empty⟩
instance : Inhabited (SignatureMap α) := ⟨empty⟩

/-- The table with one entry more; an older entry of the same signature gives way. -/
def insert (m : SignatureMap α) (s : Signature) (a : α) : SignatureMap α :=
  ⟨insertInto s a m.toList, insertInto_ascending m.ascending⟩

/-- The table of a list's entries, of which the last one of a signature stays. -/
def ofList (entries : List (Signature × α)) : SignatureMap α :=
  entries.foldl (fun m e => m.insert e.1 e.2) ∅

/-- The value held for a signature. -/
def find? (m : SignatureMap α) (s : Signature) : Option α :=
  (m.toList.find? fun e => e.1 = s).map Prod.snd

/-- The signature has an entry. -/
def contains (m : SignatureMap α) (s : Signature) : Bool := m.toList.any fun e => e.1 = s

/-- The signatures in increasing order. -/
def signatures (m : SignatureMap α) : List Signature := m.toList.map Prod.fst

/-- The number of entries. -/
def size (m : SignatureMap α) : Nat := m.toList.length

/-- There is no entry. -/
def isEmpty (m : SignatureMap α) : Bool := m.toList.isEmpty

/-- The same signatures with other values. -/
def map (f : Signature → α → β) (m : SignatureMap α) : SignatureMap β :=
  ⟨m.toList.map fun e => (e.1, f e.1 e.2), List.pairwise_map.2 m.ascending⟩

/-- The entries that satisfy a condition. -/
def filter (p : Signature → α → Bool) (m : SignatureMap α) : SignatureMap α :=
  ⟨m.toList.filter fun e => p e.1 e.2, m.ascending.filter _⟩

end SignatureMap

/-- A set of signatures, in increasing order. -/
abbrev SignatureSet := SignatureMap Unit

namespace SignatureSet

/-- The set with one member more. -/
def add (m : SignatureSet) (s : Signature) : SignatureSet := SignatureMap.insert m s ()

end SignatureSet

end RoleComposition
