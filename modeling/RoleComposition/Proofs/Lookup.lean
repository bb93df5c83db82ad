import Mathlib.Data.List.Sort
import RoleComposition.SignatureMap

/-!
# Looking signatures up

A table is determined by what it holds for each signature, as any list in increasing order is
determined by what is in it. Main statements: `eq_of_ascending_signatures`, `find?_insert` for one
entry, `ext_find?` for whole tables, and `foldl_lookup` for a pass over a table that touches at
each step only what belongs to the signature of the step.
-/

namespace RoleComposition

/-- Lists in the order of a relation that no element has to itself, and that can be chained, are
equal if they have the same elements. -/
theorem eq_of_same_elements {α : Type} {r : α → α → Prop} (irrefl : ∀ a, ¬ r a a)
    (trans : ∀ a b c, r a b → r b c → r a c) {l l' : List α} (h : l.Pairwise r)
    (h' : l'.Pairwise r) (same : ∀ a, a ∈ l ↔ a ∈ l') : l = l' := by
  have : Std.Irrefl r := ⟨irrefl⟩
  have : Std.Antisymm r := ⟨fun a b hab hba => absurd (trans a b a hab hba) (irrefl a)⟩
  exact h.eq_of_mem_iff h' same

/-- Lists in increasing order of their elements' signatures. -/
theorem eq_of_ascending_signatures {α : Type} (key : α → Signature) {l l' : List α}
    (h : l.Pairwise fun a b => key a < key b) (h' : l'.Pairwise fun a b => key a < key b)
    (same : ∀ a, a ∈ l ↔ a ∈ l') : l = l' :=
  eq_of_same_elements (r := fun a b => key a < key b) (fun a => Signature.lt_irrefl (key a))
    (fun _ _ _ => Signature.lt_trans) h h' same

namespace SignatureMap

variable {α β : Type}

/-- Two entries of an ascending list with one signature are one entry. -/
theorem eq_of_ascending {l : List (Signature × α)} (h : l.Pairwise fun a b => a.1 < b.1)
    {a b : Signature × α} (ha : a ∈ l) (hb : b ∈ l) (hab : a.1 = b.1) : a = b := by
  induction l with
  | nil => simp at ha
  | cons head rest ih =>
    obtain ⟨above, tail⟩ := List.pairwise_cons.1 h
    rcases List.mem_cons.1 ha with rfl | ha
    · rcases List.mem_cons.1 hb with rfl | hb
      · rfl
      · exact absurd (hab ▸ above b hb) (Signature.lt_irrefl _)
    · rcases List.mem_cons.1 hb with hb | hb
      · rw [hb] at hab
        exact absurd (above a ha) (hab ▸ Signature.lt_irrefl _)
      · exact ih tail ha hb

theorem find?_eq_some {m : SignatureMap α} {s : Signature} {a : α} :
    m.find? s = some a ↔ (s, a) ∈ m.toList := by
  unfold find?
  constructor
  · intro h
    obtain ⟨e, he, rfl⟩ := Option.map_eq_some_iff.1 h
    have hs : e.1 = s := by simpa using List.find?_some he
    have hm := List.mem_of_find?_eq_some he
    rw [← hs]
    exact hm
  · intro h
    cases hf : m.toList.find? (fun e => e.1 = s) with
    | none =>
      have := List.find?_eq_none.1 hf (s, a) h
      simp at this
    | some e =>
      have hs : e.1 = s := by simpa using List.find?_some hf
      have he : e = (s, a) := eq_of_ascending m.ascending (List.mem_of_find?_eq_some hf) h hs
      simp [he]

theorem find?_eq_none {m : SignatureMap α} {s : Signature} :
    m.find? s = none ↔ ∀ a, (s, a) ∉ m.toList := by
  rw [Option.eq_none_iff_forall_ne_some]
  exact forall_congr' fun a => not_congr find?_eq_some

theorem contains_eq {m : SignatureMap α} {s : Signature} :
    m.contains s = (m.find? s).isSome := by
  rw [contains, find?, Option.isSome_map, Bool.eq_iff_iff]
  simp

theorem contains_iff {m : SignatureMap α} {s : Signature} :
    m.contains s = true ↔ ∃ a, m.find? s = some a := by
  rw [contains_eq, Option.isSome_iff_exists]

theorem mem_insertInto_self (s : Signature) (a : α) (l : List (Signature × α)) :
    (s, a) ∈ insertInto s a l := by
  induction l with
  | nil => simp [insertInto]
  | cons head rest ih =>
    obtain ⟨t, b⟩ := head
    rw [insertInto]
    split_ifs <;> simp [ih]

theorem mem_insertInto_of_ne {s : Signature} {a : α} {e : Signature × α}
    {l : List (Signature × α)} (h : e ∈ l) (hs : s ≠ e.1) : e ∈ insertInto s a l := by
  induction l with
  | nil => simp at h
  | cons head rest ih =>
    obtain ⟨t, b⟩ := head
    rw [insertInto]
    split_ifs with below same
    · exact List.mem_cons_of_mem _ h
    · rcases List.mem_cons.1 h with rfl | h
      · exact absurd same hs
      · exact List.mem_cons_of_mem _ h
    · rcases List.mem_cons.1 h with rfl | h
      · exact List.mem_cons_self
      · exact List.mem_cons_of_mem _ (ih h)

theorem find?_insert_self (m : SignatureMap α) (s : Signature) (a : α) :
    (m.insert s a).find? s = some a :=
  find?_eq_some.2 (mem_insertInto_self s a m.toList)

theorem find?_insert_of_ne (m : SignatureMap α) {s s' : Signature} (a : α) (h : s ≠ s') :
    (m.insert s a).find? s' = m.find? s' := by
  refine Option.ext fun b => ?_
  rw [find?_eq_some, find?_eq_some]
  constructor
  · intro hb
    rcases mem_insertInto hb with hb | hb
    · cases hb
      exact absurd rfl h
    · exact hb
  · exact fun hb => mem_insertInto_of_ne hb h

/-- What a table holds after an entry has been put in. -/
theorem find?_insert (m : SignatureMap α) (s s' : Signature) (a : α) :
    (m.insert s a).find? s' = if s = s' then some a else m.find? s' := by
  split_ifs with h
  · subst h
    exact find?_insert_self m s a
  · exact find?_insert_of_ne m a h

/-- A table with one entry holds nothing else. -/
theorem eq_of_find?_insert_empty {s s' : Signature} {a b : α}
    (h : ((∅ : SignatureMap α).insert s a).find? s' = some b) : b = a := by
  rw [find?_insert] at h
  split_ifs at h
  · exact (Option.some.inj h).symm
  · cases h

@[simp] theorem find?_map (f : Signature → α → β) (m : SignatureMap α) (s : Signature) :
    (m.map f).find? s = (m.find? s).map (f s) := by
  refine Option.ext fun b => ?_
  simp only [find?_eq_some, map, List.mem_map, Option.map_eq_some_iff, Prod.exists, Prod.mk.injEq]
  constructor
  · rintro ⟨t, a, ha, rfl, rfl⟩
    exact ⟨a, ha, rfl⟩
  · rintro ⟨a, ha, rfl⟩
    exact ⟨s, a, ha, rfl, rfl⟩

theorem find?_filter (p : Signature → α → Bool) (m : SignatureMap α) (s : Signature) :
    (m.filter p).find? s = (m.find? s).filter (p s) := by
  refine Option.ext fun a => ?_
  rw [Option.filter_eq_some_iff, find?_eq_some, find?_eq_some]
  exact List.mem_filter

/-- What a table holds after the entry of a signature has been left out. -/
theorem find?_filter_ne (m : SignatureMap α) (s s' : Signature) :
    (m.filter fun s' _ => s' ≠ s).find? s' = if s = s' then none else m.find? s' := by
  rw [find?_filter]
  by_cases h : s = s'
  · cases m.find? s' <;> simp [h]
  · cases m.find? s' <;> simp [h, Ne.symm h]

/-- Tables that hold the same for each signature are equal. -/
theorem ext_find? {m m' : SignatureMap α} (h : ∀ s, m.find? s = m'.find? s) : m = m' := by
  obtain ⟨l, hl⟩ := m
  obtain ⟨l', hl'⟩ := m'
  have same : ∀ e, e ∈ l ↔ e ∈ l' := by
    rintro ⟨s, a⟩
    rw [← find?_eq_some (m := ⟨l, hl⟩), h, find?_eq_some]
  cases eq_of_ascending_signatures Prod.fst hl hl' same
  rfl

/-- What a pass over a list leaves under a signature, if each step touches only what lies under the
signature of its entry, and the entry of the signature comes once. -/
theorem foldl_lookup_list {σ γ : Type} (look : σ → Signature → γ)
    (step : σ → Signature × α → σ) (update : γ → Signature × α → γ)
    (touch : ∀ st e s, look (step st e) s = if e.1 = s then update (look st s) e else look st s)
    {l : List (Signature × α)} (h : l.Pairwise fun a b => a.1 < b.1) (st : σ) (s : Signature) :
    look (l.foldl step st) s =
      (l.find? fun e => e.1 = s).elim (look st s) (update (look st s)) := by
  induction l generalizing st with
  | nil => rfl
  | cons head rest ih =>
    obtain ⟨above, tail⟩ := List.pairwise_cons.1 h
    rw [List.foldl_cons, ih tail, List.find?_cons]
    by_cases hs : head.1 = s
    · have absent : rest.find? (fun e => e.1 = s) = none := by
        rw [List.find?_eq_none]
        intro e he hes
        have below := above e he
        rw [hs, of_decide_eq_true hes] at below
        exact Signature.lt_irrefl _ below
      simp [absent, hs, touch]
    · simp [hs, touch]

/-- The same for a pass over a table. -/
theorem foldl_lookup {σ γ : Type} (look : σ → Signature → γ)
    (step : σ → Signature × α → σ) (update : γ → Signature × α → γ)
    (touch : ∀ st e s, look (step st e) s = if e.1 = s then update (look st s) e else look st s)
    (m : SignatureMap α) (st : σ) (s : Signature) :
    look (m.toList.foldl step st) s =
      (m.find? s).elim (look st s) fun a => update (look st s) (s, a) := by
  rw [foldl_lookup_list look step update touch m.ascending]
  unfold find?
  cases hf : m.toList.find? (fun e => e.1 = s) with
  | none => rfl
  | some e =>
    have hs : e.1 = s := by simpa using List.find?_some hf
    subst hs
    rfl

end SignatureMap

end RoleComposition
