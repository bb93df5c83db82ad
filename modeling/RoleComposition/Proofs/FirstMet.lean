import Mathlib.Data.List.Induction
import Mathlib.Data.List.Nodup
import RoleComposition.Engine.Resolution

/-!
# Keeping what is met first

Offers and candidates are gathered by one rule: of the elements with one key, the one that is met
first stays. Main statements: `keepNew_keepNew` (a list that has been thinned out before counts the
same) and `mem_firstMet` (an element stays iff nothing in front of it has its key).
-/

namespace RoleComposition

variable {α κ : Type}

/-- Where an element can stand in a list: in front, or further on. -/
theorem exists_cons_eq_append_cons {a b : α} {l : List α} {P : List α → Prop} :
    (∃ before after, b :: l = before ++ a :: after ∧ P before) ↔
      a = b ∧ P [] ∨ ∃ before after, l = before ++ a :: after ∧ P (b :: before) := by
  constructor
  · rintro ⟨_ | ⟨c, before⟩, after, hl, hp⟩
    · cases hl
      exact .inl ⟨rfl, hp⟩
    · cases hl
      exact .inr ⟨before, after, rfl, hp⟩
  · rintro (⟨rfl, hp⟩ | ⟨before, after, rfl, hp⟩)
    · exact ⟨[], l, rfl, hp⟩
    · exact ⟨b :: before, after, rfl, hp⟩

/-- If no two elements share a key, and yet all have the same, there is one at most. -/
theorem eq_nil_or_eq_singleton {key : α → κ} {l : List α} (hnodup : (l.map key).Nodup)
    (h : ∀ a ∈ l, ∀ b ∈ l, key a = key b) : l = [] ∨ ∃ a, l = [a] := by
  rcases l with _ | ⟨a, _ | ⟨b, l⟩⟩
  · exact .inl rfl
  · exact .inr ⟨a, rfl⟩
  · have hab := h a List.mem_cons_self b (List.mem_cons_of_mem _ List.mem_cons_self)
    rw [List.map_cons, List.map_cons, List.nodup_cons] at hnodup
    exact absurd (hab ▸ List.mem_cons_self) hnodup.1

variable [DecidableEq κ]

/-- Adds to some elements those whose key is not among theirs yet. -/
def keepNew (key : α → κ) (held offered : List α) : List α :=
  offered.foldl (fun held a => if held.any fun c => key c == key a then held else held ++ [a]) held

/-- The elements of a list whose key has not been met before. -/
def firstMet (key : α → κ) (l : List α) : List α := keepNew key [] l

variable {key : α → κ}

@[simp] theorem keepNew_nil (held : List α) : keepNew key held [] = held := rfl

theorem keepNew_cons (held : List α) (a : α) (l : List α) :
    keepNew key held (a :: l) =
      if key a ∈ held.map key then keepNew key held l else keepNew key (held ++ [a]) l := by
  have h : (held.any fun c => key c == key a) = true ↔ key a ∈ held.map key := by simp
  unfold keepNew
  rw [List.foldl_cons]
  by_cases ha : key a ∈ held.map key
  · rw [if_pos (h.2 ha), if_pos ha]
  · rw [if_neg (mt h.1 ha), if_neg ha]

theorem keepNew_append (held l l' : List α) :
    keepNew key held (l ++ l') = keepNew key (keepNew key held l) l' :=
  List.foldl_append

/-- The keys that are held afterwards. -/
theorem mem_keys_keepNew {k : κ} {held l : List α} :
    k ∈ (keepNew key held l).map key ↔ k ∈ held.map key ∨ k ∈ l.map key := by
  induction l generalizing held with
  | nil => simp
  | cons a l ih =>
    rw [keepNew_cons, List.map_cons, List.mem_cons]
    split_ifs with ha
    · rw [ih]
      constructor
      · rintro (h | h)
        · exact .inl h
        · exact .inr (.inr h)
      · rintro (h | rfl | h)
        · exact .inl h
        · exact .inl ha
        · exact .inr h
    · rw [ih, List.map_append, List.mem_append, or_assoc]
      simp

/-- Thinning out a list before its elements are added changes nothing. -/
theorem keepNew_keepNew (held acc l : List α) :
    keepNew key held (keepNew key acc l) = keepNew key (keepNew key held acc) l := by
  induction l generalizing acc with
  | nil => rfl
  | cons a l ih =>
    rw [keepNew_cons acc]
    split_ifs with ha
    · rw [ih, keepNew_cons, if_pos (mem_keys_keepNew.2 (.inr ha))]
    · rw [ih, keepNew_append]
      rfl

theorem keepNew_firstMet (held l : List α) :
    keepNew key held (firstMet key l) = keepNew key held l :=
  keepNew_keepNew held [] l

/-- Each key is held once. -/
theorem nodup_keepNew {held l : List α} (h : (held.map key).Nodup) :
    ((keepNew key held l).map key).Nodup := by
  induction l generalizing held with
  | nil => exact h
  | cons a l ih =>
    rw [keepNew_cons]
    split_ifs with ha
    · exact ih h
    · refine ih ?_
      rw [List.map_append, List.nodup_append]
      refine ⟨h, by simp, ?_⟩
      rintro k hk k' hk' rfl
      rw [List.map_cons, List.map_nil, List.mem_singleton] at hk'
      exact ha (hk' ▸ hk)

theorem nodup_firstMet (l : List α) : ((firstMet key l).map key).Nodup :=
  nodup_keepNew List.nodup_nil

theorem mem_keepNew {held l : List α} {a : α} :
    a ∈ keepNew key held l ↔
      a ∈ held ∨ ∃ before after, l = before ++ a :: after ∧
        key a ∉ held.map key ∧ key a ∉ before.map key := by
  induction l generalizing held with
  | nil => simp
  | cons b l ih =>
    rw [keepNew_cons, exists_cons_eq_append_cons]
    split_ifs with hb
    · rw [ih]
      refine or_congr_right ⟨fun h => .inr ?_, ?_⟩
      · obtain ⟨before, after, hl, ha, hbefore⟩ := h
        refine ⟨before, after, hl, ha, ?_⟩
        rw [List.map_cons, List.mem_cons, not_or]
        exact ⟨fun hab => ha (hab ▸ hb), hbefore⟩
      · rintro (⟨rfl, ha, -⟩ | ⟨before, after, hl, ha, hbefore⟩)
        · exact absurd hb ha
        · exact ⟨before, after, hl, ha, fun h => hbefore (List.mem_cons_of_mem _ h)⟩
    · rw [ih, List.mem_append, List.mem_singleton, or_assoc]
      refine or_congr_right (or_congr ?_ ?_)
      · constructor
        · rintro rfl
          exact ⟨rfl, hb, List.not_mem_nil⟩
        · exact fun h => h.1
      · simp only [List.map_append, List.map_cons, List.map_nil, List.mem_append, List.mem_cons,
          List.not_mem_nil, or_false, not_or, and_assoc]

/-- An element stays iff nothing in front of it has its key. -/
theorem mem_firstMet {l : List α} {a : α} :
    a ∈ firstMet key l ↔
      ∃ before after, l = before ++ a :: after ∧ key a ∉ before.map key := by
  rw [firstMet, mem_keepNew]
  simp

theorem mem_of_mem_firstMet {l : List α} {a : α} (h : a ∈ firstMet key l) : a ∈ l := by
  obtain ⟨before, after, rfl, -⟩ := mem_firstMet.1 h
  simp

theorem mem_keys_firstMet {l : List α} {k : κ} :
    k ∈ (firstMet key l).map key ↔ k ∈ l.map key := by
  rw [firstMet, mem_keys_keepNew]
  simp

/-- Elements can be thinned out before or after they are turned into others with the same keys. -/
theorem map_keepNew {β : Type} {key' : β → κ} {f : α → β} (hf : ∀ a, key' (f a) = key a)
    (held l : List α) :
    (keepNew key held l).map f = keepNew key' (held.map f) (l.map f) := by
  have hkeys (held : List α) : (held.map f).map key' = held.map key := by
    rw [List.map_map]
    exact List.map_congr_left fun a _ => hf a
  induction l generalizing held with
  | nil => rfl
  | cons a l ih =>
    rw [List.map_cons, keepNew_cons, keepNew_cons, hkeys, hf]
    split_ifs with ha
    · exact ih held
    · rw [ih, List.map_append]
      rfl

theorem map_firstMet {β : Type} {key' : β → κ} {f : α → β} (hf : ∀ a, key' (f a) = key a)
    (l : List α) : (firstMet key l).map f = firstMet key' (l.map f) :=
  map_keepNew hf [] l

/-- What comes later stays if its key has not been met before. -/
theorem mem_firstMet_append {l l' : List α} {a : α} :
    a ∈ firstMet key (l ++ l') ↔
      a ∈ firstMet key l ∨ key a ∉ l.map key ∧ a ∈ firstMet key l' := by
  rw [firstMet, keepNew_append, mem_keepNew, mem_firstMet (l := l')]
  refine or_congr_right ?_
  constructor
  · rintro ⟨before, after, hl, ha, hbefore⟩
    exact ⟨fun h => ha (mem_keys_firstMet.2 h), before, after, hl, hbefore⟩
  · rintro ⟨ha, before, after, hl, hbefore⟩
    exact ⟨before, after, hl, fun h => ha (mem_keys_firstMet.1 h), hbefore⟩

/-- What is held stays in front, and what is new comes in the order in which it is met. -/
theorem keepNew_eq_append (held l : List α) :
    keepNew key held l = held ++ (firstMet key l).filter fun a => key a ∉ held.map key := by
  induction l using List.reverseRecOn with
  | nil => simp [firstMet]
  | append_singleton l a ih =>
    have hmet : key a ∈ (keepNew key held l).map key ↔
        key a ∈ held.map key ∨ key a ∈ (firstMet key l).map key := by
      rw [mem_keys_keepNew, mem_keys_firstMet]
    have hlast (held : List α) : keepNew key held [a] =
        if key a ∈ held.map key then held else held ++ [a] := by
      rw [keepNew_cons, keepNew_nil, keepNew_nil]
    have hnew : ([a].filter fun a => decide (key a ∉ held.map key)) =
        if key a ∈ held.map key then [] else [a] := by
      by_cases hheld : key a ∈ held.map key <;> simp only [hheld, List.filter_cons] <;> simp
    rw [firstMet, keepNew_append, keepNew_append, ← firstMet, hlast, hlast]
    by_cases hold : key a ∈ (firstMet key l).map key
    · rw [if_pos (hmet.2 (.inr hold)), if_pos hold, ih]
    · rw [if_neg hold, List.filter_append, hnew]
      by_cases hheld : key a ∈ held.map key
      · rw [if_pos (hmet.2 (.inl hheld)), if_pos hheld, ih, List.append_nil]
      · rw [if_neg (mt hmet.1 (not_or.2 ⟨hheld, hold⟩)), if_neg hheld, ih, List.append_assoc]

/-- Where no two elements share a key, all stay. -/
theorem mem_firstMet_of_inj {l : List α} (h : ∀ a ∈ l, ∀ b ∈ l, key a = key b → a = b) {a : α} :
    a ∈ firstMet key l ↔ a ∈ l := by
  refine ⟨mem_of_mem_firstMet, fun ha => ?_⟩
  have hmem : key a ∈ (firstMet key l).map key := mem_keys_firstMet.2 (List.mem_map_of_mem ha)
  obtain ⟨b, hb, hkey⟩ := List.mem_map.1 hmem
  rwa [← h b (mem_of_mem_firstMet hb) a ha hkey]

theorem firstMet_eq_nil {l : List α} : firstMet key l = [] ↔ l = [] := by
  constructor
  · intro h
    cases l with
    | nil => rfl
    | cons a l =>
      have ha : key a ∈ (firstMet key (a :: l)).map key := mem_keys_firstMet.2 (by simp)
      rw [h] at ha
      simp at ha
  · rintro rfl
    rfl

/-- What some keys give, each at most one element with that key, stays in the order in which the
keys are first met. -/
theorem pairwise_firstMet_filterMap {f : κ → Option α} (hf : ∀ k a, f k = some a → key a = k)
    (l : List κ) :
    (firstMet key (l.filterMap f)).Pairwise fun a b => l.idxOf (key a) < l.idxOf (key b) := by
  have mem_of_mem {l : List κ} {a : α} (ha : a ∈ firstMet key (l.filterMap f)) : key a ∈ l := by
    obtain ⟨k, hk, hka⟩ := List.mem_filterMap.1 (mem_of_mem_firstMet ha)
    rw [hf k a hka]
    exact hk
  induction l using List.reverseRecOn with
  | nil => exact .nil
  | append_singleton l k ih =>
    -- the elements that there are stand where they stood before
    have hold : (firstMet key (l.filterMap f)).Pairwise fun a b =>
        (l ++ [k]).idxOf (key a) < (l ++ [k]).idxOf (key b) := by
      refine List.Pairwise.imp_of_mem (fun {a b} ha hb hab => ?_) ih
      rw [List.idxOf_append_of_mem (mem_of_mem ha), List.idxOf_append_of_mem (mem_of_mem hb)]
      exact hab
    rw [List.filterMap_append, firstMet, keepNew_append]
    cases hk : f k with
    | none =>
      rw [show [k].filterMap f = [] by simp [hk], keepNew_nil]
      exact hold
    | some a =>
      have hkey := hf k a hk
      rw [show [k].filterMap f = [a] by simp [hk], keepNew_cons, keepNew_nil]
      split_ifs with hmet
      · exact hold
      · refine List.pairwise_append.2 ⟨hold, List.pairwise_singleton _ _, fun b hb c hc => ?_⟩
        have hnew : k ∉ l := by
          intro hmem
          refine hmet (mem_keys_firstMet.2 (List.mem_map.2 ⟨a, ?_, rfl⟩))
          exact List.mem_filterMap.2 ⟨k, hmem, hk⟩
        have hb' := mem_of_mem hb
        rw [List.mem_singleton.1 hc, hkey, List.idxOf_append_of_mem hb',
          List.idxOf_append_of_notMem hnew]
        have hlt := List.idxOf_lt_length_of_mem hb'
        omega

/-- Offers are gathered by their origin. -/
theorem RoleClosure.addOffers_eq (held offered : List ClosureEntry) :
    RoleClosure.addOffers held offered = keepNew ClosureEntry.origin held offered :=
  rfl

/-- An offer of a closure that is reached through a declared role. -/
def ClosureEntry.through (via : RoleId) (e : ClosureEntry) : Candidate :=
  ⟨e.origin, via, e.implementation⟩

/-- Candidates are gathered by their origin. -/
theorem Offers.addCandidates_eq (via : RoleId) (held : List Candidate)
    (offered : List ClosureEntry) :
    Offers.addCandidates via held offered =
      keepNew Candidate.origin held (offered.map (ClosureEntry.through via)) := by
  rw [keepNew, List.foldl_map]
  rfl

/-- Candidates of a closure that has been thinned out are those of what it was made of. -/
theorem firstMet_map_through (via : RoleId) (l : List ClosureEntry) :
    (firstMet ClosureEntry.origin l).map (ClosureEntry.through via) =
      firstMet Candidate.origin (l.map (ClosureEntry.through via)) := by
  have same (e : ClosureEntry) : (e.through via).origin = e.origin := rfl
  exact map_firstMet same l

end RoleComposition
