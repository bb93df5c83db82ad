import RoleComposition.Json.Reader
import RoleComposition.Proofs.Deciding

/-!
# Fields of records

What a record's reader finds in an object that has exactly the fields of the record, in their order:
the value of each. Whatever it reads, it has found every field that may not be left out. Main
statements: `readFields_object` and `isSome_of_readFields`.
-/

namespace RoleComposition

namespace Json.Draft

theorem reject_ne_ok {α : Type} {d : Draft} {expected : String} {a : α} :
    d.reject expected ≠ .ok a := by
  intro h
  obtain ⟨_, -, h⟩ := exists_of_bind_eq_ok h
  cases h

/-- No field goes by the name of a later one. -/
def Distinct (fields : List Field) : Prop :=
  fields.Pairwise fun f g => (f.name == g.name || f.aliases.contains g.name) = false

instance (fields : List Field) : Decidable (Distinct fields) :=
  inferInstanceAs (Decidable (fields.Pairwise _))

/-- The members of an object that has exactly these fields. -/
def membersOf (fields : List Field) (ds : List Draft) : List (Option String × Draft) :=
  (fields.zip ds).map fun e => (some e.1.name, e.2)

variable {fields : List Field} {ds : List Draft} {found : Found}

theorem indexOf?_of_distinct {before after : List Field} {f : Field}
    (h : Distinct (before ++ f :: after)) :
    Field.indexOf? (before ++ f :: after) f.name = some before.length := by
  have hbefore : before.findIdx? (fun g => g.name == f.name || g.aliases.contains f.name) = none :=
    List.findIdx?_eq_none_iff.2 fun g hg =>
      (List.pairwise_append.1 h).2.2 g hg f List.mem_cons_self
  unfold Field.indexOf?
  rw [List.findIdx?_append, hbefore, List.findIdx?_cons]
  simp

theorem get?_cons (i j : Nat) (d : Draft) (found : Found) :
    Found.get? ((i, d) :: found) j = if i = j then some d else found.get? j := by
  unfold Found.get?
  by_cases h : i = j
  · simp [h]
  · rw [List.find?_cons_of_neg (by simpa using h), if_neg h]

/-- From a place on, each field is found where it is expected. -/
theorem takeMembers_membersOf {before after : List Field}
    (hdistinct : Distinct (before ++ after))
    (hcheck : List.Forall₂ (fun (f : Field) d => f.check d = .ok ()) after ds)
    (hfound : ∀ i, before.length ≤ i → found.get? i = none) :
    ∃ found', takeMembers (before ++ after) (membersOf after ds) found = .ok found' ∧
      ∀ i, found'.get? i = if i < before.length then found.get? i else ds[i - before.length]? := by
  induction hcheck generalizing before found with
  | nil =>
    refine ⟨found, rfl, fun i => ?_⟩
    split_ifs with hi
    · rfl
    · rw [hfound i (by omega)]
      rfl
  | @cons f d after ds hf _ ih =>
    have hlater : ∀ i, (before ++ [f]).length ≤ i →
        Found.get? ((before.length, d) :: found) i = none := by
      intro i hi
      rw [List.length_append, List.length_singleton] at hi
      rw [get?_cons, if_neg (by omega), hfound i (by omega)]
    have hdistinct' : Distinct ((before ++ [f]) ++ after) := by
      rwa [List.append_assoc, List.singleton_append]
    obtain ⟨found', htake, hget⟩ := ih hdistinct' hlater
    refine ⟨found', ?_, fun i => ?_⟩
    · have hfree : found.get? before.length = none := hfound _ (Nat.le_refl _)
      rw [List.append_assoc, List.singleton_append] at htake
      show takeMembers _ ((some f.name, d) :: membersOf after ds) found = _
      rw [takeMembers, indexOf?_of_distinct hdistinct]
      simpa [hfree, hf, bind, Except.bind] using htake
    · rw [hget, get?_cons, List.length_append, List.length_singleton]
      rcases Nat.lt_trichotomy i before.length with hi | rfl | hi
      · rw [if_pos (by omega), if_neg (by omega), if_pos hi]
      · simp
      · rw [if_neg (by omega), if_neg (by omega), ← List.getElem?_cons_succ]
        congr 1
        omega

/-- An object that has exactly the fields of a record is read: each field has its value. -/
theorem readFields_object (title : String) (hdistinct : Distinct fields)
    (hcheck : List.Forall₂ (fun (f : Field) d => f.check d = .ok ()) fields ds) :
    ∃ found, readFields title fields (.object (membersOf fields ds) true) = .ok found ∧
      ∀ i, found.get? i = ds[i]? := by
  have hnone : ∀ i, ([] : List Field).length ≤ i → Found.get? [] i = none := fun _ _ => rfl
  have hdistinct' : Distinct ([] ++ fields) := hdistinct
  obtain ⟨found, htake, hget⟩ := takeMembers_membersOf hdistinct' hcheck hnone
  replace hget : ∀ i, found.get? i = ds[i]? := fun i => by simpa using hget i
  refine ⟨found, ?_, hget⟩
  have hpresent : checkPresent fields found = .ok () := by
    refine forM_eq_ok.2 fun ⟨f, i⟩ hf => ?_
    have hi : i < ds.length := hcheck.length_eq ▸ (List.mem_zipIdx' hf).1
    simp [hget, List.getElem?_eq_getElem hi]
  show (takeMembers fields (membersOf fields ds) []).bind _ = _
  rw [show takeMembers fields (membersOf fields ds) [] = .ok found from htake]
  simp [Except.bind, bind, hpresent, pure, Except.pure]

theorem Found.read_eq {α : Type} {f : Draft → Read α} {i : Nat} {d : Draft} {a : α}
    (hd : found.get? i = some d) (ha : f d = .ok a) (default : α) :
    found.read i default f = .ok a := by
  unfold Found.read
  rw [hd]
  exact ha

/-! ## What was found -/

theorem isSome_get?_cons {i j : Nat} {d : Draft} (h : (found.get? j).isSome = true) :
    (Found.get? ((i, d) :: found) j).isSome = true := by
  rw [get?_cons]
  split_ifs
  · rfl
  · exact h

/-- What a list gives to the fields of a record: what was found before, and a value for each field
that may not be left out. -/
theorem isSome_of_takeItems {title : String} {count : Nat} {closed : Bool}
    {places : List (Field × Nat)} {items : List Draft} {found' : Found}
    (h : takeItems title count closed places items found = .ok found') :
    (∀ i, (found.get? i).isSome = true → (found'.get? i).isSome = true) ∧
      ∀ f i, (f, i) ∈ places → f.optional = false → (found'.get? i).isSome = true := by
  induction places generalizing items found with
  | nil =>
    cases items with
    | nil =>
      unfold takeItems at h
      split_ifs at h
      cases h
      exact ⟨fun _ => id, by simp⟩
    | cons _ _ => cases h
  | cons place places ih =>
    obtain ⟨f, i⟩ := place
    cases items with
    | nil =>
      unfold takeItems at h
      split_ifs at h with _ hoptional
      · obtain ⟨hkeep, hall⟩ := ih h
        refine ⟨hkeep, fun g j hg hrequired => ?_⟩
        rcases List.mem_cons.1 hg with heq | hg
        · cases heq
          rw [hoptional] at hrequired
          cases hrequired
        · exact hall g j hg hrequired
      · cases h
    | cons item items =>
      unfold takeItems at h
      cases hcheck : f.check item with
      | error error =>
        rw [hcheck] at h
        cases h
      | ok _ =>
        rw [hcheck] at h
        obtain ⟨hkeep, hall⟩ := ih h
        refine ⟨fun j hj => hkeep j (isSome_get?_cons hj), fun g j hg hrequired => ?_⟩
        rcases List.mem_cons.1 hg with heq | hg
        · cases heq
          exact hkeep i (by rw [get?_cons, if_pos rfl]; rfl)
        · exact hall g j hg hrequired

/-- A record that is read has every field that may not be left out. -/
theorem isSome_of_readFields {title : String} {d : Draft} {i : Nat} {f : Field}
    (h : readFields title fields d = .ok found) (hf : (f, i) ∈ fields.zipIdx)
    (hrequired : f.optional = false) : (found.get? i).isSome = true := by
  unfold readFields at h
  split at h
  · obtain ⟨found', -, h⟩ := exists_of_bind_eq_ok h
    split_ifs at h
    obtain ⟨_, hpresent, h⟩ := exists_of_bind_eq_ok h
    cases h
    have hfound := forM_eq_ok.1 hpresent (f, i) hf
    dsimp only at hfound
    split_ifs at hfound with hsome
    · simpa [hrequired] using hsome
    · cases hfound
  · exact (isSome_of_takeItems h).2 f i hf hrequired
  · exact absurd h reject_ne_ok

end Json.Draft

end RoleComposition
