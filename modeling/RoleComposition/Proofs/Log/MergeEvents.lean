import RoleComposition.Proofs.Consultations

/-!
# What the merge of a type logs

A merge logs which candidates its hook rejects and which signatures are left with more than one,
signature by signature. What it logs is determined by the offers and the hook's answers: `minutes`
lists it for a whole merge, and `Cut` says what it is for a merge that is under way. Main
statements: `eq_map_byRule` (where each candidate is ruled on once, the answers can be read off the
rejected questions), `cut_of_rulings`, and `vetoed_tally` (the tally of a merge counts the
rejections).
-/

namespace RoleComposition

/-- The type whose composition an event belongs to. -/
def Event.subject? : Event → Option String
  | compositionStarted typeName _ | candidateVetoed typeName _ _ | compositionFinished typeName _ _
  | compositionFailed typeName _ | conflictDetected (.type typeName) _ _ => some typeName
  | _ => none

/-- The question that a rejection answers. -/
def Event.rejection? : Event → Option Question
  | candidateVetoed typeName role s => some ⟨typeName, s.level, role, s⟩
  | _ => none

/-- The entries of a type's composition. -/
def Engine.entriesOf (e : Engine) (name : String) : List LogEntry :=
  e.log.filter fun l => l.event.subject? == some name

/-- The questions of a list that the hook of a type was asked. -/
def about (name : String) (qs : List Question) : List Question :=
  qs.filter fun q => q.typeName == name

/-- The rule that keeps what has not been rejected. -/
def ruleOf (rejected : List Question) (name : String) : RoleId → Signature → Bool :=
  fun o s => !rejected.contains ⟨name, s.level, o, s⟩

/-! ## Rulings -/

/-- The candidates for a signature, each with the answer of a hook. -/
structure Ruling where
  signature : Signature
  answers : List (Candidate × Bool)

/-- The candidates that are kept. -/
def keptOf (answers : List (Candidate × Bool)) : List Candidate :=
  (answers.filter fun a => a.2).map Prod.fst

/-- The questions that are answered with a rejection. -/
def rejectedOf (name : String) (s : Signature) (answers : List (Candidate × Bool)) :
    List Question :=
  (answers.filter fun a => !a.2).map fun a => ⟨name, s.level, a.1.origin, s⟩

/-- What is logged about the answers. -/
def vetoesOf (name : String) (s : Signature) (answers : List (Candidate × Bool)) : List Event :=
  (answers.filter fun a => !a.2).map fun a => .candidateVetoed name a.1.origin s

/-- What is logged about the candidates that are left. -/
def conflictsOf (name : String) (s : Signature) : List Candidate → List Event
  | c :: c' :: cs =>
    [.conflictDetected (.type name) s (RoleId.sort ((c :: c' :: cs).map Candidate.origin))]
  | _ => []

namespace Ruling

/-- The offer that is ruled on. -/
def offer (r : Ruling) : Signature × List Candidate := (r.signature, r.answers.map Prod.fst)

/-- What is logged about a ruling. -/
def events (name : String) (r : Ruling) : List Event :=
  vetoesOf name r.signature r.answers ++ conflictsOf name r.signature (keptOf r.answers)

/-- The ruling on an offer by a rule. -/
def byRule (keep : RoleId → Signature → Bool) (offer : Signature × List Candidate) : Ruling :=
  ⟨offer.1, offer.2.map fun c => (c, keep c.origin offer.1)⟩

end Ruling

/-- Takes in a ruling. -/
def Tally.take (tally : Tally) (r : Ruling) : Tally :=
  tally.add r.signature r.answers.length (.ofSurvivors (keptOf r.answers))

/-! ## Minutes -/

/-- What is logged about the offers to a type when its hook answers by a rule: for each signature
the candidates that are rejected, and the conflict if more than one is left. -/
def minutesOf (name : String) (keep : RoleId → Signature → Bool)
    (offers : List (Signature × List Candidate)) : List Event :=
  (offers.map (Ruling.byRule keep)).flatMap (Ruling.events name)

/-- What a whole merge logs between its start and its end. -/
def Registry.minutes (reg : Registry) (config : Config) (t : AdoptingType)
    (keep : RoleId → Signature → Bool) : List Event :=
  match reg.check config t with
  | .error _ => []
  | .ok _ => minutesOf t.name keep (reg.offersTo t).toList

/-- What has been logged when the hook of a type is asked about a candidate: the minutes of the
signatures before, and the rejections among the candidates before. -/
def Registry.Cut (reg : Registry) (config : Config) (t : AdoptingType)
    (keep : RoleId → Signature → Bool) (events : List Event) : Prop :=
  reg.check config t = .ok () ∧ t.veto ≠ none ∧ ∃ before s asked c rest after,
    (reg.offersTo t).toList = before ++ (s, asked ++ c :: rest) :: after ∧
      events = minutesOf t.name keep before ++
        vetoesOf t.name s (asked.map fun c => (c, keep c.origin s))

/-! ## Rules from answers -/

theorem vetoesOf_append (name : String) (s : Signature)
    (answers answers' : List (Candidate × Bool)) :
    vetoesOf name s (answers ++ answers') =
      vetoesOf name s answers ++ vetoesOf name s answers' := by
  unfold vetoesOf
  rw [List.filter_append, List.map_append]

theorem rejections_vetoesOf (name : String) (s : Signature) (answers : List (Candidate × Bool)) :
    (vetoesOf name s answers).filterMap Event.rejection? = rejectedOf name s answers := by
  unfold vetoesOf rejectedOf
  rw [List.filterMap_map, ← List.filterMap_eq_map]
  rfl

theorem rejections_events (name : String) (r : Ruling) :
    (r.events name).filterMap Event.rejection? = rejectedOf name r.signature r.answers := by
  unfold Ruling.events
  rw [List.filterMap_append, rejections_vetoesOf]
  rcases keptOf r.answers with _ | ⟨c, _ | ⟨c', cs⟩⟩
  · simp [conflictsOf]
  · simp [conflictsOf]
  · simp [conflictsOf, Event.rejection?]

theorem rejections_flatMap_events (name : String) (rs : List Ruling) :
    (rs.flatMap (Ruling.events name)).filterMap Event.rejection? =
      rs.flatMap fun r => rejectedOf name r.signature r.answers := by
  rw [List.filterMap_flatMap]
  exact List.flatMap_congr fun r _ => rejections_events name r

theorem mem_rejectedOf {name : String} {s : Signature} {answers : List (Candidate × Bool)}
    {q : Question} : q ∈ rejectedOf name s answers ↔
      ∃ c, (c, false) ∈ answers ∧ q = ⟨name, s.level, c.origin, s⟩ := by
  unfold rejectedOf
  rw [List.mem_map]
  constructor
  · rintro ⟨⟨c, b⟩, ha, rfl⟩
    obtain ⟨ha, hb⟩ := List.mem_filter.1 ha
    have hfalse : b = false := by simpa using hb
    exact ⟨c, hfalse ▸ ha, rfl⟩
  · rintro ⟨c, hc, rfl⟩
    exact ⟨(c, false), List.mem_filter.2 ⟨hc, rfl⟩, rfl⟩

/-- The signatures of some offers with the roles that offer them. -/
def offeredPairs (offers : List (Signature × List Candidate)) : List (Signature × RoleId) :=
  offers.flatMap fun offer => offer.2.map fun c => (offer.1, c.origin)

/-- Each signature and origin is ruled on once. -/
def Distinct (rs : List Ruling) : Prop := (offeredPairs (rs.map Ruling.offer)).Nodup

theorem Distinct.answer_eq {rs : List Ruling} (h : Distinct rs) {r r' : Ruling} (hr : r ∈ rs)
    (hr' : r' ∈ rs) {c c' : Candidate} {b b' : Bool} (hb : (c, b) ∈ r.answers)
    (hb' : (c', b') ∈ r'.answers) (hs : r'.signature = r.signature)
    (ho : c'.origin = c.origin) : b' = b := by
  -- the answers as they are given, each under what it is given about
  let given : List ((Signature × RoleId) × Bool) :=
    rs.flatMap fun r => r.answers.map fun a => ((r.signature, a.1.origin), a.2)
  have hkeys : (given.map Prod.fst).Nodup := by
    have hmap : given.map Prod.fst = offeredPairs (rs.map Ruling.offer) := by
      simp only [given, offeredPairs, List.map_flatMap, List.flatMap_map, List.map_map,
        Ruling.offer]
      rfl
    rw [hmap]
    exact h
  have hgiven : ((r.signature, c.origin), b) ∈ given :=
    List.mem_flatMap.2 ⟨r, hr, List.mem_map.2 ⟨(c, b), hb, rfl⟩⟩
  have hgiven' : ((r'.signature, c'.origin), b') ∈ given :=
    List.mem_flatMap.2 ⟨r', hr', List.mem_map.2 ⟨(c', b'), hb', rfl⟩⟩
  have hsame := List.inj_on_of_nodup_map hkeys hgiven' hgiven (Prod.ext hs ho)
  exact (Prod.ext_iff.1 hsame).2

/-- Where each candidate is ruled on once, the answers follow the rule that keeps what has not been
rejected. -/
theorem eq_map_byRule {name : String} {rs : List Ruling} {rejected : List Question}
    (hdistinct : Distinct rs)
    (hrejected : ∀ o s, (⟨name, s.level, o, s⟩ : Question) ∈ rejected ↔
      ∃ r ∈ rs, (⟨name, s.level, o, s⟩ : Question) ∈ rejectedOf name r.signature r.answers) :
    rs = (rs.map Ruling.offer).map (Ruling.byRule (ruleOf rejected name)) := by
  have hrule {r : Ruling} (hr : r ∈ rs) {c : Candidate} {b : Bool} (hb : (c, b) ∈ r.answers) :
      ruleOf rejected name c.origin r.signature = b := by
    unfold ruleOf
    cases b with
    | false =>
      have hmem := (hrejected c.origin r.signature).2 ⟨r, hr, mem_rejectedOf.2 ⟨c, hb, rfl⟩⟩
      simp [hmem]
    | true =>
      have hnot : ¬ (⟨name, r.signature.level, c.origin, r.signature⟩ : Question) ∈ rejected := by
        intro hmem
        obtain ⟨r', hr', hq⟩ := (hrejected _ _).1 hmem
        obtain ⟨c', hc', heq⟩ := mem_rejectedOf.1 hq
        obtain ⟨-, -, ho, hs⟩ := Question.mk.inj heq
        cases hdistinct.answer_eq hr hr' hb hc' hs.symm ho.symm
      simp [hnot]
  rw [List.map_map]
  refine (List.map_id rs).symm.trans (List.map_congr_left fun r hr => ?_)
  have hanswers : r.answers =
      (r.answers.map Prod.fst).map fun c => (c, ruleOf rejected name c.origin r.signature) := by
    rw [List.map_map]
    exact (List.map_id _).symm.trans
      (List.map_congr_left fun a ha => Prod.ext rfl (hrule hr ha).symm)
  exact congrArg (Ruling.mk r.signature) hanswers

/-! ## Rulings on the offers to a type -/

theorem keptOf_byRule (keep : RoleId → Signature → Bool) (s : Signature) (cs : List Candidate) :
    keptOf (cs.map fun c => (c, keep c.origin s)) = Candidate.keptBy keep s cs := by
  unfold keptOf Candidate.keptBy
  rw [List.filter_map, List.map_map]
  exact List.map_id _

theorem Tally.take_byRule (keep : RoleId → Signature → Bool) (tally : Tally)
    (offer : Signature × List Candidate) :
    tally.take (Ruling.byRule keep offer) = tally.settle keep offer := by
  unfold take settle Ruling.byRule
  rw [keptOf_byRule, List.length_map]

theorem Tally.foldl_take_byRule (keep : RoleId → Signature → Bool) (tally : Tally)
    (offers : List (Signature × List Candidate)) :
    (offers.map (Ruling.byRule keep)).foldl take tally = offers.foldl (settle keep) tally := by
  rw [List.foldl_map]
  simp only [take_byRule]

namespace Registry

variable {reg : Registry} {config : Config} {t : AdoptingType}

/-- The hook of a type is asked about each signature and origin at most once. -/
theorem nodup_offersTo (h : ∀ via ∈ t.declaredRoles, reg.ResolvesWithin reg.size via) :
    (offeredPairs (reg.offersTo t).toList).Nodup := by
  refine List.nodup_flatMap.2 ⟨?_, ?_⟩
  · rintro ⟨s, cs⟩ hcs
    obtain ⟨-, -, rfl⟩ := (mem_offersTo h).1 hcs
    have hnodup : ((reg.candidatesFor t.declaredRoles s).map Candidate.origin).Nodup :=
      nodup_firstMet _
    refine List.Nodup.of_map Prod.snd ?_
    rw [List.map_map]
    exact hnodup
  · refine (reg.offersTo t).ascending.imp fun {a b} hlt => ?_
    intro p ha hb
    obtain ⟨c, -, rfl⟩ := List.mem_map.1 ha
    obtain ⟨c', -, heq⟩ := List.mem_map.1 hb
    have hs : b.1 = a.1 := (Prod.ext_iff.1 heq).1
    rw [hs] at hlt
    exact Signature.lt_irrefl _ hlt

section Rulings

variable {rejected : List Question} {rs : List Ruling}

/-- Rulings on some offers to a type that reject what has been rejected follow the rule. -/
theorem eq_map_byRule_of_sublist (hcheck : reg.check config t = .ok ())
    (hsub : (offeredPairs (rs.map Ruling.offer)).Sublist (offeredPairs (reg.offersTo t).toList))
    (hrejected : about t.name rejected =
      rs.flatMap fun r => rejectedOf t.name r.signature r.answers) :
    rs = (rs.map Ruling.offer).map (Ruling.byRule (ruleOf rejected t.name)) := by
  refine eq_map_byRule ((nodup_offersTo (resolvesWithin_of_check hcheck)).sublist hsub) ?_
  intro o s
  rw [← List.mem_flatMap, ← hrejected, about, List.mem_filter]
  simp

/-- What has been logged about all offers are the minutes. -/
theorem eq_map_byRule_of_offers (hcheck : reg.check config t = .ok ())
    (hoffers : rs.map Ruling.offer = (reg.offersTo t).toList)
    (hrejected : about t.name rejected =
      (rs.flatMap (Ruling.events t.name)).filterMap Event.rejection?) :
    rs = (reg.offersTo t).toList.map (Ruling.byRule (ruleOf rejected t.name)) := by
  rw [rejections_flatMap_events] at hrejected
  rw [← hoffers]
  exact eq_map_byRule_of_sublist hcheck (by rw [hoffers]) hrejected

/-- What has been logged about the first offers, and about the first candidates of the next one, is
a cut. -/
theorem cut_of_rulings {s : Signature} {answers : List (Candidate × Bool)} {c : Candidate}
    {rest : List Candidate} {after : List (Signature × List Candidate)}
    (hcheck : reg.check config t = .ok ()) (hveto : t.veto ≠ none)
    (hoffers : (reg.offersTo t).toList =
      rs.map Ruling.offer ++ (s, answers.map Prod.fst ++ c :: rest) :: after)
    (hrejected : about t.name rejected =
      (rs.flatMap (Ruling.events t.name) ++ vetoesOf t.name s answers).filterMap
        Event.rejection?) :
    reg.Cut config t (ruleOf rejected t.name)
      (rs.flatMap (Ruling.events t.name) ++ vetoesOf t.name s answers) := by
  have hsub : (offeredPairs ((rs ++ [Ruling.mk s answers]).map Ruling.offer)).Sublist
      (offeredPairs (reg.offersTo t).toList) := by
    rw [hoffers]
    simp [offeredPairs, Ruling.offer]
  have hrule := eq_map_byRule_of_sublist hcheck hsub (by
    rw [hrejected, List.filterMap_append, rejections_flatMap_events, rejections_vetoesOf,
      List.flatMap_append]
    simp)
  rw [List.map_append, List.map_append] at hrule
  obtain ⟨hrs, hlast⟩ := List.append_inj' hrule rfl
  have hanswers : answers =
      (answers.map Prod.fst).map fun c => (c, ruleOf rejected t.name c.origin s) :=
    congrArg Ruling.answers (List.cons.inj hlast).1
  refine ⟨hcheck, hveto, rs.map Ruling.offer, s, answers.map Prod.fst, c, rest, after, hoffers, ?_⟩
  rw [minutesOf, ← hrs, ← hanswers]

end Rulings

end Registry

/-! ## Counting rejections -/

theorem length_keptOf_add_length_rejectedOf (name : String) (s : Signature)
    (answers : List (Candidate × Bool)) :
    (keptOf answers).length + (rejectedOf name s answers).length = answers.length := by
  unfold keptOf rejectedOf
  rw [List.length_map, List.length_map, ← List.countP_eq_length_filter,
    ← List.countP_eq_length_filter, List.length_eq_countP_add_countP fun a => a.2]
  simp

/-- A decision leaves no more candidates than there are. -/
theorem Tally.vetoed_take (name : String) (tally : Tally) (r : Ruling) :
    (tally.take r).vetoed =
      tally.vetoed + (rejectedOf name r.signature r.answers).length := by
  have hlength := length_keptOf_add_length_rejectedOf name r.signature r.answers
  unfold take
  rcases hkept : keptOf r.answers with _ | ⟨c, _ | ⟨c', cs⟩⟩
  all_goals
    rw [hkept] at hlength
    simp only [Decision.ofSurvivors, add, List.length_nil, List.length_cons] at hlength ⊢
    omega

theorem vetoed_foldl_take (name : String) (rs : List Ruling) (tally : Tally) :
    (rs.foldl Tally.take tally).vetoed =
      tally.vetoed + ((rs.flatMap (Ruling.events name)).filterMap Event.rejection?).length := by
  rw [rejections_flatMap_events]
  induction rs generalizing tally with
  | nil => rfl
  | cons r rs ih =>
    rw [List.foldl_cons, ih, Tally.vetoed_take name, List.flatMap_cons, List.length_append]
    omega

/-- The tally of a merge counts the rejections. -/
theorem vetoed_tally (t : AdoptingType) (keep : RoleId → Signature → Bool) (offers : Offers) :
    (t.tally keep offers).vetoed =
      ((minutesOf t.name keep offers.toList).filterMap Event.rejection?).length := by
  rw [AdoptingType.tally, ← Tally.foldl_take_byRule, vetoed_foldl_take t.name]
  exact Nat.zero_add _

end RoleComposition
