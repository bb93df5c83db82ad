import RoleComposition.Proofs.Routes

/-!
# What an outcome depends on

A type comes to the same outcome over any two registries that hold the same for what it reaches,
whatever else they hold and in whatever order. If the roles that it reaches list what they compose
in another order, then its table is still the same, and so is an error that lists what is missing
or in conflict; only which role is named first by another error may change. Main statement:
`outcome_of_held`.
-/

namespace RoleComposition

/-- Both outcomes are the same table, or both are errors, which are equal if one of them lists
everything of its kind. -/
inductive SameUpToWalk : Outcome → Outcome → Prop
  | table {table : MethodTable} : SameUpToWalk (.ok table) (.ok table)
  | errors {error error' : CompositionError} :
      (error.lists = true ∨ error'.lists = true → error' = error) →
      SameUpToWalk (.error error) (.error error')

theorem foldlM_ext {m : Type → Type} [Monad m] {α β : Type} {f g : β → α → m β} {l : List α}
    (h : ∀ a ∈ l, ∀ b, f b a = g b a) (b : β) : l.foldlM f b = l.foldlM g b := by
  induction l generalizing b with
  | nil => rfl
  | cons a l ih =>
    obtain ⟨ha, hl⟩ := List.forall_mem_cons.1 h
    rw [List.foldlM_cons, List.foldlM_cons, ha b]
    exact bind_congr fun b' => ih hl b'

namespace Registry

variable {reg reg' : Registry} {config : Config} {t : AdoptingType}
  {keep : RoleId → Signature → Bool} {roots : List RoleId}

/-! ## Walks -/

/-- A walk looks up nothing but what it reaches, and the size of the registry does not end it. -/
theorem visit_eq_of_reaches {depth depth' : Nat} {path : List RoleId} {id : RoleId}
    {left : List RoleDefinition} (h : ∀ o, reg.Reaches id o → reg'.lookup o = reg.lookup o)
    (hp : reg.PathTo path id) (hp' : reg'.PathTo path id)
    (hdepth : reg.size ≤ path.length + depth) (hdepth' : reg'.size ≤ path.length + depth') :
    reg'.visit depth' path left id = reg.visit depth path left id := by
  induction depth generalizing depth' path id left with
  | zero =>
    unfold visit
    split_ifs with hleft hpath
    · rfl
    · rfl
    · rw [h id .refl]
      cases hd : reg.lookup id with
      | error error => rfl
      | ok d =>
        have hlen := hp.length_lt (by simpa using hpath) hd
        omega
  | succ depth ih =>
    unfold visit
    split_ifs with hleft hpath
    · rfl
    · rfl
    · rw [h id .refl]
      cases hd : reg.lookup id with
      | error error => rfl
      | ok d =>
        have hnew : id ∉ path := by simpa using hpath
        have hd' : reg'.lookup id = .ok d := (h id .refl).trans hd
        have hlen := hp'.length_lt hnew hd'
        cases depth' with
        | zero => omega
        | succ depth' =>
          have hbelow : d.composed.foldlM (reg'.visit depth' (path ++ [id])) left =
              d.composed.foldlM (reg.visit depth (path ++ [id])) left := by
            refine foldlM_ext (fun b hb left => ?_) left
            refine ih (fun o ho => h o (.head ⟨d, hd, hb⟩ ho)) (hp.snoc hnew hd hb)
              (hp'.snoc hnew hd' hb) ?_ ?_
            · rw [List.length_append, List.length_singleton]
              omega
            · rw [List.length_append, List.length_singleton]
              omega
          simp only [bind, Except.bind, hbelow]

/-- The order of what some roots reach, or why there is none, depends on nothing else. -/
theorem resolutionOrder_eq_of_reached
    (h : ∀ o, reg.ReachedFrom roots o → reg'.lookup o = reg.lookup o) :
    reg'.resolutionOrder roots = reg.resolutionOrder roots := by
  refine foldlM_ext (fun a ha left => ?_) []
  exact visit_eq_of_reaches (fun o ho => h o ⟨a, ha, ho⟩) ⟨.nil, by simp, by simp⟩
    ⟨.nil, by simp, by simp⟩ (by simp) (by simp)

theorem check_eq_of_reached
    (h : ∀ o, reg.ReachedFrom t.declaredRoles o → reg'.lookup o = reg.lookup o)
    (config : Config) :
    reg'.check config t = reg.check config t := by
  unfold check
  rw [resolutionOrder_eq_of_reached h]

/-! ## Tables -/

section Held

variable
  (h : ∀ o, reg.ReachedFrom t.declaredRoles o → HeldAlike (reg.lookup o) (reg'.lookup o))

include h

theorem firstReaching_iff_of_held {via o : RoleId} :
    reg'.FirstReaching t.declaredRoles via o ↔ reg.FirstReaching t.declaredRoles via o := by
  have hreaches {a : RoleId} (ha : a ∈ t.declaredRoles) : reg'.Reaches a o ↔ reg.Reaches a o :=
    reaches_iff_of_held h ⟨a, ha, .refl⟩
  refine exists_congr fun before => exists_congr fun after => and_congr_right fun hsplit => ?_
  refine and_congr (hreaches (by simp [hsplit])) (forall_congr' fun v => forall_congr' fun hv => ?_)
  exact not_congr (hreaches (by simp [hsplit, hv]))

/-- Each method of one table is a method of the other one, through the same declared role. -/
theorem Fits.get?_of_held {table table' : MethodTable} (hfits : reg.Fits t keep table)
    (hfits' : reg'.Fits t keep table') {s : Signature} {e : MethodEntry}
    (he : table.get? s = some e) : table'.get? s = some e := by
  have hsame := (Counterpart.of_held h).tantamount
  cases hs : t.owns s with
  | true =>
    obtain ⟨i, hi⟩ := SignatureMap.contains_iff.1 hs
    rw [hfits.own s i hi] at he
    rw [hfits'.own s i hi, he]
  | false =>
    obtain ⟨o, via, i, hkeeps, hunique, hvia, hprov, rfl⟩ := (hfits.role s hs e).1 he
    refine (hfits'.role s hs _).2 ⟨o, via, i, hsame.keeps hkeeps, fun o' ho' => ?_,
      (firstReaching_iff_of_held h).2 hvia, (h o hkeeps.reached).provides hprov, rfl⟩
    exact hunique o' (hsame.symm.keeps ho')

end Held

theorem Fits.eq_of_held {table table' : MethodTable}
    (h : ∀ o, reg.ReachedFrom t.declaredRoles o → HeldAlike (reg.lookup o) (reg'.lookup o))
    (hfits : reg.Fits t keep table) (hfits' : reg'.Fits t keep table') : table' = table := by
  have hentries : table'.entries = table.entries := by
    refine SignatureMap.ext_find? fun s => Option.ext fun e => ⟨?_, ?_⟩
    · exact Fits.get?_of_held (Counterpart.of_held h).symm.held hfits' hfits
    · exact Fits.get?_of_held h hfits hfits'
  obtain ⟨name, entries⟩ := table
  obtain ⟨name', entries'⟩ := table'
  cases hentries
  cases hfits.typeName.trans hfits'.typeName.symm
  rfl

/-! ## Outcomes -/

/-- Roles that list what they compose in another order lead to the same outcome, up to the walk. -/
theorem sameUpToWalk_of_held
    (h : ∀ o, reg.ReachedFrom t.declaredRoles o → HeldAlike (reg.lookup o) (reg'.lookup o))
    (config : Config) (keep : RoleId → Signature → Bool) :
    SameUpToWalk (reg.outcomeOf config t keep) (reg'.outcomeOf config t keep) := by
  obtain ⟨table, table', htable, htable'⟩ | ⟨error, error', herror, herror', hequal⟩ :=
    outcomes_of_tantamount (Counterpart.of_held h).tantamount config keep
  · rw [htable, htable', Fits.eq_of_held h (fits_of_outcomeOf htable) (fits_of_outcomeOf htable')]
    exact .table
  · rw [herror, herror']
    exact .errors hequal

/-- Past the checks, an error lists the conflicts. -/
theorem lists_of_check_eq_ok {error : CompositionError} (hcheck : reg.check config t = .ok ())
    (herror : reg.outcomeOf config t keep = .error error) : error.lists = true := by
  rw [outcomeOf_of_check_eq_ok hcheck] at herror
  unfold AdoptingType.outcomeOfTally at herror
  split_ifs at herror
  cases herror
  rfl

/-- The same definitions lead to the same outcome. -/
theorem outcomeOf_eq_of_reached
    (h : ∀ o, reg.ReachedFrom t.declaredRoles o → reg'.lookup o = reg.lookup o)
    (config : Config) (keep : RoleId → Signature → Bool) :
    reg'.outcomeOf config t keep = reg.outcomeOf config t keep := by
  have hcheck := check_eq_of_reached h config
  have hheld : ∀ o, reg.ReachedFrom t.declaredRoles o →
      HeldAlike (reg.lookup o) (reg'.lookup o) := by
    intro o ho
    rw [h o ho]
    exact .refl _
  cases hok : reg.check config t with
  | error error =>
    rw [outcomeOf_of_check_eq_error hok, outcomeOf_of_check_eq_error (hcheck.trans hok)]
  | ok _ =>
    have hsame := sameUpToWalk_of_held hheld config keep
    have hlists (error : CompositionError) : reg.outcomeOf config t keep = .error error →
        error.lists = true := lists_of_check_eq_ok hok
    generalize reg.outcomeOf config t keep = outcome at hsame hlists
    generalize reg'.outcomeOf config t keep = outcome' at hsame
    cases hsame with
    | table => rfl
    | errors hequal => rw [hequal (.inl (hlists _ rfl))]

end Registry

/-- A type comes to the same outcome over registries that hold the same for what it reaches. Where
the roles that it reaches list what they compose in another order, it comes to the same table, or
to an error over both, the same if one lists what is missing or in conflict. -/
theorem outcome_of_held {b b' : RegistryBuilder} {config : Config} {m m' : Moment}
    {t t' : TypeEntry} {keep : RoleId → Signature → Bool} (hdef : t'.definition = t.definition)
    (h : Poised b config m t keep) (h' : Poised b' config m' t' keep) :
    ∃ outcome outcome' e e', m.compose t.definition.name = (.ok outcome, e) ∧
      m'.compose t.definition.name = (.ok outcome', e') ∧
      ((∀ o, b.freeze.ReachedFrom t.definition.declaredRoles o →
          b'.freeze.lookup o = b.freeze.lookup o) → outcome' = outcome) ∧
      ((∀ o, b.freeze.ReachedFrom t.definition.declaredRoles o →
          HeldAlike (b.freeze.lookup o) (b'.freeze.lookup o)) → SameUpToWalk outcome outcome') := by
  obtain ⟨e, hrun⟩ := h.compose
  obtain ⟨e', hrun'⟩ := h'.compose
  rw [hdef] at hrun'
  exact ⟨_, _, e, e', hrun, hrun', fun hsame => Registry.outcomeOf_eq_of_reached hsame config keep,
    fun hheld => Registry.sameUpToWalk_of_held hheld config keep⟩

namespace Sample

/-- A role that composes others, in that order. -/
def crew (composed : List RoleId) : RoleDefinition :=
  { RoleDefinition.named ⟨"crew"⟩ with composed }

/-- A registry of nothing but the crew and the roles that it composes. -/
def bareCrew : RegistryBuilder := { roles := [greeting, staying, crew [greeting.id, staying.id]] }

/-- The same roles and one more, registered in another order. -/
def mixedCrew (composed : List RoleId) : RegistryBuilder :=
  { roles := [crew composed, parting, staying, greeting] }

/-- A type that adopts the crew, and one role of it once more. -/
def captain : AdoptingType := { name := "captain", declaredRoles := [⟨"crew"⟩, greeting.id] }

/-- That type over a registry, at a moment before it is composed. -/
def boarding (b : RegistryBuilder) : Moment :=
  .between { Engine.new b.freeze {} with types := [{ definition := captain }] }

theorem poised_captain (b : RegistryBuilder) :
    Poised b {} (boarding b) { definition := captain } fun _ _ => true :=
  .of_alone_of_veto_eq_none rfl

theorem mem_of_reachedFrom_captain {o : RoleId}
    (ho : bareCrew.freeze.ReachedFrom captain.declaredRoles o) :
    o ∈ [greeting.id, staying.id, ⟨"crew"⟩] := by
  have horder : (bareCrew.freeze.resolutionOrder captain.declaredRoles).isOk = true := by
    decide +kernel
  cases hresolved : bareCrew.freeze.resolutionOrder captain.declaredRoles with
  | error error =>
    rw [hresolved] at horder
    cases horder
  | ok order =>
    have hids : bareCrew.freeze.ids = [greeting.id, staying.id, ⟨"crew"⟩] := by decide +kernel
    obtain ⟨d, hd⟩ := (Registry.resolvesWithin_of_reachedFrom hresolved ho).registered
    rw [← hids]
    exact Registry.mem_ids_of_lookup hd

end Sample

/-- A role more, another order of registration and another order of what the crew composes: none of
them changes the table. -/
theorem outcome_of_held_crew :
    ∃ table e e' e'',
      (Sample.boarding Sample.bareCrew).compose "captain" = (.ok (.ok table), e) ∧
      (Sample.boarding (Sample.mixedCrew [Sample.greeting.id, Sample.staying.id])).compose
        "captain" = (.ok (.ok table), e') ∧
      (Sample.boarding (Sample.mixedCrew [Sample.staying.id, Sample.greeting.id])).compose
        "captain" = (.ok (.ok table), e'') := by
  have hbare := Sample.poised_captain Sample.bareCrew
  obtain ⟨outcome, outcome', e, e', hrun, hrun', hequal, -⟩ := outcome_of_held rfl hbare
    (Sample.poised_captain (Sample.mixedCrew [Sample.greeting.id, Sample.staying.id]))
  obtain ⟨outcome₁, outcome'', e₁, e'', hrun₁, hrun'', -, hsame⟩ := outcome_of_held rfl hbare
    (Sample.poised_captain (Sample.mixedCrew [Sample.staying.id, Sample.greeting.id]))
  rw [hrun] at hrun₁
  cases hrun₁
  have hlookup : outcome' = outcome := hequal fun o ho => by
    have hmem := Sample.mem_of_reachedFrom_captain ho
    simp only [List.mem_cons, List.not_mem_nil, or_false] at hmem
    rcases hmem with rfl | rfl | rfl <;> rfl
  have hwalk : SameUpToWalk outcome outcome'' := hsame fun o ho => by
    have hmem := Sample.mem_of_reachedFrom_captain ho
    simp only [List.mem_cons, List.not_mem_nil, or_false] at hmem
    rcases hmem with rfl | rfl | rfl
    · show HeldAlike (.ok Sample.greeting) (.ok Sample.greeting)
      exact .refl _
    · show HeldAlike (.ok Sample.staying) (.ok Sample.staying)
      exact .refl _
    · show HeldAlike (.ok (Sample.crew [Sample.greeting.id, Sample.staying.id]))
        (.ok (Sample.crew [Sample.staying.id, Sample.greeting.id]))
      exact .registered ⟨.swap _ _ [], rfl⟩
  have hok : ((Sample.boarding Sample.bareCrew).compose "captain").1.map Except.isOk =
      .ok true := by
    decide +kernel
  replace hrun : (Sample.boarding Sample.bareCrew).compose "captain" = (.ok outcome, e) := hrun
  rw [hrun] at hok
  cases hwalk with
  | errors _ => cases hok
  | table => exact ⟨_, e, e', e'', hrun, hlookup ▸ hrun', hrun''⟩

end RoleComposition
