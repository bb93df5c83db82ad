import RoleComposition.Proofs.Addresses
import RoleComposition.Proofs.Reordering

/-!
# Digests and the order of declared roles

The digest of a table takes in the declared role through which each method comes. This is the first
one that reaches the method's role, and so it depends on the order of the declared roles as soon as
two of them reach the same role. The order does not change the digest exactly if it changes none of
these. Main statement: `provenanceBytes_eq_iff_of_perm`.
-/

namespace RoleComposition

/-- With the roles declared in that order, the methods of the table would come through the same
declared roles. -/
def Registry.SameRoutes (reg : Registry) (roles : List RoleId) (table : MethodTable) : Prop :=
  ∀ s i o via, table.get? s = some ⟨i, .role o via⟩ → reg.FirstReaching roles via o

/-- The role in between, if there is one, has a name without line breaks. -/
def Provider.OneLine (p : Provider) : Prop :=
  ∀ origin via, p = .role origin via → '\n' ∉ via.name.toList

namespace Registry

variable {reg : Registry} {declared : List RoleId} {t t' : AdoptingType}
  {keep : RoleId → Signature → Bool} {table table' : MethodTable}

theorem FirstReaching.unique {via via' o : RoleId} (h : reg.FirstReaching declared via o)
    (h' : reg.FirstReaching declared via' o) : via = via' := by
  induction declared with
  | nil =>
    obtain ⟨before, after, hnil, -⟩ := h
    simp at hnil
  | cons v declared ih =>
    rcases firstReaching_cons.1 h with ⟨rfl, hreach⟩ | ⟨hnot, hrest⟩
    · rcases firstReaching_cons.1 h' with ⟨rfl, -⟩ | ⟨hnot', -⟩
      · rfl
      · exact absurd hreach hnot'
    · rcases firstReaching_cons.1 h' with ⟨rfl, hreach'⟩ | ⟨-, hrest'⟩
      · exact absurd hreach' hnot
      · exact ih hrest hrest'

/-- What comes from a role comes through the first declared role that reaches it. -/
theorem Fits.firstReaching (h : reg.Fits t keep table) {s : Signature} {i : Implementation}
    {o via : RoleId} (hs : table.get? s = some ⟨i, .role o via⟩) :
    reg.FirstReaching t.declaredRoles via o := by
  cases howns : t.owns s with
  | true =>
    obtain ⟨i', hi'⟩ := SignatureMap.contains_iff.1 howns
    rw [h.own s i' hi'] at hs
    cases hs
  | false =>
    obtain ⟨o', via', i', -, -, hfirst, -, heq⟩ := (h.role s howns _).1 hs
    cases heq
    exact hfirst

/-- Alike types have the same providers exactly if their methods come through the same declared
roles. -/
theorem Fits.providers_eq_iff (h : reg.Alike t t') (hfits : reg.Fits t keep table)
    (hfits' : reg.Fits t' keep table') :
    table'.providers = table.providers ↔ reg.SameRoutes t'.declaredRoles table := by
  have hsame := Fits.sameUpToVia h hfits hfits'
  constructor
  · intro heq s i o via hs
    have hp : (table'.get? s).map MethodEntry.provider = some (.role o via) := by
      rw [← MethodTable.find?_providers, heq, MethodTable.find?_providers, hs]
      rfl
    obtain ⟨⟨i', p⟩, he', hp'⟩ := Option.map_eq_some_iff.1 hp
    replace hp' : p = .role o via := hp'
    exact hfits'.firstReaching (hp' ▸ he')
  · intro hroutes
    refine SignatureMap.ext_find? fun s => ?_
    rw [MethodTable.find?_providers, MethodTable.find?_providers]
    cases hs : table.get? s with
    | none =>
      have hnone := hsame.source s
      rw [hs, Option.map_none, Option.map_eq_none_iff] at hnone
      rw [hnone]
    | some e =>
      obtain ⟨⟨i', p'⟩, he', hsource⟩ := Fits.exists_source h.tantamount hfits hfits' hs
      obtain ⟨i, p⟩ := e
      have horigin : p'.origin? = p.origin? := congrArg Prod.fst hsource
      rw [he']
      cases p with
      | own =>
        cases p' with
        | own => rfl
        | role o' via' => cases horigin
      | role o via =>
        cases p' with
        | own => cases horigin
        | role o' via' =>
          cases horigin
          rw [(hroutes s i _ via hs).unique (hfits'.firstReaching he')]
          rfl

end Registry

/-! ## Lines of the same origins -/

namespace MethodTable

variable {table table' : MethodTable}

/-- With the signature and the origin known, a line can be read if the role in between breaks no
line. -/
theorem line_append_inj {s : Signature} {p p' : Provider} {rest rest' : List Char}
    (horigin : p.origin? = p'.origin?) (h : p.OneLine) (h' : p'.OneLine)
    (heq : line (s, p) ++ '\n' :: rest = line (s, p') ++ '\n' :: rest') :
    p = p' ∧ rest = rest' := by
  cases p with
  | own =>
    cases p' with
    | own => exact ⟨rfl, List.tail_eq_of_cons_eq (List.append_cancel_left heq)⟩
    | role o' via' => cases horigin
  | role o via =>
    cases p' with
    | own => cases horigin
    | role o' via' =>
      cases horigin
      simp only [line_role, List.append_assoc, List.cons_append, List.append_cancel_left_eq,
        List.cons.injEq, true_and] at heq
      obtain ⟨hroute, hrest⟩ := append_cons_inj (Provider.newline_notMem_route (h _ _ rfl))
        (Provider.newline_notMem_route (h' _ _ rfl)) heq
      rw [Provider.route_inj hroute]
      exact ⟨rfl, hrest⟩

theorem flatMap_line_inj_of_origins {es es' : List (Signature × Provider)}
    (hkeys : (es.map fun e => (e.1, e.2.origin?)) = es'.map fun e => (e.1, e.2.origin?))
    (h : ∀ e ∈ es, e.2.OneLine) (h' : ∀ e ∈ es', e.2.OneLine)
    (heq : (es.flatMap fun e => line e ++ ['\n']) = es'.flatMap fun e => line e ++ ['\n']) :
    es = es' := by
  induction es generalizing es' with
  | nil => exact (List.map_eq_nil_iff.1 hkeys.symm).symm
  | cons e es ih =>
    cases es' with
    | nil => cases hkeys
    | cons e' es' =>
      obtain ⟨s, p⟩ := e
      obtain ⟨s', p'⟩ := e'
      obtain ⟨hp, hrest⟩ := List.forall_mem_cons.1 h
      obtain ⟨hp', hrest'⟩ := List.forall_mem_cons.1 h'
      obtain ⟨hkey, hkeysRest⟩ := List.cons.inj hkeys
      obtain ⟨hs, horigin⟩ := Prod.ext_iff.1 hkey
      replace hs : s = s' := hs
      subst hs
      simp only [List.flatMap_cons, List.append_assoc, List.singleton_append] at heq
      obtain ⟨rfl, hlines⟩ := line_append_inj horigin hp hp' heq
      rw [ih hkeysRest hrest hrest' hlines]

/-- Tables that agree up to the roles in between, which break no line, are told apart by the
bytes. -/
theorem SameUpToVia.provenanceBytes_inj (h : table.SameUpToVia table')
    (hline : ∀ e ∈ table.providers.toList, e.2.OneLine)
    (hline' : ∀ e ∈ table'.providers.toList, e.2.OneLine)
    (heq : table'.provenanceBytes = table.provenanceBytes) :
    table'.providers = table.providers := by
  have horigins : (table'.providers.map fun _ p => p.origin?) =
      table.providers.map fun _ p => p.origin? := by
    refine SignatureMap.ext_find? fun s => ?_
    have hsource := congrArg (Option.map Prod.fst) (h.source s)
    rw [Option.map_map, Option.map_map] at hsource
    rw [SignatureMap.find?_map, SignatureMap.find?_map, find?_providers, find?_providers,
      Option.map_map, Option.map_map]
    exact hsource
  unfold provenanceBytes at heq
  rw [toUTF8_ofList_inj, provenance_eq_flatMap, provenance_eq_flatMap] at heq
  have hlist := flatMap_line_inj_of_origins (congrArg SignatureMap.toList horigins) hline' hline heq
  refine SignatureMap.ext_find? fun s => ?_
  unfold SignatureMap.find?
  rw [hlist]

end MethodTable

/-- The roles in between are declared ones. -/
theorem Registry.Fits.oneLine {reg : Registry} {t : AdoptingType} {keep : RoleId → Signature → Bool}
    {table : MethodTable} (h : reg.Fits t keep table)
    (hdeclared : ∀ via ∈ t.declaredRoles, '\n' ∉ via.name.toList) :
    ∀ e ∈ table.providers.toList, e.2.OneLine := by
  rintro ⟨s, p⟩ he o via rfl
  rw [← SignatureMap.find?_eq_some, MethodTable.find?_providers, Option.map_eq_some_iff] at he
  obtain ⟨⟨i, p⟩, hs, rfl⟩ := he
  obtain ⟨before, after, hdecl, -, -⟩ := h.firstReaching hs
  exact hdeclared via (by simp [hdecl])

/-- A type that composes does so with its roles declared in another order, and the digests of the
tables take in the same bytes if the methods come through the same declared roles. If no name of
these breaks a line, the bytes are the same only then. -/
theorem provenanceBytes_eq_iff_of_perm {b : RegistryBuilder} {config : Config} {m m' : Moment}
    {t t' : TypeEntry} {keep : RoleId → Signature → Bool} {roles : List RoleId}
    {table : MethodTable} {e : Engine} (hperm : roles.Perm t.definition.declaredRoles)
    (hdef : t'.definition = { t.definition with declaredRoles := roles })
    (h : Poised b config m t keep) (h' : Poised b config m' t' keep)
    (hrun : m.compose t.definition.name = (.ok (.ok table), e)) :
    ∃ table' e', m'.compose t.definition.name = (.ok (.ok table'), e') ∧
      (b.freeze.SameRoutes roles table → table'.provenanceBytes = table.provenanceBytes) ∧
      ((∀ via ∈ roles, '\n' ∉ via.name.toList) →
        table'.provenanceBytes = table.provenanceBytes → b.freeze.SameRoutes roles table) := by
  have halike : b.freeze.Alike t.definition { t.definition with declaredRoles := roles } :=
    Registry.alike_of_perm hperm
  obtain ⟨e₁, hrun₁⟩ := h.compose
  obtain ⟨e', hrun'⟩ := h'.compose
  rw [hdef] at hrun'
  have houtcome : b.freeze.outcomeOf config t.definition keep = .ok table := by
    rw [hrun] at hrun₁
    exact (Except.ok.inj (Prod.ext_iff.1 hrun₁).1).symm
  obtain ⟨table', houtcome'⟩ := Registry.outcomeOf_isOk.2
    (halike.composable (Registry.outcomeOf_isOk.1 ⟨table, houtcome⟩))
  have hfits := Registry.fits_of_outcomeOf houtcome
  have hfits' := Registry.fits_of_outcomeOf houtcome'
  have hiff := Registry.Fits.providers_eq_iff halike hfits hfits'
  refine ⟨table', e', houtcome' ▸ hrun', fun hroutes => ?_, fun hline heq => ?_⟩
  · unfold MethodTable.provenanceBytes
    rw [MethodTable.provenance_eq_flatMap, MethodTable.provenance_eq_flatMap, hiff.2 hroutes]
  · refine hiff.1 ((Registry.Fits.sameUpToVia halike hfits hfits').provenanceBytes_inj
      (hfits.oneLine fun via hvia => hline via (hperm.mem_iff.2 hvia)) (hfits'.oneLine hline) heq)

theorem Sample.poised_host (declaredRoles : List RoleId) :
    Poised leaners {} (hosting declaredRoles) { definition := host declaredRoles }
      fun _ _ => true :=
  .of_alone_of_veto_eq_none rfl

/-- A role that is declared in front of others, but does not reach what they reach, leaves the bytes
as they are. -/
theorem provenanceBytes_of_staying :
    ∃ table table' e e',
      (Sample.hosting [⟨"left"⟩, ⟨"right"⟩, Sample.staying.id]).compose "host" =
        (.ok (.ok table), e) ∧
      (Sample.hosting [Sample.staying.id, ⟨"left"⟩, ⟨"right"⟩]).compose "host" =
        (.ok (.ok table'), e') ∧
      table'.provenanceBytes = table.provenanceBytes ∧
      Sample.leaners.freeze.SameRoutes [Sample.staying.id, ⟨"left"⟩, ⟨"right"⟩] table := by
  obtain ⟨table, e, hrun, hps⟩ :=
    Sample.exists_table_of_host [⟨"left"⟩, ⟨"right"⟩, Sample.staying.id]
      [(Sample.greet, .role Sample.greeting.id ⟨"left"⟩),
        (Sample.part, .role Sample.staying.id Sample.staying.id)] (by decide +kernel)
  obtain ⟨table₁, e₁, hrun₁, hps₁⟩ :=
    Sample.exists_table_of_host [Sample.staying.id, ⟨"left"⟩, ⟨"right"⟩]
      [(Sample.greet, .role Sample.greeting.id ⟨"left"⟩),
        (Sample.part, .role Sample.staying.id Sample.staying.id)] (by decide +kernel)
  have hperm : [Sample.staying.id, ⟨"left"⟩, ⟨"right"⟩].Perm
      (Sample.host [⟨"left"⟩, ⟨"right"⟩, Sample.staying.id]).declaredRoles :=
    (List.perm_append_singleton _ _).symm
  have hdef : ({ definition := Sample.host [Sample.staying.id, ⟨"left"⟩, ⟨"right"⟩] } :
      TypeEntry).definition = { Sample.host [⟨"left"⟩, ⟨"right"⟩, Sample.staying.id] with
        declaredRoles := [Sample.staying.id, ⟨"left"⟩, ⟨"right"⟩] } := rfl
  obtain ⟨table', e', hrun', hsame, hroutes⟩ :=
    provenanceBytes_eq_iff_of_perm hperm hdef
      (Sample.poised_host [⟨"left"⟩, ⟨"right"⟩, Sample.staying.id])
      (Sample.poised_host [Sample.staying.id, ⟨"left"⟩, ⟨"right"⟩]) hrun
  have hbytes : table₁.provenanceBytes = table.provenanceBytes := by
    unfold MethodTable.provenanceBytes
    rw [MethodTable.provenance_eq_flatMap, MethodTable.provenance_eq_flatMap, hps, hps₁]
  replace hrun' : (Sample.hosting [Sample.staying.id, ⟨"left"⟩, ⟨"right"⟩]).compose "host" =
    (.ok (.ok table'), e') := hrun'
  rw [hrun₁] at hrun'
  cases hrun'
  have hnames : ∀ via ∈ [Sample.staying.id, ⟨"left"⟩, ⟨"right"⟩], '\n' ∉ via.name.toList := by
    decide +kernel
  exact ⟨table, table₁, e, e₁, hrun, hrun₁, hsame (hroutes hnames hbytes), hroutes hnames hbytes⟩

/-- The order of two declared roles that reach a third one shows in the bytes. -/
theorem provenanceBytes_of_diamond :
    ∃ table table' e e',
      (Sample.hosting [⟨"left"⟩, ⟨"right"⟩]).compose "host" = (.ok (.ok table), e) ∧
      (Sample.hosting [⟨"right"⟩, ⟨"left"⟩]).compose "host" = (.ok (.ok table'), e') ∧
      table'.provenanceBytes ≠ table.provenanceBytes := by
  obtain ⟨table, e, hrun, hps⟩ := Sample.exists_table_of_host [⟨"left"⟩, ⟨"right"⟩]
    [(Sample.greet, .role Sample.greeting.id ⟨"left"⟩)] (by decide +kernel)
  obtain ⟨table', e', hrun', hps'⟩ := Sample.exists_table_of_host [⟨"right"⟩, ⟨"left"⟩]
    [(Sample.greet, .role Sample.greeting.id ⟨"right"⟩)] (by decide +kernel)
  refine ⟨table, table', e, e', hrun, hrun', fun heq => ?_⟩
  unfold MethodTable.provenanceBytes at heq
  rw [toUTF8_ofList_inj, MethodTable.provenance_eq_flatMap, MethodTable.provenance_eq_flatMap, hps,
    hps'] at heq
  revert heq
  decide +kernel

end RoleComposition
