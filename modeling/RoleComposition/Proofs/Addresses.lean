import RoleComposition.Proofs.Failures
import RoleComposition.Proofs.Signatures

/-!
# What the digest tells apart

The digest of a table takes in a line for each of its methods: the signature, and who provides it.
Tables of different providers have different lines, as long as no role's name breaks a line or goes
on like the text of a provider does. Without this, one role can be named so that its methods are
taken for those of other roles. Main statement: `provenanceBytes_eq_iff`.
-/

namespace RoleComposition

/-! ## Lists that are told apart by a mark -/

section Marks

variable {α : Type} {a : α} {mark x x' y y' : List α}

/-- Lists are the same in front of an element that they do not contain. -/
theorem append_cons_inj (h : a ∉ x) (h' : a ∉ x') (heq : x ++ a :: y = x' ++ a :: y') :
    x = x' ∧ y = y' := by
  induction x generalizing x' with
  | nil =>
    cases x' with
    | nil => exact ⟨rfl, List.tail_eq_of_cons_eq heq⟩
    | cons c x' =>
      obtain ⟨rfl, -⟩ := List.cons.inj heq
      exact absurd List.mem_cons_self h'
  | cons c x ih =>
    cases x' with
    | nil =>
      obtain ⟨rfl, -⟩ := List.cons.inj heq
      exact absurd List.mem_cons_self h
    | cons c' x' =>
      obtain ⟨rfl, htail⟩ := List.cons.inj heq
      obtain ⟨rfl, rfl⟩ :=
        ih (List.not_mem_of_not_mem_cons h) (List.not_mem_of_not_mem_cons h') htail
      exact ⟨rfl, rfl⟩

/-- A mark whose first element does not come again in it does not overlap with itself. -/
theorem eq_nil_or_prefix_of_mark (ha : a ∉ mark) (heq : a :: mark ++ y = x ++ (a :: mark ++ y')) :
    x = [] ∨ a :: mark <+: x := by
  cases x with
  | nil => exact .inl rfl
  | cons c x =>
    obtain ⟨rfl, htail⟩ := List.cons.inj heq
    rcases List.append_eq_append_iff.1 htail with ⟨rest, hx, -⟩ | ⟨rest, hmark, hrest⟩
    · exact .inr ⟨rest, by rw [hx, List.cons_append]⟩
    · cases rest with
      | nil => exact .inr ⟨[], by rw [hmark]; simp⟩
      | cons d rest =>
        obtain ⟨rfl, -⟩ := List.cons.inj hrest
        exact absurd (by simp [hmark]) ha

/-- Lists are the same in front of such a mark if they do not contain it. -/
theorem append_mark_inj (ha : a ∉ mark) (h : ¬ a :: mark <:+: x) (h' : ¬ a :: mark <:+: x')
    (heq : x ++ (a :: mark ++ y) = x' ++ (a :: mark ++ y')) : x = x' := by
  rcases List.append_eq_append_iff.1 heq with ⟨rest, rfl, hrest⟩ | ⟨rest, rfl, hrest⟩
  · rcases eq_nil_or_prefix_of_mark ha hrest with rfl | hmark
    · rw [List.append_nil]
    · exact absurd (hmark.isInfix.trans (List.suffix_append x rest).isInfix) h'
  · rcases eq_nil_or_prefix_of_mark ha hrest with rfl | hmark
    · rw [List.append_nil]
    · exact absurd (hmark.isInfix.trans (List.suffix_append x' rest).isInfix) h

end Marks

/-! ## Bytes -/

theorem toList_loop (bytes : ByteArray) (i : Nat) (read : List UInt8) :
    ByteArray.toList.loop bytes i read = read.reverse ++ bytes.data.toList.drop i := by
  induction i, read using ByteArray.toList.loop.induct bytes with
  | case1 i read h ih =>
    have hnext : bytes.data.toList.drop i = bytes.get! i :: bytes.data.toList.drop (i + 1) := by
      rw [List.drop_eq_getElem_cons (by simpa using h)]
      simp [ByteArray.get!, h]
    rw [ByteArray.toList.loop, if_pos h, ih, hnext, List.reverse_cons, List.append_assoc]
    rfl
  | case2 i read h =>
    rw [ByteArray.toList.loop, if_neg h, List.drop_of_length_le (by simpa using h), List.append_nil]

/-- Texts with the same bytes have the same characters. -/
theorem toUTF8_ofList_inj {cs cs' : List Char} :
    (String.ofList cs).toUTF8.toList = (String.ofList cs').toUTF8.toList ↔ cs = cs' := by
  refine ⟨fun h => ?_, congrArg fun cs => (String.ofList cs).toUTF8.toList⟩
  unfold ByteArray.toList at h
  rw [toList_loop, toList_loop] at h
  have hdata := Array.toList_inj.1 (by simpa using h)
  exact String.ofList_inj.1 (String.toByteArray_inj.1 (ByteArray.ext hdata))

/-! ## Texts of providers -/

namespace Provider

/-- What comes first after the name of the role that a method is from, if the method comes through
another role. -/
def viaMark : List Char := [' ', '(', 'v', 'i', 'a']

/-- How the text of a provider goes on after the name of that role. -/
def route (origin via : RoleId) : List Char :=
  if origin = via then [] else viaMark ++ ' ' :: (via.name.toList ++ [')'])

/-- The text of the provider stays on its line, and tells the two roles apart. -/
def Legible : Provider → Prop
  | own => True
  | role origin via => '\n' ∉ origin.name.toList ∧ '\n' ∉ via.name.toList ∧
      ¬ viaMark <:+: origin.name.toList

variable {origin via origin' via' : RoleId}

theorem toList_text_role (origin via : RoleId) :
    (role origin via).text.toList =
      ['r', 'o', 'l', 'e'] ++ ' ' :: (origin.name.toList ++ route origin via) := by
  unfold text route
  by_cases h : origin = via
  · simp [h]
  · simp [h, viaMark]

theorem newline_notMem_route (h : '\n' ∉ via.name.toList) : '\n' ∉ route origin via := by
  unfold route
  split_ifs
  · exact List.not_mem_nil
  · simpa [viaMark] using h

theorem newline_notMem_text {p : Provider} (h : p.Legible) : '\n' ∉ p.text.toList := by
  cases p with
  | own => decide
  | role origin via =>
    obtain ⟨horigin, hvia, -⟩ := h
    rw [toList_text_role]
    simpa [horigin] using newline_notMem_route hvia

/-- With the origin known, the role in between can be told. -/
theorem route_inj (h : route origin via = route origin via') : via = via' := by
  unfold route at h
  split_ifs at h with hvia hvia' hvia'
  · rw [← hvia, ← hvia']
  · cases h
  · cases h
  · simp only [viaMark, List.cons_append, List.nil_append, List.cons.injEq, true_and,
      List.append_cancel_right_eq] at h
    cases via
    cases via'
    exact congrArg RoleId.mk (String.toList_inj.1 h)

theorem route_of_ne (h : origin ≠ via) :
    route origin via = viaMark ++ ' ' :: (via.name.toList ++ [')']) := if_neg h

theorem route_self (id : RoleId) : route id id = [] := if_pos rfl

theorem origin_inj (h : ¬ viaMark <:+: origin.name.toList) (h' : ¬ viaMark <:+: origin'.name.toList)
    (heq : origin.name.toList ++ route origin via = origin'.name.toList ++ route origin' via') :
    origin = origin' := by
  have hname : origin.name.toList = origin'.name.toList := by
    by_cases hvia : origin = via
    · by_cases hvia' : origin' = via'
      · subst hvia hvia'
        rwa [route_self, route_self, List.append_nil, List.append_nil] at heq
      · subst hvia
        rw [route_self, List.append_nil, route_of_ne hvia', ← List.append_assoc] at heq
        exact absurd ⟨_, _, heq.symm⟩ h
    · by_cases hvia' : origin' = via'
      · subst hvia'
        rw [route_self, List.append_nil, route_of_ne hvia, ← List.append_assoc] at heq
        exact absurd ⟨_, _, heq⟩ h'
      · rw [route_of_ne hvia, route_of_ne hvia'] at heq
        exact append_mark_inj (by decide) h h' heq
  cases origin
  cases origin'
  exact congrArg RoleId.mk (String.toList_inj.1 hname)

end Provider

/-! ## Lines -/

namespace MethodTable

/-- The providers of the methods. -/
def providers (t : MethodTable) : SignatureMap Provider := t.entries.map fun _ e => e.provider

/-- What the digest takes in for a method, but for the line break. -/
def line (e : Signature × Provider) : List Char := e.1.text.toList ++ '\x00' :: e.2.text.toList

/-- Every line of the digest can be read: the signatures are written, and the providers legible. -/
def Legible (t : MethodTable) : Prop :=
  ∀ s e, t.get? s = some e → s.Written ∧ e.provider.Legible

variable {s s' : Signature} {p p' : Provider}

theorem provenance_eq_flatMap (t : MethodTable) :
    t.provenance = t.providers.toList.flatMap fun e => line e ++ ['\n'] := by
  unfold provenance providers SignatureMap.map line
  rw [List.flatMap_map]

theorem find?_providers (t : MethodTable) (s : Signature) :
    t.providers.find? s = (t.get? s).map MethodEntry.provider :=
  SignatureMap.find?_map _ _ _

theorem newline_notMem_line (hs : s.Written) (hp : p.Legible) : '\n' ∉ line (s, p) := by
  have htext : '\n' ∉ s.text.toList := hs.notMem_text (by decide)
  simpa [line, htext] using Provider.newline_notMem_text hp

theorem space_notMem_line_own (hs : s.Written) : ' ' ∉ line (s, .own) := by
  have htext : ' ' ∉ s.text.toList := hs.notMem_text (by decide)
  have hown : ' ' ∉ Provider.own.text.toList := by decide
  simpa [line, htext] using hown

theorem line_role (s : Signature) (origin via : RoleId) : line (s, .role origin via) =
    (s.text.toList ++ ['\x00', 'r', 'o', 'l', 'e']) ++
      ' ' :: (origin.name.toList ++ Provider.route origin via) := by
  simp [line, Provider.toList_text_role]

theorem space_mem_line_role (s : Signature) (origin via : RoleId) :
    ' ' ∈ line (s, .role origin via) := by
  simp [line_role]

/-- A line can be read in one way only. -/
theorem line_inj (hs : s.Written) (hs' : s'.Written) (hp : p.Legible) (hp' : p'.Legible)
    (heq : line (s, p) = line (s', p')) : s = s' ∧ p = p' := by
  cases p with
  | own =>
    cases p' with
    | own => exact ⟨hs.text_inj hs' (List.append_cancel_right heq), rfl⟩
    | role origin' via' =>
      exact absurd (heq ▸ space_mem_line_role s' origin' via') (space_notMem_line_own hs)
  | role origin via =>
    cases p' with
    | own => exact absurd (heq ▸ space_mem_line_role s origin via) (space_notMem_line_own hs')
    | role origin' via' =>
      have hlead {s : Signature} (hs : s.Written) :
          ' ' ∉ s.text.toList ++ ['\x00', 'r', 'o', 'l', 'e'] := by
        simpa using hs.notMem_text (by decide)
      rw [line_role, line_role] at heq
      obtain ⟨htext, hroles⟩ := append_cons_inj (hlead hs) (hlead hs') heq
      obtain rfl := Provider.origin_inj hp.2.2 hp'.2.2 hroles
      rw [Provider.route_inj (List.append_cancel_left hroles)]
      exact ⟨hs.text_inj hs' (List.append_cancel_right htext), rfl⟩

/-- Lines can be read one after the other. -/
theorem flatMap_line_inj {es es' : List (Signature × Provider)}
    (h : ∀ e ∈ es, e.1.Written ∧ e.2.Legible) (h' : ∀ e ∈ es', e.1.Written ∧ e.2.Legible)
    (heq : (es.flatMap fun e => line e ++ ['\n']) = es'.flatMap fun e => line e ++ ['\n']) :
    es = es' := by
  induction es generalizing es' with
  | nil =>
    cases es' with
    | nil => rfl
    | cons e' es' => simp at heq
  | cons e es ih =>
    cases es' with
    | nil => simp at heq
    | cons e' es' =>
      obtain ⟨⟨hs, hp⟩, hrest⟩ := List.forall_mem_cons.1 h
      obtain ⟨⟨hs', hp'⟩, hrest'⟩ := List.forall_mem_cons.1 h'
      simp only [List.flatMap_cons, List.append_assoc, List.singleton_append] at heq
      obtain ⟨hline, hlines⟩ :=
        append_cons_inj (newline_notMem_line hs hp) (newline_notMem_line hs' hp') heq
      obtain ⟨hsame, hprovider⟩ := line_inj hs hs' hp hp' hline
      rw [ih hrest hrest' hlines, Prod.ext hsame hprovider]

theorem legible_iff {t : MethodTable} :
    t.Legible ↔ ∀ e ∈ t.providers.toList, e.1.Written ∧ e.2.Legible := by
  have hmem (s : Signature) (p : Provider) :
      (s, p) ∈ t.providers.toList ↔ ∃ e, t.get? s = some e ∧ e.provider = p := by
    rw [← SignatureMap.find?_eq_some, find?_providers, Option.map_eq_some_iff]
  constructor
  · rintro h ⟨s, p⟩ hsp
    obtain ⟨e, he, rfl⟩ := (hmem s p).1 hsp
    exact h s e he
  · exact fun h s e he => h _ ((hmem s _).2 ⟨e, he, rfl⟩)

end MethodTable

/-! ## Digests -/

/-- The digests of legible tables take in the same bytes exactly if the tables have the same
signatures with the same providers. -/
theorem MethodTable.provenanceBytes_eq_iff {table table' : MethodTable} (h : table.Legible)
    (h' : table'.Legible) :
    table.provenanceBytes = table'.provenanceBytes ↔
      ∀ s, (table.get? s).map MethodEntry.provider = (table'.get? s).map MethodEntry.provider := by
  unfold provenanceBytes
  rw [toUTF8_ofList_inj, provenance_eq_flatMap, provenance_eq_flatMap]
  simp only [← find?_providers]
  constructor
  · intro heq s
    unfold SignatureMap.find?
    rw [flatMap_line_inj (legible_iff.1 h) (legible_iff.1 h') heq]
  · intro hfind
    rw [SignatureMap.ext_find? hfind]

namespace Sample

/-- A role that brings the greeting. -/
def leaning (name : String) : RoleDefinition := (RoleDefinition.named ⟨name⟩).composes greeting.id

/-- A role that is named as if the greeting came from it. -/
def namesake : RoleDefinition :=
  (RoleDefinition.named ⟨"greeting (via left)"⟩).providesPrivate greet
    (.standIn (.role ⟨"greeting (via left)"⟩) greet)

def leaners : RegistryBuilder :=
  { roles := [greeting, leaning "left", leaning "right", namesake, staying] }

def host (declaredRoles : List RoleId) : AdoptingType := { name := "host", declaredRoles }

/-- Such a type, at a moment before it is composed. -/
def hosting (declaredRoles : List RoleId) : Moment :=
  .between { Engine.new leaners.freeze {} with
    types := [{ definition := host declaredRoles }] }

/-- The table that such a type composes to, by its providers. -/
theorem exists_table_of_host (declaredRoles : List RoleId) (ps : List (Signature × Provider))
    (h : ((hosting declaredRoles).compose "host").1.map (fun outcome =>
      outcome.map fun table => table.providers.toList) = .ok (.ok ps)) :
    ∃ table e, (hosting declaredRoles).compose "host" = (.ok (.ok table), e) ∧
      table.providers.toList = ps := by
  rcases hrun : (hosting declaredRoles).compose "host" with ⟨halt | error | table, e⟩
  · rw [hrun] at h
    cases h
  · rw [hrun] at h
    cases h
  · rw [hrun] at h
    exact ⟨table, e, rfl, Except.ok.inj (Except.ok.inj h)⟩

end Sample

/-- Two tables with the same signature, reached through other roles, have other bytes. -/
theorem provenanceBytes_of_leaning :
    ∃ table table' e e',
      (Sample.hosting [⟨"left"⟩]).compose "host" = (.ok (.ok table), e) ∧
      (Sample.hosting [⟨"right"⟩, ⟨"left"⟩]).compose "host" = (.ok (.ok table'), e') ∧
      table.Legible ∧ table'.Legible ∧ table.provenanceBytes ≠ table'.provenanceBytes := by
  obtain ⟨table, e, hrun, hps⟩ := Sample.exists_table_of_host [⟨"left"⟩]
    [(Sample.greet, .role Sample.greeting.id ⟨"left"⟩)] (by decide +kernel)
  obtain ⟨table', e', hrun', hps'⟩ := Sample.exists_table_of_host [⟨"right"⟩, ⟨"left"⟩]
    [(Sample.greet, .role Sample.greeting.id ⟨"right"⟩)] (by decide +kernel)
  have hwritten : Sample.greet.Written := ⟨"greet", by decide +kernel⟩
  have hlegible : table.Legible := MethodTable.legible_iff.2 (by
    rw [hps]
    exact List.forall_mem_singleton.2 ⟨hwritten, by decide +kernel, by decide +kernel,
      by decide +kernel⟩)
  have hlegible' : table'.Legible := MethodTable.legible_iff.2 (by
    rw [hps']
    exact List.forall_mem_singleton.2 ⟨hwritten, by decide +kernel, by decide +kernel,
      by decide +kernel⟩)
  refine ⟨table, table', e, e', hrun, hrun', hlegible, hlegible', fun hbytes => ?_⟩
  have hsame := (MethodTable.provenanceBytes_eq_iff hlegible hlegible').1 hbytes Sample.greet
  rw [← MethodTable.find?_providers, ← MethodTable.find?_providers] at hsame
  unfold SignatureMap.find? at hsame
  rw [hps, hps'] at hsame
  revert hsame
  decide +kernel

/-- Two tables with other providers have the same bytes: a role is named like the text of the other
table's provider. -/
theorem provenanceBytes_of_namesake :
    ∃ table table' e e',
      (Sample.hosting [⟨"left"⟩]).compose "host" = (.ok (.ok table), e) ∧
      (Sample.hosting [Sample.namesake.id]).compose "host" = (.ok (.ok table'), e') ∧
      table.provenanceBytes = table'.provenanceBytes ∧
      (table.get? Sample.greet).map MethodEntry.provider ≠
        (table'.get? Sample.greet).map MethodEntry.provider := by
  obtain ⟨table, e, hrun, hps⟩ := Sample.exists_table_of_host [⟨"left"⟩]
    [(Sample.greet, .role Sample.greeting.id ⟨"left"⟩)] (by decide +kernel)
  obtain ⟨table', e', hrun', hps'⟩ := Sample.exists_table_of_host [Sample.namesake.id]
    [(Sample.greet, .role Sample.namesake.id Sample.namesake.id)] (by decide +kernel)
  refine ⟨table, table', e, e', hrun, hrun', ?_, ?_⟩
  · unfold MethodTable.provenanceBytes
    rw [MethodTable.provenance_eq_flatMap, MethodTable.provenance_eq_flatMap, hps, hps']
    rfl
  · rw [← MethodTable.find?_providers, ← MethodTable.find?_providers]
    unfold SignatureMap.find?
    rw [hps, hps']
    decide +kernel

end RoleComposition
