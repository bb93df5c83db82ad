import RoleComposition.Manifest.Format
import RoleComposition.Manifest.FromToml
import RoleComposition.Proofs.Addresses
import RoleComposition.Proofs.Fields
import RoleComposition.Proofs.Spelling

/-!
# Records written and read back

A manifest, each of its records, a provider and the records of errors are what the text stands for
that they are written as, whatever texts they hold, if their signatures are ones that a text stands
for. The signatures of a manifest that was read are. Main statement: `readText_toText`.
-/

namespace RoleComposition

open Json (Plain Read Draft readText)

/-! ## Writing and reading -/

/-- What is written of a value has no numbers in it, and is read as the value. -/
def Reproduces {α : Type} (toJson : α → Json) (ofDraft : Draft → Read α) (Valid : α → Prop) :
    Prop :=
  ∀ a, Valid a → (toJson a).Plain ∧ ofDraft (toJson a).draft = .ok a

namespace Reproduces

variable {α : Type} {toJson : α → Json} {ofDraft : Draft → Read α} {Valid : α → Prop}

/-- Such a value is read back from either of its texts. -/
theorem readText (h : Reproduces toJson ofDraft Valid) {a : α} (ha : Valid a) :
    Json.readText ofDraft (toJson a).toText = .ok a ∧
      Json.readText ofDraft (toJson a).toPrettyText = .ok a := by
  obtain ⟨hplain, hread⟩ := h a ha
  unfold Json.readText
  rw [Json.ofText_toText hplain, Json.ofText_toPrettyText hplain]
  simp [bind, Except.bind, hread]

theorem listToJson (h : Reproduces toJson ofDraft Valid) :
    Reproduces (listToJson toJson) (Draft.readList ofDraft) fun l => ∀ a ∈ l, Valid a := by
  intro l hl
  refine ⟨.array (by simpa using fun a ha => (h a (hl a ha)).1), ?_⟩
  have hitems : (Json.itemDrafts (l.map toJson)).mapM ofDraft = .ok l := by
    induction l with
    | nil => rfl
    | cons a l ih =>
      obtain ⟨ha, hl⟩ := List.forall_mem_cons.1 hl
      rw [List.map_cons, Json.itemDrafts, List.mapM_cons, (h a ha).2, ih hl]
      rfl
  show (Json.itemDrafts (l.map toJson)).mapM ofDraft >>= _ = _
  rw [hitems]
  rfl

end Reproduces

theorem reproduces_text : Reproduces .text textOfDraft fun _ => True :=
  fun s _ => ⟨.text s, rfl⟩

theorem RoleId.reproduces : Reproduces toJson ofDraft fun _ => True :=
  fun id _ => ⟨.text id.name, rfl⟩

theorem Signature.reproduces : Reproduces toJson ofDraft Written := by
  intro s hs
  refine ⟨.text s.text, ?_⟩
  have hread : Signature.read s.text = .ok s := by
    unfold Signature.read
    rw [parse_text hs]
  simp [toJson, ofDraft, Json.draft, Draft.readString, bind, Except.bind, hread]

theorem reproduces_texts : Reproduces Json.ofTexts (Draft.readList textOfDraft) fun _ => True :=
  fun l _ => reproduces_text.listToJson l fun _ _ => trivial

theorem reproduces_roles : Reproduces (listToJson RoleId.toJson) rolesOfDraft fun _ => True :=
  fun l _ => RoleId.reproduces.listToJson l fun _ _ => trivial

theorem reproduces_signatures :
    Reproduces (listToJson Signature.toJson) signaturesOfDraft fun l => ∀ s ∈ l, s.Written :=
  Signature.reproduces.listToJson

/-- What is read passes the check of its field. -/
theorem check_of_read {α : Type} {f : Draft → Read α} {d : Draft} {a : α} (h : f d = .ok a) :
    discard (f d) = (.ok () : Read Unit) := by
  rw [h]
  rfl

/-- An object of two fields is read: both of them have their values. -/
theorem exists_found_pair {α β : Type} {f g : Draft.Field} {readF : Draft → Read α}
    {readG : Draft → Read β} {x y : Draft} {a : α} {b : β} (title : String)
    (hdistinct : Draft.Distinct [f, g]) (hf : f.check x = discard (readF x))
    (hg : g.check y = discard (readG y)) (hx : readF x = .ok a) (hy : readG y = .ok b)
    (noneF : α) (noneG : β) :
    ∃ found, Draft.readFields title [f, g]
        (.object [(some f.name, x), (some g.name, y)] true) = .ok found ∧
      found.read 0 noneF readF = .ok a ∧ found.read 1 noneG readG = .ok b := by
  obtain ⟨found, hread, hget⟩ := Draft.readFields_object title hdistinct
    (.cons (hf.trans (check_of_read hx)) (.cons (hg.trans (check_of_read hy)) .nil))
  exact ⟨found, hread, Draft.Found.read_eq (hget 0) hx noneF,
    Draft.Found.read_eq (hget 1) hy noneG⟩

namespace VetoDecl

/-- The signature is one that a text stands for. -/
def Written (v : VetoDecl) : Prop := v.method.Written

theorem reproduces : Reproduces toJson ofDraft Written := by
  intro v hv
  obtain ⟨hrolePlain, hrole⟩ := RoleId.reproduces v.role trivial
  obtain ⟨hmethodPlain, hmethod⟩ := Signature.reproduces v.method hv
  refine ⟨.object (by simp [hrolePlain, hmethodPlain]), ?_⟩
  obtain ⟨found, hread, hrole', hmethod'⟩ := exists_found_pair "struct VetoDecl"
    (f := field "role" RoleId.ofDraft) (g := field "method" Signature.ofDraft) (by decide) rfl rfl
    hrole hmethod ⟨""⟩ ⟨.onInstance, ""⟩
  replace hread : Draft.readFields _ _ v.toJson.draft = .ok found := hread
  simp [ofDraft, hread, hrole', hmethod', bind, Except.bind, pure, Except.pure]

end VetoDecl

namespace RoleDecl

/-- The signatures are ones that a text stands for. -/
structure Written (r : RoleDecl) : Prop where
  requires : ∀ s ∈ r.requires, s.Written
  provides : ∀ s ∈ r.provides, s.Written
  privates : ∀ s ∈ r.privates, s.Written

theorem reproduces : Reproduces toJson ofDraft Written := by
  intro r hr
  obtain ⟨hname, hname'⟩ := RoleId.reproduces r.name trivial
  obtain ⟨hrequires, hrequires'⟩ := reproduces_signatures r.requires hr.requires
  obtain ⟨hprovides, hprovides'⟩ := reproduces_signatures r.provides hr.provides
  obtain ⟨hprivates, hprivates'⟩ := reproduces_signatures r.privates hr.privates
  obtain ⟨hcomposes, hcomposes'⟩ := reproduces_roles r.composes trivial
  obtain ⟨hstorage, hstorage'⟩ := reproduces_texts r.storage trivial
  refine ⟨.object (by simp [hname, hrequires, hprovides, hprivates, hcomposes, hstorage]), ?_⟩
  have hdistinct : Draft.Distinct [field "name" RoleId.ofDraft,
      optionalField "requires" signaturesOfDraft, optionalField "provides" signaturesOfDraft,
      optionalField "private" signaturesOfDraft, optionalField "composes" rolesOfDraft,
      optionalField "storage" (Draft.readList textOfDraft)] := by decide
  obtain ⟨found, hread, hget⟩ := Draft.readFields_object "struct RoleDecl" hdistinct
    (.cons (check_of_read hname') <| .cons (check_of_read hrequires') <|
      .cons (check_of_read hprovides') <| .cons (check_of_read hprivates') <|
      .cons (check_of_read hcomposes') <| .cons (check_of_read hstorage') .nil)
  replace hread : Draft.readFields _ _ r.toJson.draft = .ok found := hread
  have h₀ := Draft.Found.read_eq (hget 0) hname' ⟨""⟩
  have h₁ := Draft.Found.read_eq (hget 1) hrequires' []
  have h₂ := Draft.Found.read_eq (hget 2) hprovides' []
  have h₃ := Draft.Found.read_eq (hget 3) hprivates' []
  have h₄ := Draft.Found.read_eq (hget 4) hcomposes' []
  have h₅ := Draft.Found.read_eq (hget 5) hstorage' []
  simp [ofDraft, hread, h₀, h₁, h₂, h₃, h₄, h₅, bind, Except.bind, pure, Except.pure]

end RoleDecl

namespace TypeDecl

/-- The signatures are ones that a text stands for. -/
structure Written (t : TypeDecl) : Prop where
  implements : ∀ s ∈ t.implements, s.Written
  veto : ∀ v ∈ t.veto, v.Written

theorem reproduces : Reproduces toJson ofDraft Written := by
  intro t ht
  obtain ⟨hname, hname'⟩ := reproduces_text t.name trivial
  obtain ⟨hadopts, hadopts'⟩ := reproduces_roles t.adopts trivial
  obtain ⟨himplements, himplements'⟩ := reproduces_signatures t.implements ht.implements
  obtain ⟨hveto, hveto'⟩ := VetoDecl.reproduces.listToJson t.veto ht.veto
  refine ⟨.object (by simp [hname, hadopts, himplements, hveto]), ?_⟩
  have hdistinct : Draft.Distinct [field "name" textOfDraft, optionalField "adopts" rolesOfDraft,
      optionalField "implements" signaturesOfDraft,
      optionalField "veto" (Draft.readList VetoDecl.ofDraft)] := by decide
  obtain ⟨found, hread, hget⟩ := Draft.readFields_object "struct TypeDecl" hdistinct
    (.cons (check_of_read hname') <| .cons (check_of_read hadopts') <|
      .cons (check_of_read himplements') <| .cons (check_of_read hveto') .nil)
  replace hread : Draft.readFields _ _ t.toJson.draft = .ok found := hread
  have h₀ := Draft.Found.read_eq (hget 0) hname' ""
  have h₁ := Draft.Found.read_eq (hget 1) hadopts' []
  have h₂ := Draft.Found.read_eq (hget 2) himplements' []
  have h₃ := Draft.Found.read_eq (hget 3) hveto' []
  simp [ofDraft, hread, h₀, h₁, h₂, h₃, bind, Except.bind, pure, Except.pure]

end TypeDecl

namespace Manifest

/-- The signatures are ones that a text stands for. -/
structure Written (m : Manifest) : Prop where
  roles : ∀ r ∈ m.roles, r.Written
  types : ∀ t ∈ m.types, t.Written

theorem reproduces : Reproduces toJson ofDraft Written := by
  intro m hm
  obtain ⟨hroles, hroles'⟩ := RoleDecl.reproduces.listToJson m.roles hm.roles
  obtain ⟨htypes, htypes'⟩ := TypeDecl.reproduces.listToJson m.types hm.types
  refine ⟨.object (by simp [hroles, htypes]), ?_⟩
  obtain ⟨found, hread, h₀, h₁⟩ := exists_found_pair "struct Manifest"
    (f := aliasedField "role" "roles" (Draft.readList RoleDecl.ofDraft))
    (g := aliasedField "type" "types" (Draft.readList TypeDecl.ofDraft)) (by decide) rfl rfl
    hroles' htypes' [] []
  replace hread : Draft.readFields _ _ m.toJson.draft = .ok found := hread
  simp [ofDraft, hread, h₀, h₁, bind, Except.bind, pure, Except.pure]

end Manifest

theorem MissingCapability.reproduces :
    Reproduces toJson ofDraft fun m => m.signature.Written := by
  intro m hm
  obtain ⟨hsignature, hsignature'⟩ := Signature.reproduces m.signature hm
  obtain ⟨hroles, hroles'⟩ := reproduces_roles m.requiredBy trivial
  refine ⟨.object (by simp [hsignature, hroles]), ?_⟩
  obtain ⟨found, hread, h₀, h₁⟩ := exists_found_pair "struct MissingCapability"
    (f := field "signature" Signature.ofDraft) (g := field "required_by" rolesOfDraft) (by decide)
    rfl rfl hsignature' hroles' ⟨.onInstance, ""⟩ []
  replace hread : Draft.readFields _ _ m.toJson.draft = .ok found := hread
  simp [ofDraft, hread, h₀, h₁, bind, Except.bind, pure, Except.pure]

theorem SignatureConflict.reproduces :
    Reproduces toJson ofDraft fun c => c.signature.Written := by
  intro c hc
  obtain ⟨hsignature, hsignature'⟩ := Signature.reproduces c.signature hc
  obtain ⟨hroles, hroles'⟩ := reproduces_roles c.roles trivial
  refine ⟨.object (by simp [hsignature, hroles]), ?_⟩
  obtain ⟨found, hread, h₀, h₁⟩ := exists_found_pair "struct SignatureConflict"
    (f := field "signature" Signature.ofDraft) (g := field "roles" rolesOfDraft) (by decide)
    rfl rfl hsignature' hroles' ⟨.onInstance, ""⟩ []
  replace hread : Draft.readFields _ _ c.toJson.draft = .ok found := hread
  simp [ofDraft, hread, h₀, h₁, bind, Except.bind, pure, Except.pure]

theorem Provider.reproduces : Reproduces toJson ofDraft fun _ => True := by
  rintro (_ | ⟨origin, via⟩) -
  · exact ⟨.object (by simp [Json.Plain.text]), rfl⟩
  · exact ⟨.object (by simp [Json.Plain.text]), rfl⟩

/-! ## What is read -/

theorem forall_of_mapM_eq_ok {ε α β : Type} {f : α → Except ε β} {P : β → Prop}
    (h : ∀ a b, f a = .ok b → P b) {l : List α} {bs : List β} (hl : l.mapM f = .ok bs) :
    ∀ b ∈ bs, P b := by
  induction l generalizing bs with
  | nil =>
    cases hl
    simp
  | cons a l ih =>
    rw [List.mapM_cons] at hl
    obtain ⟨b, hb, hl⟩ := exists_of_bind_eq_ok hl
    obtain ⟨bs', hbs, hl⟩ := exists_of_bind_eq_ok hl
    cases hl
    exact List.forall_mem_cons.2 ⟨h a b hb, ih hbs⟩

section

variable {α : Type} {f : Draft → Read α} {P : α → Prop} (h : ∀ d a, f d = .ok a → P a)

include h

theorem forall_of_readList {d : Draft} {l : List α} (hl : Draft.readList f d = .ok l) :
    ∀ a ∈ l, P a := by
  unfold Draft.readList at hl
  split at hl
  · obtain ⟨values, hvalues, hl⟩ := exists_of_bind_eq_ok hl
    split_ifs at hl
    cases hl
    exact forall_of_mapM_eq_ok h hvalues
  · exact absurd hl Draft.reject_ne_ok

theorem of_found {found : Draft.Found} {i : Nat} {default a : α}
    (hdefault : found.get? i = none → P default) (ha : found.read i default f = .ok a) : P a := by
  unfold Draft.Found.read at ha
  split at ha
  · exact h _ a ha
  · next hnone =>
    cases ha
    exact hdefault hnone

end

theorem Signature.written_of_ofDraft (d : Draft) (s : Signature) (h : ofDraft d = .ok s) :
    s.Written := by
  obtain ⟨text, -, h⟩ := exists_of_bind_eq_ok h
  unfold Signature.read at h
  cases hparse : parse text with
  | error fault => simp [hparse, Json.misfit] at h
  | ok s' =>
    obtain rfl : s' = s := by simpa [hparse] using h
    exact ⟨text, hparse⟩

theorem written_of_signaturesOfDraft (d : Draft) (l : List Signature)
    (h : signaturesOfDraft d = .ok l) : ∀ s ∈ l, s.Written :=
  forall_of_readList Signature.written_of_ofDraft h

/-- A veto that is read has its method. -/
theorem VetoDecl.written_of_ofDraft (d : Draft) (v : VetoDecl) (h : ofDraft d = .ok v) :
    v.Written := by
  obtain ⟨found, hfound, h⟩ := exists_of_bind_eq_ok h
  obtain ⟨role, -, h⟩ := exists_of_bind_eq_ok h
  obtain ⟨method, hmethod, h⟩ := exists_of_bind_eq_ok h
  cases h
  refine of_found Signature.written_of_ofDraft (fun hnone => ?_) hmethod
  have hsome : (found.get? 1).isSome = true :=
    Draft.isSome_of_readFields (f := field "method" Signature.ofDraft) hfound (by simp) rfl
  rw [hnone] at hsome
  cases hsome

theorem RoleDecl.written_of_ofDraft (d : Draft) (r : RoleDecl) (h : ofDraft d = .ok r) :
    r.Written := by
  obtain ⟨found, -, h⟩ := exists_of_bind_eq_ok h
  obtain ⟨name, -, h⟩ := exists_of_bind_eq_ok h
  obtain ⟨requires, hrequires, h⟩ := exists_of_bind_eq_ok h
  obtain ⟨provides, hprovides, h⟩ := exists_of_bind_eq_ok h
  obtain ⟨privates, hprivates, h⟩ := exists_of_bind_eq_ok h
  obtain ⟨composes, -, h⟩ := exists_of_bind_eq_ok h
  obtain ⟨storage, -, h⟩ := exists_of_bind_eq_ok h
  cases h
  exact ⟨of_found written_of_signaturesOfDraft (by simp) hrequires,
    of_found written_of_signaturesOfDraft (by simp) hprovides,
    of_found written_of_signaturesOfDraft (by simp) hprivates⟩

theorem TypeDecl.written_of_ofDraft (d : Draft) (t : TypeDecl) (h : ofDraft d = .ok t) :
    t.Written := by
  obtain ⟨found, -, h⟩ := exists_of_bind_eq_ok h
  obtain ⟨name, -, h⟩ := exists_of_bind_eq_ok h
  obtain ⟨adopts, -, h⟩ := exists_of_bind_eq_ok h
  obtain ⟨implements, himplements, h⟩ := exists_of_bind_eq_ok h
  obtain ⟨veto, hveto, h⟩ := exists_of_bind_eq_ok h
  cases h
  exact ⟨of_found written_of_signaturesOfDraft (by simp) himplements,
    of_found (fun _ _ => forall_of_readList VetoDecl.written_of_ofDraft) (by simp) hveto⟩

theorem Manifest.written_of_ofDraft (d : Draft) (m : Manifest) (h : ofDraft d = .ok m) :
    m.Written := by
  obtain ⟨found, -, h⟩ := exists_of_bind_eq_ok h
  obtain ⟨roles, hroles, h⟩ := exists_of_bind_eq_ok h
  obtain ⟨types, htypes, h⟩ := exists_of_bind_eq_ok h
  cases h
  exact ⟨of_found (fun _ _ => forall_of_readList RoleDecl.written_of_ofDraft) (by simp) hroles,
    of_found (fun _ _ => forall_of_readList TypeDecl.written_of_ofDraft) (by simp) htypes⟩

theorem Manifest.written_of_ofText {s : String} {m : Manifest} (h : ofText s = .ok m) :
    m.Written := by
  obtain ⟨m', hm', h⟩ := exists_of_bind_eq_ok h
  split_ifs at h
  cases h
  exact written_of_ofDraft _ m hm'

/-! ## What is read from TOML -/

namespace Toml

theorem forall_of_asList? {α : Type} {item : Toml → Option α} {P : α → Prop}
    (h : ∀ t a, item t = some a → P a) {t : Toml} {l : List α} (hl : asList? item t = some l) :
    ∀ a ∈ l, P a := by
  unfold asList? at hl
  split at hl
  · next items =>
    induction items generalizing l with
    | nil =>
      cases hl
      simp
    | cons t items ih =>
      rw [List.mapM_cons] at hl
      obtain ⟨a, ha, hl⟩ := Option.bind_eq_some_iff.1 hl
      obtain ⟨l', hl', hl⟩ := Option.bind_eq_some_iff.1 hl
      cases hl
      exact List.forall_mem_cons.2 ⟨h t a ha, ih hl'⟩
  · cases hl

theorem forall_of_listed {α : Type} {item : Toml → Option α} {P : α → Prop}
    (h : ∀ t a, item t = some a → P a) {t : Option Toml} {l : List α}
    (hl : listed item t = some l) : ∀ a ∈ l, P a := by
  cases t with
  | none =>
    cases hl
    simp
  | some t => exact forall_of_asList? h hl

end Toml

theorem Signature.written_of_ofToml? (t : Toml) (s : Signature) (h : ofToml? t = some s) :
    s.Written := by
  obtain ⟨text, -, h⟩ := Option.bind_eq_some_iff.1 h
  cases hparse : parse text with
  | error fault =>
    rw [hparse] at h
    cases h
  | ok s' =>
    rw [hparse] at h
    cases h
    exact ⟨text, hparse⟩

theorem VetoDecl.written_of_ofToml? (t : Toml) (v : VetoDecl) (h : ofToml? t = some v) :
    v.Written := by
  obtain ⟨values, -, h⟩ := Option.bind_eq_some_iff.1 h
  split at h
  · obtain ⟨role, -, h⟩ := Option.bind_eq_some_iff.1 h
    obtain ⟨method, hmethod, h⟩ := Option.bind_eq_some_iff.1 h
    cases h
    unfold Toml.required at hmethod
    split at hmethod
    · exact Signature.written_of_ofToml? _ method hmethod
    · cases hmethod
  · cases h

theorem RoleDecl.written_of_ofToml? (t : Toml) (r : RoleDecl) (h : ofToml? t = some r) :
    r.Written := by
  obtain ⟨values, -, h⟩ := Option.bind_eq_some_iff.1 h
  split at h
  · obtain ⟨name, -, h⟩ := Option.bind_eq_some_iff.1 h
    obtain ⟨requires, hrequires, h⟩ := Option.bind_eq_some_iff.1 h
    obtain ⟨provides, hprovides, h⟩ := Option.bind_eq_some_iff.1 h
    obtain ⟨privates, hprivates, h⟩ := Option.bind_eq_some_iff.1 h
    obtain ⟨composes, -, h⟩ := Option.bind_eq_some_iff.1 h
    obtain ⟨storage, -, h⟩ := Option.bind_eq_some_iff.1 h
    cases h
    exact ⟨Toml.forall_of_listed Signature.written_of_ofToml? hrequires,
      Toml.forall_of_listed Signature.written_of_ofToml? hprovides,
      Toml.forall_of_listed Signature.written_of_ofToml? hprivates⟩
  · cases h

theorem TypeDecl.written_of_ofToml? (t : Toml) (d : TypeDecl) (h : ofToml? t = some d) :
    d.Written := by
  obtain ⟨values, -, h⟩ := Option.bind_eq_some_iff.1 h
  split at h
  · obtain ⟨name, -, h⟩ := Option.bind_eq_some_iff.1 h
    obtain ⟨adopts, -, h⟩ := Option.bind_eq_some_iff.1 h
    obtain ⟨implements, himplements, h⟩ := Option.bind_eq_some_iff.1 h
    obtain ⟨veto, hveto, h⟩ := Option.bind_eq_some_iff.1 h
    cases h
    exact ⟨Toml.forall_of_listed Signature.written_of_ofToml? himplements,
      Toml.forall_of_listed VetoDecl.written_of_ofToml? hveto⟩
  · cases h

theorem Manifest.written_of_ofTomlText? {s : String} {m : Manifest} (h : ofTomlText? s = some m) :
    m.Written := by
  obtain ⟨t, -, h⟩ := Option.bind_eq_some_iff.1 h
  obtain ⟨values, -, h⟩ := Option.bind_eq_some_iff.1 h
  split at h
  · obtain ⟨roles, hroles, h⟩ := Option.bind_eq_some_iff.1 h
    obtain ⟨types, htypes, h⟩ := Option.bind_eq_some_iff.1 h
    cases h
    exact ⟨Toml.forall_of_listed RoleDecl.written_of_ofToml? hroles,
      Toml.forall_of_listed TypeDecl.written_of_ofToml? htypes⟩
  · cases h

/-! ## There and back -/

/-- A value is what both of its texts stand for. -/
def ReadsBack {α : Type} (toJson : α → Json) (ofDraft : Draft → Read α) (a : α) : Prop :=
  readText ofDraft (toJson a).toText = .ok a ∧ readText ofDraft (toJson a).toPrettyText = .ok a

/-- Manifests and their records, providers and the records of errors are read back from what is
written of them, if their signatures are ones that a text stands for. So a manifest that was read is
read again from what is written of it. -/
theorem readText_toText :
    (∀ m : Manifest, m.Written →
      Manifest.ofText m.toJson.toText = .ok m ∧ Manifest.ofText m.toPrettyText = .ok m) ∧
    (∀ r : RoleDecl, r.Written → ReadsBack RoleDecl.toJson RoleDecl.ofDraft r) ∧
    (∀ t : TypeDecl, t.Written → ReadsBack TypeDecl.toJson TypeDecl.ofDraft t) ∧
    (∀ v : VetoDecl, v.Written → ReadsBack VetoDecl.toJson VetoDecl.ofDraft v) ∧
    (∀ p : Provider, ReadsBack Provider.toJson Provider.ofDraft p) ∧
    (∀ m : MissingCapability, m.signature.Written →
      ReadsBack MissingCapability.toJson MissingCapability.ofDraft m) ∧
    (∀ c : SignatureConflict, c.signature.Written →
      ReadsBack SignatureConflict.toJson SignatureConflict.ofDraft c) ∧
    ∀ text m, Manifest.ofText text = .ok m ∨ Manifest.ofTomlText? text = some m →
      Manifest.ofText m.toJson.toText = .ok m ∧ Manifest.ofText m.toPrettyText = .ok m := by
  have hmanifest (m : Manifest) (h : m.Written) :
      Manifest.ofText m.toJson.toText = .ok m ∧ Manifest.ofText m.toPrettyText = .ok m :=
    Manifest.reproduces.readText h
  refine ⟨hmanifest, fun r => RoleDecl.reproduces.readText, fun t => TypeDecl.reproduces.readText,
    fun v => VetoDecl.reproduces.readText, fun p => Provider.reproduces.readText trivial,
    fun m => MissingCapability.reproduces.readText, fun c => SignatureConflict.reproduces.readText,
    fun text m h => hmanifest m ?_⟩
  rcases h with h | h
  · exact Manifest.written_of_ofText h
  · exact Manifest.written_of_ofTomlText? h

/-- A manifest with texts that are not written as they are. -/
def Sample.oddities : Manifest where
  roles := [{
    name := ⟨"say \"hi\"\\\n"⟩
    requires := [⟨.onType, "type::ring"⟩]
    storage := ["", "\x07\x1f", "𝄞"] }]
  types := [{
    name := "\t"
    adopts := [⟨"say \"hi\"\\\n"⟩]
    veto := [⟨⟨"/"⟩, ⟨.onInstance, "ring"⟩⟩] }]

/-- Quotes, controls and a mark within a name come back as they were. -/
theorem readText_toText_oddities :
    Manifest.ofText Sample.oddities.toJson.toText = .ok Sample.oddities ∧
      Manifest.ofText Sample.oddities.toPrettyText = .ok Sample.oddities := by
  have htype : (⟨.onType, "type::ring"⟩ : Signature).Written :=
    ⟨" type::type::ring", by decide +kernel⟩
  have hinstance : (⟨.onInstance, "ring"⟩ : Signature).Written := ⟨"ring", by decide +kernel⟩
  refine readText_toText.1 Sample.oddities ⟨fun r hr => ?_, fun t ht => ?_⟩
  · rw [List.mem_singleton.1 hr]
    exact ⟨by simpa using htype, by simp, by simp⟩
  · rw [List.mem_singleton.1 ht]
    exact ⟨by simp, by simpa [VetoDecl.Written] using hinstance⟩

end RoleComposition
