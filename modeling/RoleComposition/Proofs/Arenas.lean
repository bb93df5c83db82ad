import Mathlib.Logic.Function.Basic
import RoleComposition.Proofs.Openings

/-!
# The arena of an engine

An engine keeps its types in an arena: the handles in a list, and by each name the index of its
handle in the list. A declaration enters a type in both, and hands its handle out. As long as there
are indices, the arena for the types of a sound engine agrees with itself and with the entries that
its handles share, and a declaration goes with it as it goes with the engine. Main statements:
`orderly_host`, `agrees_host` and `declares_host`.
-/

namespace RoleComposition

/-- A handle of a type: the place of the entry that it shares, and the index that stands in it. -/
structure Pointer where
  place : Nat
  index : UInt32
deriving DecidableEq, Repr

/-- What an engine finds handles in. Nothing but the steps that are taken on them keeps the list and
the indices together. -/
structure Arena where
  slots : List Pointer := []
  byName : String → Option UInt32 := fun _ => none

/-- An engine with its arena, and the handles that declarations have handed out, in order. -/
structure Host where
  engine : Engine
  arena : Arena := {}
  issued : List (AdoptingType × Pointer) := []

/-- Why a step of a host fails: a declaration is refused, or has no index left, or the engine
halts. -/
inductive HostFault where
  | refused (error : CompositionError)
  | full (last : UInt32)
  | halted (halt : Halt)

/-- A step of a host. What it has entered stays when it fails. -/
abbrev HostM := ExceptT HostFault (StateM Host)

namespace HostM

/-- The index behind so many. -/
def nextIndex (n : Nat) : HostM UInt32 :=
  if n < UInt32.size then pure (UInt32.ofNat n)
  else throw (.full (UInt32.ofNat (UInt32.size - 1)))

/-- Makes an entry for a type, and enters its handle in the list and its index under its name. -/
def enter (t : AdoptingType) (index : UInt32) : HostM Pointer := do
  let handle : Pointer := ⟨(← get).engine.types.length, index⟩
  modify fun h => { h with engine := h.engine.adding t }
  modify fun h => { h with arena := { h.arena with slots := h.arena.slots ++ [handle] } }
  modify fun h =>
    { h with
      arena := { h.arena with byName := Function.update h.arena.byName t.name (some index) } }
  modify fun h => { h with issued := h.issued ++ [(t, handle)] }
  return handle

/-- Declares a type under a new name. -/
def declare (t : AdoptingType) : HostM Pointer := do
  let host ← get
  if (host.arena.byName t.name).isSome then throw (.refused (.duplicateType t.name))
  enter t (← nextIndex host.arena.slots.length)

/-- Declares a listed type with its bodies. -/
def declareListed (c : Catalog) (d : TypeDecl) : HostM Pointer := do
  declare (← ExceptT.mk (pure ((d.toAdoptingType c).mapError .refused)))

/-- Declares the types of a manifest in turn. -/
def declareTypes (m : Manifest) (c : Catalog) : HostM (List Pointer) :=
  m.types.mapM (declareListed c)

end HostM

/-- The definitions of the declared types, in order. -/
def Engine.definitions (e : Engine) : List AdoptingType := e.types.map TypeEntry.definition

namespace Host

/-- The handle under a name. -/
def handle (h : Host) (name : String) : Except CompositionError Pointer :=
  match (h.arena.byName name).bind fun i => h.arena.slots[i.toNat]? with
  | some p => .ok p
  | none => .error (.unknownType name)

/-- The handle at an index. -/
def handleAt (h : Host) (i : UInt32) : Option Pointer := h.arena.slots[i.toNat]?

/-- The entry that a handle shares. -/
def shared? (h : Host) (p : Pointer) : Option TypeEntry := h.engine.types[p.place]?

/-- The names of the declared types. -/
def names (h : Host) : List String := h.issued.map fun x => x.1.name

/-- Names are distinct, the `i`-th handle has the index `i`, and by the name of its type as by its
index that handle is found which its declaration has handed out. It shares the entry of its type. No
other name is known. -/
structure Orderly (h : Host) : Prop where
  distinct : h.names.Nodup
  dense : ∀ (i : Nat) t p, h.issued[i]? = some (t, p) → p.index.toNat = i
  found : ∀ t p, (t, p) ∈ h.issued → h.handle t.name = .ok p ∧ h.handleAt p.index = some p ∧
    ∃ entry, h.shared? p = some entry ∧ entry.definition = t ∧ h.engine.find? t.name = some entry
  known : ∀ name, (∃ p, h.handle name = .ok p) ↔ name ∈ h.names
  unknown : ∀ name, name ∉ h.names → h.handle name = .error (.unknownType name)

/-- Engine and arena give the same handles, and declare alike. -/
structure Agrees (h : Host) : Prop where
  handles : h.engine.handles = h.issued.map fun x => Handle.mk x.2.index.toNat x.1.name
  handle : ∀ name, h.engine.handle name = (h.handle name).map fun p => ⟨p.index.toNat, name⟩
  handleAt : ∀ i : UInt32, h.engine.handleAt i.toNat =
    (h.handleAt i).bind fun p => (h.shared? p).map fun t => ⟨p.index.toNat, t.definition.name⟩
  declared : ∀ t handle e', h.engine.declare t = .ok (handle, e') → ∃ p h',
    runFrom (HostM.declare t) h = (.ok p, h') ∧ h'.engine = e' ∧ handle = ⟨p.index.toNat, t.name⟩
  refused : ∀ t error, h.engine.declare t = .error error →
    runFrom (HostM.declare t) h = (.error (.refused error), h)

/-- A type is declared under a new name, and under a known name nothing changes. If the types of a
manifest are not all declared, then those before the first that fails are. -/
structure Declares (h : Host) : Prop where
  accepts : ∀ t, t.name ∉ h.names → ∃ p h', runFrom (HostM.declare t) h = (.ok p, h') ∧
    h'.engine = h.engine.adding t ∧ h'.issued = h.issued ++ [(t, p)]
  refuses : ∀ t, t.name ∈ h.names →
    runFrom (HostM.declare t) h = (.error (.refused (.duplicateType t.name)), h)
  stops : ∀ m c fault h', runFrom (HostM.declareTypes m c) h = (.error fault, h') →
    ∃ before d after added, m.types = before ++ d :: after ∧
      before.Forall₂ (fun d x => d.toAdoptingType c = .ok x.1) added ∧
      h'.engine = { h.engine with
        types := h.engine.types ++ added.map fun x => { definition := x.1 } } ∧
      h'.issued = h.issued ++ added ∧
      runFrom (HostM.declareListed c d) h' = (.error fault, h')

end Host

/-! ## The arena of some definitions -/

/-- The handle that is handed out behind so many. -/
def Pointer.nth (n : Nat) : Pointer := ⟨n, UInt32.ofNat n⟩

/-- The arena for some types. -/
def Arena.of (ds : List AdoptingType) : Arena where
  slots := (List.range ds.length).map Pointer.nth
  byName name := (ds.findIdx? fun t => t.name == name).map UInt32.ofNat

/-- An engine with the arena for its types. -/
def Engine.host (e : Engine) : Host where
  engine := e
  arena := .of e.definitions
  issued := e.definitions.zipIdx.map fun x => (x.1, .nth x.2)

variable {e e' : Engine} {t : AdoptingType} {name : String}

theorem Arena.of_append {ds : List AdoptingType} (hnew : t.name ∉ ds.map AdoptingType.name) :
    Arena.of (ds ++ [t]) =
      { slots := (Arena.of ds).slots ++ [.nth ds.length]
        byName := Function.update (Arena.of ds).byName t.name (some (UInt32.ofNat ds.length)) } := by
  unfold Arena.of
  congr 1
  · rw [List.length_append, List.length_singleton, List.range_succ, List.map_append,
      List.map_singleton]
  · funext name
    rw [List.findIdx?_append]
    by_cases hname : name = t.name
    · subst hname
      have hnone : ds.findIdx? (fun d => d.name == t.name) = none := by
        refine List.findIdx?_eq_none_iff.2 fun d hd => ?_
        have hne : d.name ≠ t.name := fun heq => hnew (heq ▸ List.mem_map_of_mem hd)
        simpa using hne
      simp [hnone]
    · simp [Function.update_of_ne hname, Ne.symm hname]

theorem Pointer.index_nth {n : Nat} (h : n < UInt32.size) : (nth n).index.toNat = n :=
  UInt32.toNat_ofNat_of_lt' h

namespace Engine

theorem length_definitions (e : Engine) : e.definitions.length = e.types.length :=
  List.length_map _

theorem definitions_adding (e : Engine) (t : AdoptingType) :
    (e.adding t).definitions = e.definitions ++ [t] := List.map_append

theorem names_host (e : Engine) : e.host.names = e.definitions.map AdoptingType.name := by
  unfold Host.names host
  rw [List.map_map]
  show e.definitions.zipIdx.map (AdoptingType.name ∘ Prod.fst) = _
  rw [← List.map_map, List.zipIdx_map_fst]

theorem nodup_names_host (hs : e.Sound) : e.host.names.Nodup := by
  rw [names_host]
  unfold definitions
  rw [List.map_map]
  exact hs.distinct

theorem mem_names_host : name ∈ e.host.names ↔ (e.find? name).isSome := by
  unfold find?
  rw [names_host, List.isSome_find?, List.any_eq_true]
  unfold definitions
  simp

theorem isSome_byName (e : Engine) (name : String) :
    (e.host.arena.byName name).isSome = (e.find? name).isSome := by
  unfold find? host Arena.of definitions
  simp [List.findIdx?_isSome, List.isSome_find?, Function.comp_def]

/-- A type of a new name gets one more entry in each part of the arena. -/
theorem host_adding (hnew : e.find? t.name = none) :
    (e.adding t).host =
      { engine := e.adding t
        arena :=
          { slots := e.host.arena.slots ++ [.nth e.types.length]
            byName := Function.update e.host.arena.byName t.name
              (some (UInt32.ofNat e.types.length)) }
        issued := e.host.issued ++ [(t, .nth e.types.length)] } := by
  have hname : t.name ∉ e.definitions.map AdoptingType.name := by
    rw [← names_host, mem_names_host, hnew]
    exact Bool.false_ne_true
  unfold host
  rw [definitions_adding, Arena.of_append hname, List.zipIdx_append, List.map_append,
    length_definitions]
  simp

/-- A change of entries that keeps their definitions leaves the arena as it is. -/
theorem host_of_definitions (h : e'.definitions = e.definitions) :
    { e.host with engine := e' } = e'.host := by
  unfold host
  rw [h]

end Engine

/-! ## What an arena holds -/

namespace Engine

theorem issued_host_getElem? (e : Engine) (i : Nat) :
    e.host.issued[i]? = e.types[i]?.map fun entry => (entry.definition, Pointer.nth i) := by
  unfold host definitions
  simp [List.getElem?_zipIdx, Function.comp_def]

theorem mem_issued_host {p : Pointer} :
    (t, p) ∈ e.host.issued ↔ ∃ i entry, e.types[i]? = some entry ∧ entry.definition = t ∧
      p = .nth i := by
  rw [List.mem_iff_getElem?]
  simp only [issued_host_getElem?, Option.map_eq_some_iff, Prod.mk.injEq, @eq_comm _ p]

theorem slots_host_getElem? (e : Engine) (i : Nat) :
    e.host.arena.slots[i]? = e.types[i]?.map fun _ => Pointer.nth i := by
  unfold host Arena.of
  rw [List.getElem?_map, length_definitions]
  by_cases hi : i < e.types.length <;> simp [hi]

theorem handleAt_host (e : Engine) (i : UInt32) :
    e.host.handleAt i = e.types[i.toNat]?.map fun _ => Pointer.nth i.toNat :=
  slots_host_getElem? e i.toNat

/-- While indices last, a name is found at the place of its type. -/
theorem handle_host (hfew : e.types.length ≤ UInt32.size) (name : String) :
    e.host.handle name =
      match e.types.findIdx? fun t => t.definition.name == name with
      | some i => .ok (.nth i)
      | none => .error (.unknownType name) := by
  have hindex : e.host.arena.byName name =
      (e.types.findIdx? fun t => t.definition.name == name).map UInt32.ofNat := by
    unfold host Arena.of definitions
    dsimp only
    rw [List.findIdx?_map]
    rfl
  unfold Host.handle
  rw [hindex]
  cases hi : e.types.findIdx? fun t => t.definition.name == name with
  | none => rfl
  | some i =>
    obtain ⟨hlt, -, -⟩ := List.findIdx?_eq_some_iff_getElem.1 hi
    rw [Option.map_some, Option.bind_some, show UInt32.ofNat i = (Pointer.nth i).index from rfl,
      Pointer.index_nth (hlt.trans_le hfew), slots_host_getElem?,
      List.getElem?_eq_getElem hlt]
    rfl

/-- Under distinct names, each entry is the first one of its name. -/
theorem findIdx?_of_distinct (hd : (e.types.map fun t => t.definition.name).Nodup) {i : Nat}
    {entry : TypeEntry} (hi : e.types[i]? = some entry) :
    e.types.findIdx? (fun t => t.definition.name == entry.definition.name) = some i := by
  obtain ⟨hlt, rfl⟩ := List.getElem?_eq_some_iff.1 hi
  refine List.findIdx?_eq_some_iff_getElem.2 ⟨hlt, by simp, fun j hji heq => ?_⟩
  have hne := List.pairwise_iff_getElem.1 (List.pairwise_map.1 hd) j i (hji.trans hlt) hlt hji
  exact hne (by simpa using heq)

/-- While indices last, the arena for the types of a sound engine agrees with itself. -/
theorem orderly_host (hs : e.Sound) (hfew : e.types.length ≤ UInt32.size) : e.host.Orderly := by
  have hknown : ∀ name, (∃ p, e.host.handle name = .ok p) ↔ name ∈ e.host.names := by
    intro name
    rw [handle_host hfew, mem_names_host]
    unfold find?
    rw [List.isSome_find?, ← List.findIdx?_isSome]
    cases e.types.findIdx? fun t => t.definition.name == name <;> simp
  refine ⟨nodup_names_host hs, ?_, ?_, hknown, ?_⟩
  · intro i t p hp
    rw [issued_host_getElem?, Option.map_eq_some_iff] at hp
    obtain ⟨entry, hentry, hpair⟩ := hp
    cases hpair
    have hlt := (List.getElem?_eq_some_iff.1 hentry).1
    exact Pointer.index_nth (hlt.trans_le hfew)
  · intro t p hp
    obtain ⟨i, entry, hentry, rfl, rfl⟩ := mem_issued_host.1 hp
    have hlt := (List.getElem?_eq_some_iff.1 hentry).1
    refine ⟨?_, ?_, entry, hentry, rfl, find?_of_mem hs.distinct (List.mem_of_getElem? hentry)⟩
    · rw [handle_host hfew, findIdx?_of_distinct hs.distinct hentry]
    · rw [handleAt_host, Pointer.index_nth (hlt.trans_le hfew), hentry]
      rfl
  · intro name hname
    cases hhandle : e.host.handle name with
    | ok p => exact absurd ((hknown name).1 ⟨p, hhandle⟩) hname
    | error error =>
      rw [handle_host hfew] at hhandle
      cases hi : e.types.findIdx? fun t => t.definition.name == name with
      | some i =>
        rw [hi] at hhandle
        cases hhandle
      | none =>
        rw [hi] at hhandle
        exact hhandle.symm

end Engine

/-! ## Declarations -/

section Declarations

variable {c : Catalog} {d : TypeDecl}

/-- Under a known name nothing is declared. -/
theorem runFrom_declare_of_known (h : (e.find? t.name).isSome) :
    runFrom (HostM.declare t) e.host =
      (.error (.refused (.duplicateType t.name)), e.host) := by
  unfold HostM.declare
  rw [runFrom_bind, runFrom_get]
  simp only [Engine.isSome_byName, h]
  rfl

/-- Under a new name a type is declared while indices last. -/
theorem runFrom_declare_of_new (h : e.find? t.name = none) :
    runFrom (HostM.declare t) e.host =
      if e.types.length < UInt32.size then
        (.ok (.nth e.types.length), (e.adding t).host)
      else (.error (.full (UInt32.ofNat (UInt32.size - 1))), e.host) := by
  have hlength : e.host.arena.slots.length = e.types.length := by
    show ((List.range e.definitions.length).map Pointer.nth).length = _
    rw [List.length_map, List.length_range, Engine.length_definitions]
  unfold HostM.declare
  rw [runFrom_bind, runFrom_get]
  simp only [Engine.isSome_byName, h, hlength, Option.isSome_none, Bool.false_eq_true, if_false]
  unfold HostM.nextIndex
  split_ifs
  · rw [Engine.host_adding h]
    rfl
  · rfl

/-- While indices last, the arena gives what the engine gives. -/
theorem agrees_host (hfew : e.types.length < UInt32.size) : e.host.Agrees := by
  refine ⟨?_, ?_, ?_, ?_, ?_⟩
  · refine List.ext_getElem? fun i => ?_
    rw [List.getElem?_map, Engine.issued_host_getElem?]
    show (e.types.zipIdx.map _)[i]? = _
    rw [List.getElem?_map, List.getElem?_zipIdx]
    cases hi : e.types[i]? with
    | none => rfl
    | some entry =>
      have hlt := (List.getElem?_eq_some_iff.1 hi).1
      simp [Pointer.index_nth (hlt.trans hfew)]
  · intro name
    rw [Engine.handle_host hfew.le]
    show e.handle name = _
    unfold Engine.handle
    cases hi : e.types.findIdx? fun t => t.definition.name == name with
    | none => rfl
    | some i =>
      obtain ⟨hlt, -, -⟩ := List.findIdx?_eq_some_iff_getElem.1 hi
      simp [Except.map, Pointer.index_nth (hlt.trans hfew)]
  · intro i
    rw [Engine.handleAt_host]
    show e.types[i.toNat]?.map _ = _
    cases hi : e.types[i.toNat]? with
    | none => rfl
    | some entry =>
      have hentry : e.host.shared? (.nth i.toNat) = some entry := hi
      rw [Option.map_some, Option.map_some, Option.bind_some, hentry]
      simp [Pointer.index_nth i.toNat_lt]
  · intro t handle e' hdeclare
    replace hdeclare : e.declare t = .ok (handle, e') := hdeclare
    unfold Engine.declare at hdeclare
    split_ifs at hdeclare with hsome
    cases hdeclare
    have hnew : e.find? t.name = none := by simpa using hsome
    refine ⟨.nth e.types.length, (e.adding t).host, ?_, rfl, ?_⟩
    · rw [runFrom_declare_of_new hnew, if_pos hfew]
    · rw [Pointer.index_nth hfew]
  · intro t error hdeclare
    replace hdeclare : e.declare t = .error error := hdeclare
    unfold Engine.declare at hdeclare
    split_ifs at hdeclare with hsome
    cases hdeclare
    exact runFrom_declare_of_known hsome

theorem runFrom_declareListed_of_error {error : CompositionError}
    (h : d.toAdoptingType c = .error error) (host : Host) :
    runFrom (HostM.declareListed c d) host = (.error (.refused error), host) := by
  unfold HostM.declareListed
  rw [h]
  rfl

theorem runFrom_declareListed_of_ok (h : d.toAdoptingType c = .ok t) (host : Host) :
    runFrom (HostM.declareListed c d) host = runFrom (HostM.declare t) host := by
  unfold HostM.declareListed
  rw [h]
  rfl

/-- The engine with some more types. -/
def Engine.addingAll (e : Engine) (ts : List AdoptingType) : Engine :=
  { e with types := e.types ++ ts.map fun t => { definition := t } }

theorem Engine.addingAll_cons (e : Engine) (t : AdoptingType) (ts : List AdoptingType) :
    e.addingAll (t :: ts) = (e.adding t).addingAll ts := by
  unfold addingAll adding
  simp

/-- A listed type is declared, or nothing changes. -/
theorem declareListed_cases (e : Engine) (c : Catalog) (d : TypeDecl) :
    (∃ fault, runFrom (HostM.declareListed c d) e.host = (.error fault, e.host)) ∨
      ∃ t, d.toAdoptingType c = .ok t ∧ e.find? t.name = none ∧
        runFrom (HostM.declareListed c d) e.host =
          (.ok (.nth e.types.length), (e.adding t).host) := by
  cases ht : d.toAdoptingType c with
  | error error => exact .inl ⟨_, runFrom_declareListed_of_error ht e.host⟩
  | ok t =>
    rw [runFrom_declareListed_of_ok ht]
    cases hnew : e.find? t.name with
    | some entry => exact .inl ⟨_, runFrom_declare_of_known (by rw [hnew]; rfl)⟩
    | none =>
      rw [runFrom_declare_of_new hnew]
      split_ifs
      · exact .inr ⟨t, rfl, hnew, rfl⟩
      · exact .inl ⟨_, rfl⟩

/-- Of listed types that are not all declared, those before the first that fails are. -/
theorem split_of_declareTypes {l : List TypeDecl} {fault : HostFault} {h' : Host}
    (h : runFrom (l.mapM (HostM.declareListed c)) e.host = (.error fault, h')) :
    ∃ before d after added, l = before ++ d :: after ∧
      before.Forall₂ (fun d (x : AdoptingType × Pointer) => d.toAdoptingType c = .ok x.1) added ∧
      h' = (e.addingAll (added.map Prod.fst)).host ∧ h'.issued = e.host.issued ++ added ∧
      runFrom (HostM.declareListed c d) h' = (.error fault, h') := by
  induction l generalizing e with
  | nil => cases h
  | cons d l ih =>
    rw [List.mapM_cons] at h
    rcases declareListed_cases e c d with ⟨fault', hd⟩ | ⟨t, ht, hnew, hd⟩
    · rw [runFrom_bind_error hd] at h
      cases h
      refine ⟨[], d, l, [], rfl, .nil, ?_, (List.append_nil _).symm, hd⟩
      unfold Engine.addingAll
      rw [List.map_nil, List.map_nil, List.append_nil]
    · rw [runFrom_bind_ok hd] at h
      have hrest : runFrom (l.mapM (HostM.declareListed c)) (e.adding t).host =
          (.error fault, h') := by
        rw [runFrom_bind] at h
        rcases hl : runFrom (l.mapM (HostM.declareListed c)) (e.adding t).host with ⟨_ | ps, h''⟩
        · rw [hl] at h
          cases h
          rfl
        · rw [hl] at h
          cases h
      obtain ⟨before, d', after, added, rfl, hadded, hhost, hissued, hfail⟩ := ih hrest
      refine ⟨d :: before, d', after, (t, .nth e.types.length) :: added, rfl, .cons ht hadded, ?_,
        ?_, hfail⟩
      · rw [List.map_cons, Engine.addingAll_cons]
        exact hhost
      · rw [hissued, Engine.host_adding hnew, List.append_assoc]
        rfl

/-- While indices last, a declaration succeeds under each new name and under no other. -/
theorem declares_host (hfew : e.types.length < UInt32.size) : e.host.Declares := by
  refine ⟨fun t ht => ?_, fun t ht => ?_, fun m c fault h' hrun => ?_⟩
  · have hnew : e.find? t.name = none := by
      simpa [Engine.mem_names_host] using ht
    refine ⟨.nth e.types.length, (e.adding t).host, ?_, rfl, ?_⟩
    · rw [runFrom_declare_of_new hnew, if_pos hfew]
    · rw [Engine.host_adding hnew]
  · exact runFrom_declare_of_known (Engine.mem_names_host.1 ht)
  · obtain ⟨before, d, after, added, hsplit, hadded, rfl, hissued, hfail⟩ :=
      split_of_declareTypes hrun
    refine ⟨before, d, after, added, hsplit, hadded, ?_, hissued, hfail⟩
    show e.addingAll (added.map Prod.fst) = _
    unfold Engine.addingAll
    rw [List.map_map]
    rfl

/-- While indices last, a listed type is declared as the engine declares it. -/
theorem runFrom_declareListed (hfew : e.types.length < UInt32.size) (c : Catalog) (d : TypeDecl) :
    runFrom (HostM.declareListed c d) e.host =
      match (do return (← e.declare (← d.toAdoptingType c)).2 : Except CompositionError Engine) with
      | .ok e₁ => (.ok (.nth e.types.length), e₁.host)
      | .error error => (.error (.refused error), e.host) := by
  cases ht : d.toAdoptingType c with
  | error error => exact runFrom_declareListed_of_error ht e.host
  | ok t =>
    rw [runFrom_declareListed_of_ok ht, ok_bind]
    unfold Engine.declare
    cases hnew : e.find? t.name with
    | some entry => exact runFrom_declare_of_known (by rw [hnew]; rfl)
    | none => rw [runFrom_declare_of_new hnew, if_pos hfew]; rfl

/-- Declaring types takes none away. -/
theorem length_le_of_declares {l : List TypeDecl} {error : Option CompositionError}
    (h : runSteps (fun e d => do return (← e.declare (← d.toAdoptingType c)).2) e l = (e', error)) :
    e.types.length ≤ e'.types.length := by
  refine holds_of_runSteps (P := fun e' : Engine => e.types.length ≤ e'.types.length)
    (fun e₁ d e₂ hle hstep => ?_) (Nat.le_refl _) h
  obtain ⟨t, -, -, rfl⟩ := exists_of_declare hstep
  refine hle.trans ?_
  unfold Engine.adding
  simp

/-- The types of a manifest are declared as the engine declares them. -/
theorem runFrom_declareTypes {m : Manifest} {c : Catalog}
    (hfew : (m.declareTypes c e).1.types.length < UInt32.size) :
    ∃ ps, runFrom (HostM.declareTypes m c) e.host =
      (match (m.declareTypes c e).2 with
        | none => .ok ps
        | some error => .error (.refused error), (m.declareTypes c e).1.host) := by
  unfold HostM.declareTypes
  unfold Manifest.declareTypes at hfew ⊢
  generalize m.types = l at hfew ⊢
  induction l generalizing e with
  | nil => exact ⟨[], rfl⟩
  | cons d l ih =>
    have hlength := length_le_of_declares (c := c) (e := e) (l := d :: l) rfl
    have hd := runFrom_declareListed (hlength.trans_lt hfew) c d
    rw [List.mapM_cons]
    unfold runSteps at hfew ⊢
    cases hstep : (do return (← e.declare (← d.toAdoptingType c)).2 :
        Except CompositionError Engine) with
    | error error =>
      rw [hstep] at hd
      exact ⟨[], runFrom_bind_error hd⟩
    | ok e₁ =>
      rw [hstep] at hd hfew
      obtain ⟨ps, hl⟩ := ih hfew
      refine ⟨.nth e.types.length :: ps, ?_⟩
      rw [runFrom_bind_ok hd, runFrom_bind, hl]
      dsimp only
      generalize runSteps _ e₁ l = run
      rcases run with ⟨e₂, _ | error⟩ <;> rfl

end Declarations

end RoleComposition
