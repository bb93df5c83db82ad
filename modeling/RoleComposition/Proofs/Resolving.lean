import RoleComposition.Proofs.Reachability
import RoleComposition.Proofs.Registering

/-!
# Resolving roots

Roots either resolve to an order of the roles that they reach, or they do not, and the error says
what is in the way. Main statements: `order_of_roots` (when they resolve, and to what) and
`hindrance_of_roots` (what an error names; among registered roles no cycle is that of one role
alone).
-/

namespace RoleComposition

variable {reg : Registry} {roots : List RoleId}

namespace Registry

/-- Definitions in an order in which roots resolve: those of the roles that the roots reach, each
role once, and after all that it composes. -/
structure Orders (reg : Registry) (roots : List RoleId) (order : List RoleDefinition) : Prop where
  registered : ∀ r ∈ order, reg.lookup r.id = .ok r
  once : (order.map RoleDefinition.id).Nodup
  mem_iff : ∀ b, b ∈ order.map RoleDefinition.id ↔ reg.ReachedFrom roots b
  after : ∀ before r later, order = before ++ r :: later →
    ∀ b ∈ r.composed, b ∈ before.map RoleDefinition.id

theorem orders_of_resolutionOrder {order : List RoleDefinition}
    (h : reg.resolutionOrder roots = .ok order) : reg.Orders roots order := by
  have hlayered := (walked_of_resolutionOrder h).layered
  refine ⟨fun r hr => hlayered.lookup hr, hlayered.nodup, fun b => ?_, ?_⟩
  · rw [List.mem_map]
    constructor
    · rintro ⟨r, hr, rfl⟩
      exact ((mem_resolutionOrder h).1 hr).1
    · intro hb
      obtain ⟨d, hd⟩ := (resolvesWithin_of_reachedFrom h hb).registered
      have hid := id_of_lookup hd
      exact ⟨d, (mem_resolutionOrder h).2 ⟨hid.symm ▸ hb, hid.symm ▸ hd⟩, hid⟩
  · intro before r later horder b hb
    exact List.mem_map.2 (hlayered.before horder hb)

/-- Roots resolve exactly if every role that they reach is registered and lies on no cycle, and they
resolve to these roles, each once and after all that it composes. -/
theorem order_of_roots (reg : Registry) (roots : List RoleId) :
    ((∃ order, reg.resolutionOrder roots = .ok order) ↔
      ∀ b, reg.ReachedFrom roots b → reg.contains b = true ∧ ¬ reg.OnCycle b) ∧
      ∀ order, reg.resolutionOrder roots = .ok order → reg.Orders roots order := by
  refine ⟨?_, fun order => orders_of_resolutionOrder⟩
  rw [resolutionOrder_isOk]
  constructor
  · rintro ⟨hregistered, hacyclic⟩ b hb
    exact ⟨hregistered b hb, hacyclic b hb⟩
  · intro h
    exact ⟨fun b hb => (h b hb).1, fun b hb => (h b hb).2⟩

end Registry

namespace Sample

/-- A role of some name that composes those of other names. -/
def linking (name : String) (composed : List String) : RoleDefinition :=
  { id := ⟨name⟩, composed := composed.map RoleId.mk }

/-- Roles that are registered one after the other. -/
def linked (roles : List RoleDefinition) : RegistryBuilder :=
  ({} : RegistryBuilder).registerEach roles

/-- Two roles share one that they compose, and one more leads to both. -/
def sharing : RegistryBuilder :=
  linked [linking "gate" ["yard", "hall"], linking "hall" ["stair"], linking "yard" ["stair"],
    linking "stair" [], linking "loft" ["stair"]]

/-- A walk from the first role leaves one behind it and comes to a cycle. -/
def winding : RegistryBuilder :=
  linked [linking "gate" ["yard", "hall"], linking "yard" [], linking "hall" ["yard", "stair"],
    linking "stair" ["loft"], linking "loft" ["yard", "hall"]]

end Sample

/-- What is shared, and a root that is named again, stands in the order once; what no root reaches
does not. -/
theorem order_of_roots_sharing :
    let roots : List RoleId := [⟨"yard"⟩, ⟨"gate"⟩, ⟨"yard"⟩]
    ∃ order, Sample.sharing.freeze.resolutionOrder roots = .ok order ∧
      Sample.sharing.freeze.Orders roots order ∧
      order.map RoleDefinition.id = [⟨"stair"⟩, ⟨"yard"⟩, ⟨"hall"⟩, ⟨"gate"⟩] := by
  intro roots
  have hrun : (Sample.sharing.freeze.resolutionOrder roots).map (List.map RoleDefinition.id) =
      .ok [⟨"stair"⟩, ⟨"yard"⟩, ⟨"hall"⟩, ⟨"gate"⟩] := by
    decide +kernel
  cases horder : Sample.sharing.freeze.resolutionOrder roots with
  | error error =>
    rw [horder] at hrun
    cases hrun
  | ok order =>
    rw [horder] at hrun
    have horders := (Registry.order_of_roots _ roots).2 order horder
    exact ⟨order, rfl, horders, Except.ok.inj hrun⟩

namespace Registry

/-- Registration refuses a role that composes itself. -/
theorem Composes.ne {b : RegistryBuilder} (hb : b.Filled) (hdef : reg.definitions = b.roles)
    {a c : RoleId} (h : reg.Composes a c) : a ≠ c := by
  rintro rfl
  obtain ⟨d, hd, ha⟩ := h
  have hmem : d ∈ b.roles := hdef ▸ mem_definitions_of_lookup hd
  rw [← id_of_lookup hd] at ha
  exact (RoleDefinition.validate_eq_ok.1 (hb.validates d hmem)).2 ha

/-- Roots that do not resolve are hindered by what the error names. A cycle among roles that were
registered has at least two of them. -/
theorem hindrance_of_roots {error : CompositionError}
    (h : reg.resolutionOrder roots = .error error) :
    reg.Hinders roots error ∧
      ∀ b : RegistryBuilder, b.Filled → reg.definitions = b.roles →
        ∀ cycle, error = .roleCycle cycle → ∃ a ∈ cycle, ∃ c ∈ cycle, a ≠ c := by
  have hinders := hinders_of_resolutionOrder h
  refine ⟨hinders, ?_⟩
  rintro b hb hdef cycle rfl
  cases hinders with
  | @cycle a others _ _ hlinked =>
    -- the second role of the cycle is composed by the first, so it is another one
    cases others with
    | nil =>
      have hself : reg.Composes a a := (List.isChain_cons_cons.1 hlinked).1
      exact absurd rfl (hself.ne hb hdef)
    | cons c others =>
      have hac : reg.Composes a c := (List.isChain_cons_cons.1 hlinked).1
      exact ⟨a, by simp, c, by simp, hac.ne hb hdef⟩

end Registry

/-- The cycle is cut out of the path from where it is met again, and without what was left. -/
theorem hindrance_of_roots_winding :
    let cycle : List RoleId := [⟨"hall"⟩, ⟨"stair"⟩, ⟨"loft"⟩, ⟨"hall"⟩]
    Sample.winding.freeze.resolutionOrder [⟨"yard"⟩, ⟨"gate"⟩] = .error (.roleCycle cycle) ∧
      Sample.winding.Filled ∧
      Sample.winding.freeze.Hinders [⟨"yard"⟩, ⟨"gate"⟩] (.roleCycle cycle) ∧
      ∃ a ∈ cycle, ∃ c ∈ cycle, a ≠ c := by
  intro cycle
  have hrun : (Sample.winding.freeze.resolutionOrder [⟨"yard"⟩, ⟨"gate"⟩]).map (fun _ => ()) =
      .error (.roleCycle cycle) := by
    decide +kernel
  cases horder : Sample.winding.freeze.resolutionOrder [⟨"yard"⟩, ⟨"gate"⟩] with
  | ok order =>
    rw [horder] at hrun
    cases hrun
  | error error =>
    rw [horder] at hrun
    cases hrun
    have hfilled : Sample.winding.Filled := RegistryBuilder.Filled.new.registerEach _
    obtain ⟨hinders, htwo⟩ := Registry.hindrance_of_roots horder
    exact ⟨rfl, hfilled, hinders,
      htwo _ hfilled (RegistryBuilder.definitions_freeze _) cycle rfl⟩

end RoleComposition
