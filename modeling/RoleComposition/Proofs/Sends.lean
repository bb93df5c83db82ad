import RoleComposition.Proofs.Failures

/-!
# What the bodies of a composed type may send

The check of capabilities and the gathering of methods follow the `composes` lists on ways of their
own, and yet they agree: what a role of a composed type requires or provides is a method of the
type, unless the type's hook has rejected everybody who provides it. So without a hook no body of a
role looks in vain for a method that its role names. Main statements: `get?_eq_none_iff_vetoed` and
`methods_of_effectiveMethods`.
-/

namespace RoleComposition

/-- The calls that a body sends, in order, if a function answers them. -/
def Act.sent (answer : Signature → List Json → CallOutcome) : Act → List (Signature × List Json)
  | .done _ | .fail _ | .panic _ => []
  | .send signature args next =>
    (signature, args) ::
      match answer signature args with
      | .returned value => (next (.ok value)).sent answer
      | .failed error => (next (.error error)).sent answer
      | .panicked _ | .tooDeep => []

/-- A call that a method has sent, and how it has ended. -/
structure Sending where
  sender : MethodEntry
  signature : Signature
  args : List Json
  outcome : CallOutcome

/-- Everything that is sent during a call: by the method that is called, and on the way to the
answer of each call that it sends. -/
def MethodTable.sendings (t : MethodTable) (receiver : Json) :
    Nat → Signature → List Json → List Sending
  | 0, _, _ => []
  | depth + 1, s, args =>
    match t.get? s with
    | none => []
    | some e =>
      ((e.implementation.body ⟨t.typeName, s, receiver⟩ args).sent
          (t.invoke receiver depth)).flatMap fun call =>
        ⟨e, call.1, call.2, t.invoke receiver depth call.1 call.2⟩ ::
          t.sendings receiver depth call.1 call.2

namespace Registry

/-- A role requires a signature or provides it. -/
def Names (reg : Registry) (o : RoleId) (s : Signature) : Prop :=
  reg.Requires o s ∨ ∃ i, reg.Provides o s i

/-- The roles of a type provide a signature that is not its own, and a rule keeps none of them. -/
structure Vetoed (reg : Registry) (t : AdoptingType) (keep : RoleId → Signature → Bool)
    (s : Signature) : Prop where
  notOwn : t.owns s = false
  offered : ∃ o i, reg.ReachedFrom t.declaredRoles o ∧ reg.Provides o s i
  rejected : ∀ o i, reg.ReachedFrom t.declaredRoles o → reg.Provides o s i → keep o s = false

end Registry

/-! ## Calls within calls -/

namespace MethodTable

variable {table : MethodTable} {receiver : Json}

/-- A call of a method that is there does not end with that there is none. A method that is missing
further down is the failure of the body that has called it. -/
theorem invoke_ne_methodNotFound {depth : Nat} {s : Signature} {args : List Json}
    (h : table.get? s ≠ none) (name : String) (s' : Signature) :
    table.invoke receiver depth s args ≠ .failed (.methodNotFound name s') := by
  cases depth with
  | zero =>
    intro hrun
    cases hrun
  | succ depth =>
    obtain ⟨e, he⟩ := Option.ne_none_iff_exists'.1 h
    rw [invoke, he]
    dsimp only
    cases (e.implementation.body ⟨table.typeName, s, receiver⟩ args).run
      (table.invoke receiver depth) <;> simp

/-- What is sent during a call is sent by methods of the table, and the table answers it. -/
theorem exists_of_mem_sendings {depth : Nat} {s : Signature} {args : List Json} {x : Sending}
    (h : x ∈ table.sendings receiver depth s args) :
    (∃ s', table.get? s' = some x.sender) ∧
      ∃ depth', x.outcome = table.invoke receiver depth' x.signature x.args := by
  induction depth generalizing s args with
  | zero => exact absurd h List.not_mem_nil
  | succ depth ih =>
    rw [sendings] at h
    cases he : table.get? s with
    | none =>
      rw [he] at h
      exact absurd h List.not_mem_nil
    | some e =>
      rw [he] at h
      obtain ⟨call, -, hx⟩ := List.mem_flatMap.1 h
      rcases List.mem_cons.1 hx with rfl | hx
      · exact ⟨⟨s, he⟩, depth, rfl⟩
      · exact ih hx

end MethodTable

/-! ## The methods of a composed type -/

namespace Registry

variable {reg : Registry} {config : Config} {t : AdoptingType} {keep : RoleId → Signature → Bool}
  {table : MethodTable}

/-- What comes from a role in the table of a type comes from one that the type reaches. -/
theorem Fits.reachedFrom (h : reg.Fits t keep table) {s : Signature} {e : MethodEntry}
    {o via : RoleId} (he : table.get? s = some e) (ho : e.provider = .role o via) :
    reg.ReachedFrom t.declaredRoles o := by
  cases hs : t.owns s with
  | true =>
    obtain ⟨i, hi⟩ := SignatureMap.contains_iff.1 hs
    rw [h.own s i hi] at he
    cases he
    cases ho
  | false =>
    obtain ⟨o', via', i, hkeeps, -, -, -, rfl⟩ := (h.role s hs e).1 he
    cases ho
    exact hkeeps.reached

/-- A role of a composed type names a signature: then the type has a method for it, unless it is
vetoed. -/
theorem get?_eq_none_iff_vetoed (h : reg.Composable config t keep) (hfits : reg.Fits t keep table)
    {s : Signature} {o : RoleId} (ho : reg.ReachedFrom t.declaredRoles o) (hs : reg.Names o s) :
    table.get? s = none ↔ reg.Vetoed t keep s := by
  cases hown : t.owns s with
  | true =>
    obtain ⟨i, hi⟩ := SignatureMap.contains_iff.1 hown
    rw [hfits.own s i hi]
    constructor
    · intro hnone
      cases hnone
    · intro hveto
      rw [hveto.notOwn] at hown
      cases hown
  | false =>
    have hoffered : ∃ o i, reg.ReachedFrom t.declaredRoles o ∧ reg.Provides o s i := by
      rcases hs with ⟨d, hd, hrequired⟩ | ⟨i, hi⟩
      · have hcapable := h.capable o d s ho hd hrequired
        rw [hown] at hcapable
        exact hcapable.resolve_left Bool.false_ne_true
      · exact ⟨o, i, ho, hi⟩
    constructor
    · intro hnone
      refine ⟨hown, hoffered, fun o' i' ho' hi' => ?_⟩
      -- an origin that is kept would be the only one, and have its entry
      by_contra hkept
      have hkeeps : reg.Keeps t.declaredRoles keep s o' := ⟨ho', ⟨i', hi'⟩, by simpa using hkept⟩
      obtain ⟨via, hvia⟩ := exists_firstReaching ho'
      have hsome := (hfits.role s hown ⟨i', .role o' via⟩).2 ⟨o', via, i', hkeeps,
        fun o'' ho'' => h.decided s hown o'' o' ho'' hkeeps, hvia, hi', rfl⟩
      rw [hnone] at hsome
      cases hsome
    · intro hveto
      refine Option.eq_none_iff_forall_ne_some.2 fun e he => ?_
      obtain ⟨o', -, i', hkeeps, -, -, hi', -⟩ := (hfits.role s hown e).1 he
      have hrejected := hveto.rejected o' i' hkeeps.reached hi'
      rw [hkeeps.kept] at hrejected
      cases hrejected

/-- Without a hook nothing is vetoed. -/
theorem not_vetoed (ht : t.AnswersBy keep) (hveto : t.veto = none) (s : Signature) :
    ¬ reg.Vetoed t keep s := by
  rintro ⟨-, ⟨o, i, ho, hi⟩, hrejected⟩
  unfold AdoptingType.AnswersBy at ht
  rw [hveto] at ht
  have hkept := ht o s
  rw [hrejected o i ho hi] at hkept
  cases hkept

end Registry

section Runs

variable {b : RegistryBuilder} {config : Config} {rs : List Request} {m : Moment} {name : String}
  {t : TypeEntry} {keep : RoleId → Signature → Bool} {table : MethodTable}

/-- The methods of a composed type are what the definitions decide. -/
theorem outcomeOf_of_effectiveMethods (hm : m ∈ history (Engine.new b.freeze config) rs)
    (ht : m.engine.find? name = some t) (hkeep : t.definition.AnswersBy keep)
    (hmethods : m.engine.effectiveMethods name = .ok (some table)) :
    b.freeze.outcomeOf config t.definition keep = .ok table := by
  obtain ⟨t', ht', hslot⟩ :=
    Engine.outcome_eq_some.1 (Engine.outcome_of_effectiveMethods hmethods)
  cases ht.symm.trans ht'
  have hdecided : m.engine.Decided t.definition (.ok table) :=
    ⟨t, by rw [Engine.name_of_find? ht, ht], rfl, hslot, fun _ _ h => by cases h⟩
  exact (outcome_of_decided hm hkeep hdecided).symm

/-- A composed type has a method for each signature that a role which it reaches requires or
provides, unless its hook has rejected all that provide it. If it has no hook, then however deep
calls stand within each other, no body of a role that sends what its role requires or provides is
told that there is no such method. -/
theorem methods_of_effectiveMethods (hm : m ∈ history (Engine.new b.freeze config) rs)
    (ht : m.engine.find? name = some t) (hkeep : t.definition.AnswersBy keep)
    (hmethods : m.engine.effectiveMethods name = .ok (some table)) :
    (∀ o s, b.freeze.ReachedFrom t.definition.declaredRoles o → b.freeze.Names o s →
      (table.get? s = none ↔ b.freeze.Vetoed t.definition keep s)) ∧
    (t.definition.veto = none → ∀ receiver depth s args,
      ∀ x ∈ table.sendings receiver depth s args,
        ∀ o via, x.sender.provider = .role o via → b.freeze.Names o x.signature →
          ∀ typeName s', x.outcome ≠ .failed (.methodNotFound typeName s')) := by
  have houtcome := outcomeOf_of_effectiveMethods hm ht hkeep hmethods
  have hcomposable := Registry.outcomeOf_isOk.1 ⟨table, houtcome⟩
  have hfits := Registry.fits_of_outcomeOf houtcome
  refine ⟨fun o s ho hs => Registry.get?_eq_none_iff_vetoed hcomposable hfits ho hs, ?_⟩
  intro hveto receiver depth s args x hx o via hprovider hnamed
  obtain ⟨⟨s₀, hsender⟩, depth', houtcome⟩ := MethodTable.exists_of_mem_sendings hx
  have hreached := hfits.reachedFrom hsender hprovider
  rw [houtcome]
  refine MethodTable.invoke_ne_methodNotFound fun hnone => ?_
  exact Registry.not_vetoed hkeep hveto x.signature
    ((Registry.get?_eq_none_iff_vetoed hcomposable hfits hreached hnamed).1 hnone)

end Runs

namespace Sample

def call : Signature := ⟨.onInstance, "call"⟩

def relay : Signature := ⟨.onInstance, "relay"⟩

def name : Signature := ⟨.onInstance, "name"⟩

/-- A role the method of which asks for a method of the type. -/
def relaying : RoleDefinition :=
  ((RoleDefinition.named ⟨"relaying"⟩).requires name).providesPrivate relay
    ⟨"relaying.relay", .given 0, Body.sending (.ok name) []⟩

/-- A role the method of which calls that of a role which it composes. -/
def calling : RoleDefinition :=
  (((RoleDefinition.named ⟨"calling"⟩).composes relaying.id).requires relay).providesPrivate call
    ⟨"calling.call", .given 1, Body.sending (.ok relay) []⟩

def callers : RegistryBuilder := { roles := [relaying, calling] }

/-- A type without a hook that brings what its roles ask for. -/
def speaker : AdoptingType :=
  ((AdoptingType.named "speaker").adopts calling.id).implements name
    ⟨"speaker.name", .given 2, Body.constant (.text "Ada")⟩

end Sample

/-- A call within a call within a call, none of which is in vain. -/
theorem methods_of_speaker :
    ∃ m ∈ history (Engine.new Sample.callers.freeze {})
        [.declare Sample.speaker, .compose "speaker"],
      ∃ table, m.engine.effectiveMethods "speaker" = .ok (some table) ∧
        ((table.sendings .null 3 Sample.call []).map fun x => (x.sender.provider, x.signature)) =
          [(.role Sample.calling.id Sample.calling.id, Sample.relay),
            (.role Sample.relaying.id Sample.calling.id, Sample.name)] ∧
        ∀ x ∈ table.sendings .null 3 Sample.call [], ∀ typeName s',
          x.outcome ≠ .failed (.methodNotFound typeName s') := by
  have hs := (course_step (.declare Sample.speaker) (Engine.sound_new Sample.callers {})).sound
  have hcourse := course_step (.compose "speaker") hs
  obtain ⟨t, ht, hdef, -⟩ := hcourse.progress.types "speaker" { definition := Sample.speaker } rfl
  replace hdef : t.definition = Sample.speaker := hdef
  have hkeep : t.definition.AnswersBy fun _ _ => true := by
    rw [hdef]
    exact fun _ _ => rfl
  let e := (runFrom (Request.compose "speaker").step
    (runFrom (Request.declare Sample.speaker).step (Engine.new Sample.callers.freeze {})).2).2
  have hm : Moment.between e ∈ history (Engine.new Sample.callers.freeze {})
      [.declare Sample.speaker, .compose "speaker"] :=
    mem_history_cons (r := .declare Sample.speaker) (by decide +kernel)
      (mem_history_cons (r := .compose "speaker") (by decide +kernel) List.mem_cons_self)
  have hsent : (e.effectiveMethods "speaker").map (Option.map fun table =>
      (table.sendings .null 3 Sample.call []).map fun x => (x.sender.provider, x.signature)) =
        .ok (some [(.role Sample.calling.id Sample.calling.id, Sample.relay),
          (.role Sample.relaying.id Sample.calling.id, Sample.name)]) := by
    decide +kernel
  rcases hmethods : e.effectiveMethods "speaker" with error | _ | table
  · rw [hmethods] at hsent
    cases hsent
  · rw [hmethods] at hsent
    cases hsent
  · rw [hmethods] at hsent
    have hpairs : (table.sendings .null 3 Sample.call []).map
        (fun x => (x.sender.provider, x.signature)) = _ := Option.some.inj (Except.ok.inj hsent)
    refine ⟨_, hm, table, hmethods, hpairs, fun x hx => ?_⟩
    have hnever := (methods_of_effectiveMethods hm ht hkeep hmethods).2 (by rw [hdef]; rfl)
      .null 3 Sample.call [] x hx
    have hpair := List.mem_map_of_mem (f := fun x : Sending => (x.sender.provider, x.signature)) hx
    rw [hpairs] at hpair
    rcases List.mem_pair.1 hpair with heq | heq
    · obtain ⟨hprovider, hsignature⟩ := Prod.mk.inj heq
      refine hnever _ _ hprovider (.inl ⟨Sample.calling, rfl, ?_⟩)
      rw [hsignature]
      decide +kernel
    · obtain ⟨hprovider, hsignature⟩ := Prod.mk.inj heq
      refine hnever _ _ hprovider (.inl ⟨Sample.relaying, rfl, ?_⟩)
      rw [hsignature]
      decide +kernel

end RoleComposition
