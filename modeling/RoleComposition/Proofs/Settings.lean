import RoleComposition.CommandLine.Run
import RoleComposition.Proofs.Deciding

/-!
# Two readers of one variable

The variable of the storage check is read twice. On each side of the task on which the command line
does not give the check, it takes the value of the variable, if that is one of the words as it is
spelled; and for the settings, which are read in any case, blanks around the value and the case of
its letters do not count. So the command line accepts no more than the settings do, and where it
goes on, the two agree. Main statement: `settings_of_start`.
-/

namespace RoleComposition

namespace CommandLine

/-- A command line that is right but for the environment: the sides of its task, the one behind it
with a manifest. -/
structure Divides (args : List String) (before : Side) (task : Task) (behind : Side)
    (manifest : String) : Prop where
  reads : readArguments args .nothing {} = .ok (before, task, behind)
  names : behind.manifest = some manifest

/-- A side of the task leaves the check to the environment. -/
def LeavesOpen (before behind : Side) : Prop :=
  before.storageCheck = none ∨ behind.storageCheck = none

instance (before behind : Side) : Decidable (LeavesOpen before behind) :=
  inferInstanceAs (Decidable (_ ∨ _))

/-- The check that the command line gives: of two, the one behind the task counts. -/
def flag? (before behind : Side) : Option StorageCheck :=
  behind.storageCheck <|> before.storageCheck

/-- A side that leaves the check open finds nothing in the variable, or one of the words as it is
spelled. -/
def Legible (before behind : Side) (given : Option String) : Prop :=
  LeavesOpen before behind → ∀ value, given = some value →
    ∃ check, readWord storageChecks value = .ok check

/-- What a command line asks for with the check that it comes to. -/
def invocation (before : Side) (task : Task) (behind : Side) (manifest : String)
    (storageCheck : Option StorageCheck) : Invocation where
  task
  manifest
  format := behind.format.getD .text
  verbose := before.verbose || behind.verbose
  jsonLog := before.jsonLog || behind.jsonLog
  storageCheck

variable {α : Type} {words : List (String × α)} {key value : String} {a : α} {before behind s : Side}
  {task : Task} {manifest : String} {args : List String} {given : Option String}

/-! ## Words -/

theorem lookup_eq_find? (words : List (String × α)) (value : String) :
    words.lookup value = (words.find? fun w => w.1 == value).map Prod.snd := by
  induction words with
  | nil => rfl
  | cons w words ih =>
    obtain ⟨word, a⟩ := w
    rw [List.lookup_cons, List.find?_cons, BEq.comm (a := value)]
    cases word == value with
    | true => rfl
    | false => exact ih

/-- To be one of some words in lower case exactly as it is spelled, a value has to be one of them
and to be spelled as they are. -/
theorem readWord_eq_ok (hplain : ∀ w ∈ words, Config.normalized w.1 = w.1) (key : String) :
    readWord words value = .ok a ↔
      Config.readWord key words value = .ok a ∧ Config.normalized value = value := by
  have hexact : readWord words value = .ok a ↔
      ∃ w, words.find? (fun w => w.1 == value) = some w ∧ w.2 = a := by
    unfold readWord
    rw [lookup_eq_find?]
    cases words.find? fun w => w.1 == value <;> simp
  have hloose : Config.readWord key words value = .ok a ↔
      ∃ w, words.find? (fun w => w.1 == Config.normalized value) = some w ∧ w.2 = a := by
    unfold Config.readWord
    cases words.find? fun w => w.1 == Config.normalized value <;> simp
  rw [hexact, hloose]
  constructor
  · rintro ⟨w, hw, rfl⟩
    have hspelled : w.1 = value := by simpa using List.find?_some hw
    have hnormal : Config.normalized value = value :=
      hspelled ▸ hplain w (List.mem_of_find?_eq_some hw)
    rw [hnormal]
    exact ⟨⟨w, hw, rfl⟩, rfl⟩
  · rintro ⟨hw, hnormal⟩
    rwa [hnormal] at hw

theorem readWord_eq_error {stop : Stop} (h : readWord words value = .error stop) :
    stop = .misuse := by
  unfold readWord at h
  cases hword : words.lookup value with
  | some a =>
    rw [hword] at h
    cases h
  | none =>
    rw [hword] at h
    cases h
    rfl

theorem normalized_storageChecks : ∀ w ∈ storageChecks, Config.normalized w.1 = w.1 := by
  decide +kernel

/-! ## The sides of a task -/

theorem fromEnvironment_of_given {check : StorageCheck} (h : s.storageCheck = some check)
    (given : Option String) : s.fromEnvironment given = .ok none := by
  unfold Side.fromEnvironment
  rw [h]

theorem fromEnvironment_none (s : Side) : s.fromEnvironment none = .ok none := by
  unfold Side.fromEnvironment
  cases s.storageCheck <;> rfl

/-- A side without the check takes it from the variable, as it is spelled. -/
theorem fromEnvironment_of_open (h : s.storageCheck = none) (value : String) :
    s.fromEnvironment (some value) = (readWord storageChecks value).map some := by
  unfold Side.fromEnvironment
  simp only [h]
  cases readWord storageChecks value <;> rfl

/-- Without a value that it cannot take, a side comes to no more than the variable says. -/
theorem exists_fromEnvironment
    (h : s.storageCheck = none → ∀ value, given = some value →
      ∃ check, readWord storageChecks value = .ok check) :
    ∃ fallback, s.fromEnvironment given = .ok fallback ∧ ∀ check, fallback = some check →
      ∃ value, given = some value ∧ readWord storageChecks value = .ok check := by
  cases hcheck : s.storageCheck with
  | some check => exact ⟨none, fromEnvironment_of_given hcheck given, by simp⟩
  | none =>
    cases given with
    | none => exact ⟨none, fromEnvironment_none s, by simp⟩
    | some value =>
      obtain ⟨check, hword⟩ := h hcheck value rfl
      refine ⟨some check, ?_, fun check' heq => ⟨value, rfl, Option.some.inj heq ▸ hword⟩⟩
      rw [fromEnvironment_of_open hcheck, hword]
      rfl

theorem read_of_divides (h : Divides args before task behind manifest) (given : Option String) :
    read args given = (do
      let fallback ← behind.fromEnvironment given
      discard (before.fromEnvironment given)
      return invocation before task behind manifest (flag? before behind <|> fallback)) := by
  have hflag (fallback : Option StorageCheck) :
      (behind.storageCheck <|> before.storageCheck <|> fallback) =
        (flag? before behind <|> fallback) := by
    unfold flag?
    cases behind.storageCheck <;> rfl
  unfold read
  rw [h.reads, ok_bind]
  simp only [h.names, hflag]
  rfl

/-- If a side has to take a value that it cannot take, the command line is wrong. -/
theorem read_of_open (h : Divides args before task behind manifest) {value : String}
    (hopen : LeavesOpen before behind) (hword : ∀ check, readWord storageChecks value ≠ .ok check) :
    read args (some value) = .error .misuse := by
  have hwrong (s : Side) (hs : s.storageCheck = none) :
      s.fromEnvironment (some value) = .error .misuse := by
    rw [fromEnvironment_of_open hs]
    cases hread : readWord storageChecks value with
    | ok check => exact absurd hread (hword check)
    | error stop =>
      rw [readWord_eq_error hread]
      rfl
  rw [read_of_divides h]
  cases hbehind : behind.storageCheck with
  | none =>
    rw [hwrong behind hbehind]
    rfl
  | some check =>
    have hbefore : before.storageCheck = none := hopen.resolve_right (by simp [hbehind])
    rw [fromEnvironment_of_given hbehind, hwrong before hbefore]
    rfl

/-- Else it gives the check, or asks for what the variable says, if that says anything. -/
theorem read_of_legible (h : Divides args before task behind manifest)
    (hlegible : Legible before behind given) :
    ∃ fallback, read args given =
        .ok (invocation before task behind manifest (flag? before behind <|> fallback)) ∧
      ∀ check, fallback = some check →
        ∃ value, given = some value ∧ readWord storageChecks value = .ok check := by
  obtain ⟨fallback, hbehind, hsays⟩ := exists_fromEnvironment fun hs => hlegible (.inr hs)
  obtain ⟨fallback', hbefore, -⟩ := exists_fromEnvironment fun hs => hlegible (.inl hs)
  refine ⟨fallback, ?_, hsays⟩
  rw [read_of_divides h, hbehind, hbefore]
  rfl

/-! ## The start of a run -/

/-- The settings go by the value of the variable in lower case, without the blanks around it. -/
theorem readWord_of_ofEnvironment {environment : String → Option String} {config : Config}
    (h : Config.ofEnvironment environment = .ok config)
    (hgiven : environment Config.storageCheckKey = some value) :
    Config.readWord Config.storageCheckKey storageChecks value = .ok config.storageCheck := by
  unfold Config.ofEnvironment at h
  obtain ⟨check, hcheck, h⟩ := exists_of_bind_eq_ok h
  obtain ⟨policy, -, h⟩ := exists_of_bind_eq_ok h
  cases h
  unfold Config.readSetting at hcheck
  rw [hgiven] at hcheck
  exact hcheck

/-- What the variable holds is legible for a command line that goes by it exactly if it is spelled
as the settings take it. -/
theorem legible_iff {environment : String → Option String} {config : Config}
    (hconfig : Config.ofEnvironment environment = .ok config) :
    Legible before behind (environment Config.storageCheckKey) ↔
      (LeavesOpen before behind → ∀ value, environment Config.storageCheckKey = some value →
        Config.normalized value = value) := by
  constructor
  · intro hlegible hopen value hgiven
    obtain ⟨check, hword⟩ := hlegible hopen value hgiven
    exact ((readWord_eq_ok normalized_storageChecks Config.storageCheckKey).1 hword).2
  · intro hspelled hopen value hgiven
    exact ⟨config.storageCheck, (readWord_eq_ok normalized_storageChecks Config.storageCheckKey).2
      ⟨readWord_of_ofEnvironment hconfig hgiven, hspelled hopen value hgiven⟩⟩

/-- The settings with the check that the command line gives, if it gives one. -/
def prevailing (before behind : Side) (config : Config) : Config :=
  { config with storageCheck := (flag? before behind).getD config.storageCheck }

/-- Where the settings can be read and the variable is legible, a run starts. What the command line
takes from the variable is what the settings have. -/
theorem start_of_legible (h : Divides args before task behind manifest)
    {environment : String → Option String} {config : Config}
    (hlegible : Legible before behind (environment Config.storageCheckKey))
    (hconfig : Config.ofEnvironment environment = .ok config) :
    ∃ storageCheck, start args environment =
      .ok (invocation before task behind manifest storageCheck,
        prevailing before behind config) := by
  obtain ⟨fallback, hread, hsays⟩ := read_of_legible h hlegible
  have hagree : (flag? before behind <|> fallback).getD config.storageCheck =
      (flag? before behind).getD config.storageCheck := by
    cases flag? before behind with
    | some check => rfl
    | none =>
      cases fallback with
      | none => rfl
      | some check =>
        obtain ⟨value, hgiven, hword⟩ := hsays check rfl
        have hloose := ((readWord_eq_ok normalized_storageChecks Config.storageCheckKey).1 hword).1
        rw [readWord_of_ofEnvironment hconfig hgiven] at hloose
        exact (Except.ok.inj hloose).symm
  refine ⟨flag? before behind <|> fallback, ?_⟩
  unfold start Invocation.settings prevailing
  simp only [hread, hconfig]
  rw [← hagree]
  rfl

theorem start_of_error (h : Divides args before task behind manifest)
    {environment : String → Option String} {e : CompositionError}
    (hlegible : Legible before behind (environment Config.storageCheckKey))
    (hconfig : Config.ofEnvironment environment = .error e) :
    start args environment =
      .error (Failure.conclude ⟨"Invalid rolecraft configuration", some e.message⟩ [] "") := by
  obtain ⟨fallback, hread, -⟩ := read_of_legible h hlegible
  unfold start Invocation.settings
  simp only [hread, hconfig]

theorem start_of_not_legible (h : Divides args before task behind manifest)
    {environment : String → Option String}
    (hlegible : ¬ Legible before behind (environment Config.storageCheckKey)) :
    start args environment = .error { exit := .code 2, complaint := some misuseText } := by
  unfold Legible at hlegible
  push Not at hlegible
  obtain ⟨hopen, value, hgiven, hword⟩ := hlegible
  unfold start
  simp only [hgiven, read_of_open h hopen hword]

/-- A command line that is right but for the environment starts a run exactly if the settings can be
read from the environment and, where a side of its task leaves the check open, the variable has no
blanks around its value and no letter in upper case. A run goes by the settings, with the check of
the command line if it gives one. Else the command line is found wrong before any setting is read,
or the settings are refused for what is wrong with them, also where the command line gives the
check. -/
theorem settings_of_start (h : Divides args before task behind manifest)
    (environment : String → Option String) :
    ((∃ started, start args environment = .ok started) ↔
      (∃ config, Config.ofEnvironment environment = .ok config) ∧
        (LeavesOpen before behind → ∀ value, environment Config.storageCheckKey = some value →
          Config.normalized value = value)) ∧
    (∀ i config, start args environment = .ok (i, config) →
      i = invocation before task behind manifest i.storageCheck ∧
      ∃ settings, Config.ofEnvironment environment = .ok settings ∧
        config = prevailing before behind settings) ∧
    ∀ c, start args environment = .error c →
      ((∃ value, environment Config.storageCheckKey = some value ∧
          ∀ check, readWord storageChecks value ≠ .ok check) ∧ LeavesOpen before behind ∧
        c = { exit := .code 2, complaint := some misuseText }) ∨
      ∃ e, Config.ofEnvironment environment = .error e ∧
        c = Failure.conclude ⟨"Invalid rolecraft configuration", some e.message⟩ [] "" := by
  by_cases hlegible : Legible before behind (environment Config.storageCheckKey)
  case neg =>
    have hstart := start_of_not_legible h hlegible
    refine ⟨⟨?_, ?_⟩, ?_, ?_⟩
    · rintro ⟨started, hok⟩
      cases hstart.symm.trans hok
    · rintro ⟨⟨config, hconfig⟩, hspelled⟩
      exact absurd ((legible_iff hconfig).2 hspelled) hlegible
    · intro i config hok
      cases hstart.symm.trans hok
    · intro c hc
      cases hstart.symm.trans hc
      unfold Legible at hlegible
      push Not at hlegible
      obtain ⟨hopen, value, hgiven, hword⟩ := hlegible
      exact .inl ⟨⟨value, hgiven, hword⟩, hopen, rfl⟩
  case pos =>
    cases hconfig : Config.ofEnvironment environment with
    | ok settings =>
      obtain ⟨storageCheck, hstart⟩ := start_of_legible h hlegible hconfig
      refine ⟨⟨?_, fun _ => ⟨_, hstart⟩⟩, ?_, ?_⟩
      · intro _
        exact ⟨⟨settings, rfl⟩, (legible_iff hconfig).1 hlegible⟩
      · intro i config hok
        cases hstart.symm.trans hok
        exact ⟨rfl, settings, rfl, rfl⟩
      · intro c hc
        cases hstart.symm.trans hc
    | error e =>
      have hstart := start_of_error h hlegible hconfig
      refine ⟨⟨?_, ?_⟩, ?_, ?_⟩
      · rintro ⟨started, hok⟩
        cases hstart.symm.trans hok
      · rintro ⟨⟨config, hok⟩, -⟩
        cases hok
      · intro i config hok
        cases hstart.symm.trans hok
      · intro c hc
        cases hstart.symm.trans hc
        exact .inr ⟨e, rfl, rfl⟩

namespace Sample

/-- An environment that holds one variable. -/
def holding (value : String) (key : String) : Option String :=
  if key = Config.storageCheckKey then some value else none

/-- A command line that leaves the check open. -/
def bare : List String := ["check", "m.json"]

/-- A command line that gives the check on both sides of its task. -/
def insisting : List String :=
  ["--storage-check", "registration", "check", "--storage-check", "registration", "m.json"]

/-- What stands before the task in `insisting`. -/
def front : Side := { storageCheck := some .atRegistration }

/-- What stands behind it. -/
def back : Side := { front with manifest := some "m.json" }

end Sample

/-- A command line that gives the check on both sides of its task takes nothing from the variable,
and starts wherever the settings can be read. -/
theorem settings_of_start_insisting :
    Divides Sample.insisting Sample.front .check Sample.back "m.json" ∧
      ∃ i config, start Sample.insisting (Sample.holding "Composition") = .ok (i, config) ∧
        config = { storageCheck := .atRegistration } := by
  have h : Divides Sample.insisting Sample.front .check Sample.back "m.json" :=
    ⟨by decide +kernel, rfl⟩
  have hconfig : Config.ofEnvironment (Sample.holding "Composition") =
      .ok { storageCheck := .atComposition } := by
    decide +kernel
  obtain ⟨hstarts, hruns, -⟩ := settings_of_start h (Sample.holding "Composition")
  obtain ⟨⟨i, config⟩, hstart⟩ := hstarts.2 ⟨⟨_, hconfig⟩, fun hopen => absurd hopen (by decide)⟩
  obtain ⟨-, settings, hsettings, rfl⟩ := hruns i config hstart
  cases hconfig.symm.trans hsettings
  exact ⟨h, i, _, hstart, rfl⟩

/-- The settings read the word in any case, while a command line that leaves the check open knows it
only as it is spelled; and settings that cannot be read stop a command line that gives the check. -/
theorem start_of_odd_values :
    (¬ ((∃ started, start Sample.bare (Sample.holding "Composition") = .ok started) ↔
      ∃ config, Config.ofEnvironment (Sample.holding "Composition") = .ok config)) ∧
    ¬ ∃ i config, start Sample.insisting (Sample.holding "bogus") = .ok (i, config) ∧
      config.storageCheck = .atRegistration := by
  have hbare : ¬ ∃ started, start Sample.bare (Sample.holding "Composition") = .ok started := by
    have hread :
        read Sample.bare (Sample.holding "Composition" Config.storageCheckKey) =
          .error .misuse := by
      decide +kernel
    rintro ⟨started, hstart⟩
    unfold start at hstart
    simp only [hread] at hstart
    cases hstart
  have hsettings : Config.ofEnvironment (Sample.holding "Composition") =
      .ok { storageCheck := .atComposition } := by
    decide +kernel
  refine ⟨fun h => hbare (h.2 ⟨_, hsettings⟩), ?_⟩
  have hbogus : Config.ofEnvironment (Sample.holding "bogus") =
      .error (.invalidSetting Config.storageCheckKey "bogus") := by
    decide +kernel
  rintro ⟨i, config, hstart, -⟩
  unfold start Invocation.settings at hstart
  simp only [hbogus] at hstart
  split at hstart <;> cases hstart

end CommandLine

end RoleComposition
