import RoleComposition.Config

/-!
# The command line

A command line names a task and a manifest. Options stand before the task, where only the common
ones are known, or after it; the short ones may be joined, and a value may be attached to its
option. Each option is given at most once on either side. The storage check may also come from
the environment, which is looked at on each side that does not give it.

The first thing that stops the reading decides what becomes of the command line. A value that is
an argument of its own is looked at only when the next argument of its side is, and the side after
the task is read before the other one is finished.
-/

namespace RoleComposition

/-- What is to be done with a manifest. -/
inductive Task where
  | check
  | audit
deriving DecidableEq, Repr

/-- How results are written. -/
inductive ReportFormat where
  | text
  | json
deriving DecidableEq, Repr

/-- A task with everything that was said about it. -/
structure Invocation where
  task : Task
  manifest : String
  format : ReportFormat := .text
  verbose : Bool := false
  jsonLog : Bool := false
  storageCheck : Option StorageCheck := none
deriving DecidableEq, Repr

namespace CommandLine

/-- What help is wanted about: the tool, one of its tasks, or help itself. -/
inductive Topic where
  | tool
  | task (about : Task)
  | help
deriving DecidableEq, Repr

/-- Help that is wanted on a side of the task is about that side. -/
def Topic.ofSide : Option Task → Topic
  | none => .tool
  | some about => .task about

/-- Why no task comes of a command line: it asks for something else, or it is wrong. -/
inductive Stop where
  | version
  | help (about : Topic)
  | misuse
deriving DecidableEq, Repr

/-- The result of reading a part of a command line. -/
abbrev Parse := Except Stop

/-- The tasks by their names. -/
def tasks : List (String × Task) := [("check", .check), ("audit", .audit)]

/-- The report formats by their names. -/
def formats : List (String × ReportFormat) := [("text", .text), ("json", .json)]

/-- The storage checks by their names. -/
def storageChecks : List (String × StorageCheck) :=
  [("registration", .atRegistration), ("composition", .atComposition)]

/-- One of some words, exactly as it is spelled. -/
def readWord {α : Type} (words : List (String × α)) (word : String) : Parse α :=
  match words.lookup word with
  | some a => .ok a
  | none => .error .misuse

/-- The options. -/
inductive Opt where
  | verbose
  | jsonLog
  | help
  | version
  | storageCheck
  | format
deriving DecidableEq, Repr

namespace Opt

/-- The option is followed by a value. -/
def takesValue : Opt → Bool
  | storageCheck | format => true
  | _ => false

/-- The options that are known on a side of the task: before it there is none. -/
def isKnown (task : Option Task) : Opt → Bool
  | version => task.isNone
  | format => task.isSome
  | _ => true

/-- The option of a long name. -/
def ofLong : String → Option Opt
  | "verbose" => some verbose
  | "json" => some jsonLog
  | "help" => some help
  | "version" => some version
  | "storage-check" => some storageCheck
  | "format" => some format
  | _ => none

/-- The option of a letter. -/
def ofShort : Char → Option Opt
  | 'v' => some verbose
  | 'h' => some help
  | 'V' => some version
  | 'f' => some format
  | _ => none

end Opt

/-- What is left to do about the option that was read last: nothing, or its value is still to come,
or its value has come and is not looked at yet. -/
inductive Unsettled where
  | nothing
  | wanting (opt : Opt)
  | holding (opt : Opt) (value : String)
deriving DecidableEq, Repr

/-- What one side of a command line says. -/
structure Side where
  verbose : Bool := false
  jsonLog : Bool := false
  storageCheck : Option StorageCheck := none
  format : Option ReportFormat := none
  manifest : Option String := none
deriving DecidableEq, Repr

namespace Side

/-- Takes in an option that has no value. -/
def turnOn (task : Option Task) (s : Side) : Opt → Parse Side
  | .verbose => if s.verbose then .error .misuse else .ok { s with verbose := true }
  | .jsonLog => if s.jsonLog then .error .misuse else .ok { s with jsonLog := true }
  | .help => .error (.help (.ofSide task))
  | .version => .error .version
  | .storageCheck | .format => .error .misuse

/-- Takes in an option with its value. -/
def setTo (s : Side) (value : String) : Opt → Parse Side
  | .storageCheck =>
    if s.storageCheck.isSome then .error .misuse
    else do return { s with storageCheck := some (← readWord storageChecks value) }
  | .format =>
    if s.format.isSome then .error .misuse
    else do return { s with format := some (← readWord formats value) }
  | _ => .error .misuse

/-- Does what is left to do about the option that was read last. -/
def settle (s : Side) : Unsettled → Parse Side
  | .nothing => .ok s
  | .wanting _ => .error .misuse
  | .holding opt value => s.setTo value opt

/-- Takes in the path of the manifest. -/
def name (s : Side) (path : String) : Parse Side :=
  if path.isEmpty ∨ s.manifest.isSome then .error .misuse
  else .ok { s with manifest := some path }

/-- Takes in letters that stand behind one dash. -/
def readLetters (task : Option Task) : List Char → Side → Parse (Side × Unsettled)
  | [], s => .ok (s, .nothing)
  | c :: rest, s =>
    match (Opt.ofShort c).filter (Opt.isKnown task) with
    | none => .error .misuse
    | some opt =>
      if opt.takesValue then
        match rest with
        | [] => .ok (s, .wanting opt)
        | '=' :: value => do return (← s.setTo (String.ofList value) opt, .nothing)
        | value => do return (← s.setTo (String.ofList value) opt, .nothing)
      else do readLetters task rest (← s.turnOn task opt)

/-- Takes in what stands behind two dashes. -/
def readLong (task : Option Task) (cs : List Char) (s : Side) : Parse (Side × Unsettled) :=
  let (name, value) := cs.span (· != '=')
  match (Opt.ofLong (String.ofList name)).filter (Opt.isKnown task) with
  | none => .error .misuse
  | some opt =>
    match value, opt.takesValue with
    | [], true => .ok (s, .wanting opt)
    | [], false => do return (← s.turnOn task opt, .nothing)
    | _ :: value, true => do return (← s.setTo (String.ofList value) opt, .nothing)
    | _ :: _, false => .error .misuse

/-- Takes in an argument if it is spelled like an option. -/
def readOption (task : Option Task) (arg : String) (s : Side) :
    Option (Parse (Side × Unsettled)) :=
  match arg.toList with
  | '-' :: '-' :: rest => some (readLong task rest s)
  | '-' :: c :: rest => some (readLetters task (c :: rest) s)
  | _ => none

/-- The argument is spelled like an option. -/
def isOption (arg : String) : Bool := (readOption none arg {}).isSome

/-- The check that a side and the environment ask for: the environment is read if the side gives
none. -/
def fromEnvironment (s : Side) (given : Option String) : Parse (Option StorageCheck) :=
  match s.storageCheck, given with
  | none, some value => do return some (← readWord storageChecks value)
  | _, _ => .ok none

end Side

/-- The arguments after the task. An option that still wants its value takes the next one. -/
def readTask (task : Task) : List String → Unsettled → Side → Parse Side
  | [], last, s => s.settle last
  | arg :: rest, .wanting opt, s =>
    if Side.isOption arg then .error .misuse else readTask task rest (.holding opt arg) s
  | arg :: rest, last, s => do
    let s ← s.settle last
    if arg = "--" then rest.foldlM Side.name s
    else
      match s.readOption (some task) arg with
      | none => do readTask task rest .nothing (← s.name arg)
      | some taken => do
        let (s, last) ← taken
        readTask task rest last s

/-- What the words after `help` ask about. -/
def readHelp : List String → Stop
  | [] => .help .tool
  | [word] =>
    if word = "help" then .help .help
    else
      match tasks.lookup word with
      | some about => .help (.task about)
      | none => .misuse
  | _ => .misuse

/-- The arguments before the task, the task, and the arguments after it, which are read before
the last option on the near side is settled. -/
def readArguments : List String → Unsettled → Side → Parse (Side × Task × Side)
  | [], _, _ => .error .misuse
  | arg :: rest, .wanting opt, s =>
    if Side.isOption arg then .error .misuse else readArguments rest (.holding opt arg) s
  | arg :: rest, last, s =>
    if arg = "help" then .error (readHelp rest)
    else
      match tasks.lookup arg with
      | some task => do
        let behind ← readTask task rest .nothing {}
        return (← s.settle last, task, behind)
      | none => do
        let s ← s.settle last
        match s.readOption none arg with
        | none => .error .misuse
        | some taken => do
          let (s, last) ← taken
          readArguments rest last s

/-- The invocation that a command line asks for, with the storage check of the environment. Of two
checks that are given, the one after the task counts. -/
def read (args : List String) (given : Option String) : Parse Invocation := do
  let (before, task, behind) ← readArguments args .nothing {}
  let fallback ← behind.fromEnvironment given
  discard (before.fromEnvironment given)
  match behind.manifest with
  | none => .error .misuse
  | some manifest =>
    return {
      task, manifest
      format := behind.format.getD .text
      verbose := before.verbose || behind.verbose
      jsonLog := before.jsonLog || behind.jsonLog
      storageCheck := behind.storageCheck <|> before.storageCheck <|> fallback }

end CommandLine

end RoleComposition
