import RoleComposition.CommandLine

/-!
# Help and version

What the tool prints when it is asked about itself instead of being given a task.
-/

namespace RoleComposition.CommandLine

/-- The name of the tool. -/
def toolName : String := "rolecraft"

/-- The line that names the version. -/
def versionText : String := toolName ++ " 0.1.0\n"

/-- Words in a note about an option. -/
def wordsText (words : List String) : String :=
  "[possible values: " ++ ", ".intercalate words ++ "]"

/-- A text whose lines after the first one begin with so many blanks. -/
def hanging (indent : Nat) (text : String) : String :=
  String.ofList (text.toList.flatMap fun c =>
    if c = '\n' then '\n' :: List.replicate indent ' ' else [c])

/-- A table of names and what they mean. The meanings stand in a column behind the longest name. -/
def tableText (entries : List (String × String)) : String :=
  let width := (entries.map fun e => e.1.length).foldl max 0
  String.join (entries.map fun e =>
    "  " ++ e.1.pushn ' ' (width - e.1.length) ++ "  " ++ hanging (width + 4) e.2 ++ "\n")

/-- The options that are known on both sides of a task. -/
def commonOptions (given : Option String) : List (String × String) :=
  [("-v, --verbose", "Enable verbose output"),
    ("    --json", "Emit JSON-formatted log lines"),
    ("    --storage-check <STORAGE_CHECK>",
      "When role storage declarations are rejected [env: " ++ Config.storageCheckKey ++ "=" ++
        given.getD "" ++ "] " ++ wordsText (storageChecks.map Prod.fst)),
    ("-h, --help", "Print help")]

/-- What a task is for. -/
def aboutTask : Task → String
  | .check => "Compose every type declared in a manifest"
  | .audit => "Check the role graph without composing any type"

/-- What the word `help` is for. -/
def aboutHelp : String := "Print this message or the help of the given subcommand(s)"

/-- The help on a topic. -/
def helpText (given : Option String) : Topic → String
  | .tool =>
    "Check role composition manifests\n\nUsage: " ++ toolName ++
      " [OPTIONS] <COMMAND>\n\nCommands:\n" ++
      tableText (tasks.map (fun t => (t.1, aboutTask t.2)) ++ [("help", aboutHelp)]) ++
      "\nOptions:\n" ++ tableText (commonOptions given ++ [("-V, --version", "Print version")])
  | .task about =>
    aboutTask about ++ "\n\nUsage: " ++ toolName ++ " " ++
      String.join ((tasks.filter fun t => t.2 == about).map Prod.fst) ++
      " [OPTIONS] <MANIFEST>\n\nArguments:\n" ++
      tableText [("<MANIFEST>", "Manifest path (.toml or .json)")] ++ "\nOptions:\n" ++
      tableText
        (("-f, --format <FORMAT>",
          "Report format [default: text] " ++ wordsText (formats.map Prod.fst)) ::
          commonOptions given)
  | .help =>
    aboutHelp ++ "\n\nUsage: " ++ toolName ++ " help [COMMAND]...\n\nArguments:\n" ++
      tableText [("[COMMAND]...", "Print help for the subcommand(s)")]

/-- What is said about a command line that is wrong. -/
def misuseText : String :=
  "error: the command line is not understood\n\nFor more information, try '--help'."

end RoleComposition.CommandLine
