import BnfReader.Command.Console
import BnfReader.Command.Invocation
import BnfReader.Grammar.Format
import BnfReader.Grammar.Wire
import BnfReader.Log.Reading
import BnfReader.Log.Vocabulary

/-! Running a command.

A run gives the code it ends with and what it printed. `check` ends with 0 if the file is a
grammar, with 1 if it is not and with 2 if it cannot be read; `serve` ends with 2 if its
settings are at fault, and else hands over to the service. A few faults end a run without a
code. What is said goes to a console, the usual one unless another is given. -/
namespace BnfReader

/-- Why a run ended without a code. -/
inductive CommandError where
  /-- The settings could not be made, for a reason that is not reported. -/
  | settings (cause : SettingsError)
  /-- The log could not be set up. -/
  | log (cause : LogError)
  /-- The settings name a level that does not exist. -/
  | noSuchLevel (name : String)
  /-- The settings name something that is no level. -/
  | notALevel
  /-- The option for the settings was given nothing. -/
  | noSettingsPath
  /-- The path can be none. -/
  | files (cause : FileError)
  /-- A grammar was read that is none, or a rule that cannot be written. -/
  | grammar (message : String)
  /-- What was to be printed is not well styled. -/
  | markup (cause : Markup.MarkupError)

/-- The wording of the reasons that have one. -/
def CommandError.message? : CommandError → Option String
  | .settings cause => cause.message?
  | .log cause => cause.message?
  | .noSuchLevel name => some ("module 'logging' has no attribute '" ++ name ++ "'")
  | .notALevel => none
  | .noSettingsPath => none
  | .files cause => some cause.message
  | .grammar message => some message
  | .markup cause => some cause.message

/-- What the service is started with. -/
structure Served where
  host : Json
  port : Json
  logLevel : String
  settings : Settings

/-- How a run ended. -/
structure Report where
  ending : Except CommandError Nat
  printed : String
  /-- What was said about a misuse. -/
  complaint : Option String := none
  served : Option Served := none
  disk : Disk

namespace Command

/-- A complaint as it is printed: parts of it are given texts. -/
def complaint (console : Console) (parts : List String) : Except CommandError String :=
  (console.line (Markup.styled "bold red" (String.join parts))).mapError .markup

/-- What is printed about a file that cannot be read. -/
def unreadable (console : Console) (file reason : String) : Except CommandError String :=
  complaint console ["Cannot read ", console.escape file, ": ", console.escape reason]

/-! ### Checking a file -/

/-- The table of a document. -/
def documentTable (console : Console) (file : String) (d : Document) : Except CommandError Table := do
  let rows ← d.rules.zipIdx.mapM fun (rule, i) => do
    let definition ← rule.format.mapError fun e => .grammar e.message
    return [toString (i + 1), rule.name.text, toString rule.alternatives.length,
      console.escape definition]
  return {
    title := Markup.styled "bold green" (console.escape file) ++ " (" ++ toString d.rules.length ++
      " rules)"
    columns := [⟨"#", .right⟩, ⟨"Rule", .left⟩, ⟨"Alternatives", .right⟩, ⟨"Definition", .left⟩]
    rows }

/-- A table as it is printed. -/
def printTable (console : Console) (t : Table) : Except CommandError String :=
  (console.table t).mapError .markup

/-- The content of a file checked: the code and what is printed. -/
def checkContent (console : Console) (options : CheckOptions) (content : Text.Bytes) :
    Except CommandError (Nat × String) :=
  match fileText content with
  | .error e => do return (2, ← unreadable console options.file e.message)
  | .ok text =>
    match Document.parse text with
    | .error (.failure f) => do
      return (1, ← complaint console [console.escape options.file, ": ", console.escape f.message])
    | .error (.fault (.refused e)) => .error (.grammar e.message)
    | .error (.fault .noBranch) => .error (.grammar "")
    | .ok d =>
      if options.asJson then .ok (0, d.toJson.pretty ++ "\n")
      else do return (0, ← printTable console (← documentTable console options.file d))

/-- A file checked. -/
def checkFile (console : Console) (site : Site) (disk : Disk) (options : CheckOptions) :
    Except CommandError (Nat × String) :=
  match disk.read site options.file with
  | .error .nullCharacter => .error (.files .nullCharacter)
  | .error e => do return (2, ← unreadable console options.file e.message)
  | .ok content => checkContent console options content

/-! ### Starting the service -/

/-- What the settings name as their level: any value that a word can mean. -/
def settingsLevel (value : Json) : Except CommandError Json :=
  match value with
  | .string name =>
    match Log.meaning? name with
    | some (some v) => .ok v
    | some none => .error .notALevel
    | none => .error (.noSuchLevel name)
  | _ => .error .notALevel

/-- A level in lower case: its name if it has one, else what it is. -/
def levelWord (shown : Json) : String :=
  let name := match shown with
    | .int n => Level.name n
    | v => "Level " ++ v.shown
  String.ofList (name.toList.map Char.toLower)

/-- The settings with the options that go before them: a host or a level that is not empty
and a port other than 0. -/
def override (s : Settings) (options : ServeOptions) : Settings :=
  let s := match options.host with
    | some host => if host = "" then s else s.set "host" (.string host)
    | none => s
  let s := match options.port with
    | some port => if port = 0 then s else s.set "port" (.int port)
    | none => s
  match options.logLevel with
  | some level => if level = "" then s else s.set "log_level" (.string level)
  | none => s

/-- A setting that is always there. -/
def setting (s : Settings) (key : String) : Json := (s.get? key).getD .null

/-- The service started with settings. -/
def start (site : Site) (disk : Disk) (time : String) (quiet : Bool) (s : Settings) : Report :=
  match if quiet then .ok (.int Level.warning) else settingsLevel (setting s "log_level") with
  | .error e => { ending := .error e, printed := "", disk }
  | .ok level =>
    let up := Log.initial.setUp site disk time
      { level, toFile := setting s "log_to_file" }
    match up.result with
    | .error e => { ending := .error (.log e), printed := up.printed, disk := up.disk }
    | .ok () =>
      let host := setting s "host"
      let port := setting s "port"
      let (disk, line) := up.log.write up.disk time
        ⟨"bnfparse.main", Level.info, "Serving on " ++ host.plain ++ ":" ++ port.plain⟩
      { ending := .ok 0, printed := up.printed ++ line, disk
        served := some ⟨host, port, levelWord up.log.shownLevel, s⟩ }

/-- The settings that were chosen, and the disk afterwards. -/
def chosenSettings (site : Site) (disk : Disk) :
    SettingsChoice → Disk × Except CommandError Settings
  | .usual => (Settings.load site disk none).map id (·.mapError .settings)
  | .file path => (Settings.load site disk (some path)).map id (·.mapError .settings)
  | .nothing => (disk, .error .noSettingsPath)

/-- The service started with the settings of a file and the given options. Faults of the
settings are reported. -/
def startFrom (console : Console) (site : Site) (disk : Disk) (time : String) (quiet : Bool)
    (options : ServeOptions) : Report :=
  match chosenSettings site disk options.settings with
  | (disk, .ok s) => start site disk time quiet (override s options)
  | (disk, .error e) =>
    match e with
    | .settings cause =>
      if cause.isReported then
        match complaint console [console.escape (cause.message?.getD "")] with
        | .ok printed => { ending := .ok 2, printed, disk }
        | .error e => { ending := .error e, printed := "", disk }
      else { ending := .error e, printed := "", disk }
    | _ => { ending := .error e, printed := "", disk }

/-! ### The whole program -/

/-- The program run with arguments. -/
def run (site : Site) (disk : Disk) (time : String) (args : List String)
    (console : Console := .usual) : Report :=
  match Invocation.ofArguments args with
  | .error (.help text) => { ending := .ok 0, printed := text, disk }
  | .error (.misuse program message) =>
    { ending := .ok 2, printed := "", complaint := some (program ++ ": error: " ++ message), disk }
  | .ok { quiet, command := .serve options } => startFrom console site disk time quiet options
  | .ok { command := .check options, .. } =>
    match checkFile console site disk options with
    | .ok (code, printed) => { ending := .ok code, printed, disk }
    | .error e => { ending := .error e, printed := "", disk }

end Command
end BnfReader
