import BnfReader.Json.Shown
import BnfReader.Log.Level
import BnfReader.Settings.Store

/-! The log.

Messages come under dotted names; those under `bnfparse` go to the log. It has a level and
up to two sinks, the console and a file. A log without a level, which is level 0, takes
warnings and what is more important.

The file is rotated: before a line that would fill it up to its limit, the file becomes the
first of a row of backups, each of which moves on by one. Without backups the file goes on
growing; with a number of backups that is none, the line is lost. -/
namespace BnfReader

/-- Where lines go. -/
inductive Sink where
  | console (coloured : Bool)
  | file (place : Place) (maxBytes : Int) (backups : Option Nat)

/-- The log: from which level on it takes messages, and where they go. -/
structure Log where
  level : Level
  /-- The level as it was given: a truth value, or a number. -/
  shownLevel : Json := .int level
  sinks : List Sink

/-- A message on its way. -/
structure Record where
  name : String
  level : Level
  message : String

namespace Log

/-- Before it is set up, the log has no level and no sinks. -/
def initial : Log := { level := 0, sinks := [] }

/-- The name of the log. -/
def root : String := "bnfparse"

/-- Whether messages under a name come to the log. -/
def covers (name : String) : Bool := name = root || (root ++ ".").toList.isPrefixOf name.toList

/-- The level from which on messages are taken. -/
def threshold (log : Log) : Level := if log.level = 0 then Level.warning else log.level

end Log

/-! ### Lines -/

namespace Record

/-- The end of all colours. -/
def resetCode : String := "\x1b[0m"

/-- The colour of a level. -/
def colourCode (level : Level) : String :=
  match Level.name level with
  | "DEBUG" => "\x1b[36m"
  | "INFO" => "\x1b[32m"
  | "WARNING" => "\x1b[33m"
  | "ERROR" => "\x1b[31m"
  | "CRITICAL" => "\x1b[1;31m"
  | _ => ""

/-- The level in brackets. -/
def tag (r : Record) : String := "[" ++ r.level.name ++ "]"

/-- The name and the message. -/
def body (r : Record) : String := r.name ++ " - " ++ r.message

/-- A line for the console. A coloured one ends with the end of all colours, once. -/
def consoleLine (r : Record) (coloured : Bool) : String :=
  if coloured then
    let line := colourCode r.level ++ r.tag ++ resetCode ++ " " ++ r.body
    (if resetCode.toList.isSuffixOf line.toList then line else line ++ resetCode) ++ "\n"
  else r.tag ++ " " ++ r.body ++ "\n"

/-- A line for the file, with the time in front. -/
def fileLine (r : Record) (time : String) : String := time ++ " " ++ r.tag ++ " " ++ r.body ++ "\n"

end Record

/-! ### Writing -/

namespace Sink

/-- The place of a backup: the file's name with a number behind it. -/
def backup (place : Place) (n : Nat) : Place :=
  place.dropLast ++ [(place.getLast?.getD "") ++ "." ++ toString n]

/-- The disk with all backups moved on by one, the file being the first now. -/
def rotate (disk : Disk) (place : Place) (backups : Nat) : Disk :=
  if backups = 0 then disk
  else
    let disk := (List.range' 1 (backups - 1)).foldr
      (fun n disk => disk.move (backup place n) (backup place (n + 1))) disk
    (disk.move place (backup place 1)).put place (.file [])

/-- What a sink does with a message: the disk afterwards, and what is printed. -/
def write (sink : Sink) (disk : Disk) (time : String) (r : Record) : Disk × String :=
  match sink with
  | .console coloured => (disk, r.consoleLine coloured)
  | .file place maxBytes backups =>
    let line := r.fileLine time
    if 0 < maxBytes ∧ maxBytes ≤ (disk.size place : Int) + line.length then
      match backups with
      | some n => ((rotate disk place n).append place (Text.encode line), "")
      | none => (disk, "")
    else (disk.append place (Text.encode line), "")

end Sink

namespace Log

/-- A message to all sinks that take it: the disk afterwards, and what is printed. -/
def write (log : Log) (disk : Disk) (time : String) (r : Record) : Disk × String :=
  if covers r.name ∧ log.threshold ≤ r.level then
    log.sinks.foldl (fun (disk, printed) sink =>
      let (disk, more) := sink.write disk time r
      (disk, printed ++ more)) (disk, "")
  else (disk, "")

end Log

/-! ### Setting up -/

/-- How the log is to be set up, each choice as it was given. -/
structure LogOptions where
  level : Json := .int Level.info
  toFile : Json := .bool false
  toConsole : Json := .bool true
  maxBytes : Json := .int (5 * 1024 * 1024)
  backups : Json := .int 5
  useColour : Json := .bool true

/-- Why the log could not be set up. -/
inductive LogError where
  | unknownOption (name : String)
  | level (cause : LevelError)
  | notANumber
  | directory (cause : SettingsError)
  | file (cause : FileError)

/-- The wording of the reasons that have one. -/
def LogError.message? : LogError → Option String
  | .unknownOption _ => none
  | .level cause => cause.message?
  | .notANumber => none
  | .directory cause => cause.message?
  | .file cause => some cause.message

namespace LogOptions

/-- Choices by name. -/
def ofFields (given : Fields) : Except LogError LogOptions :=
  given.foldlM (fun (o : LogOptions) (key, value) =>
    match key with
    | "log_level" => .ok { o with level := value }
    | "log_to_file" => .ok { o with toFile := value }
    | "log_to_console" => .ok { o with toConsole := value }
    | "max_bytes" => .ok { o with maxBytes := value }
    | "backup_count" => .ok { o with backups := value }
    | "use_color" => .ok { o with useColour := value }
    | _ => .error (.unknownOption key)) {}

end LogOptions

/-- A limit as a whole number, with truth values as 0 and 1; a limit that no size reaches is
the same as 0. -/
def sizeLimit : Json → Except LogError Int
  | .int n => .ok n
  | .bool b => .ok (if b then 1 else 0)
  | .real x => .ok (x.ceiling?.getD 0)
  | _ => .error .notANumber

/-- A number of backups; `none` if it is no whole number and cannot be taken for 0. -/
def backupCount? : Json → Option Nat
  | .int n => some n.toNat
  | .bool b => some (if b then 1 else 0)
  | .real (.finite negative mantissa _) => if negative || mantissa == 0 then some 0 else none
  | .real (.infinite negative) => if negative then some 0 else none
  | .real .nan => some 0
  | _ => none

/-- The outcome of setting up: the disk and the log afterwards, what was printed, and
whether it went through. -/
structure SetUp where
  disk : Disk
  log : Log
  printed : String
  result : Except LogError Unit

namespace Log

/-- The name of the log file. -/
def fileName : String := "bnfparse.log"

/-- The file sink, its directory and its file made if they are missing. -/
def openFile (site : Site) (disk : Disk) (options : LogOptions) :
    Disk × Except LogError Sink :=
  match ensureBaseDir site disk with
  | (disk, .error e) => (disk, .error (.directory e))
  | (disk, .ok dir) =>
    match sizeLimit options.maxBytes with
    | .error e => (disk, .error e)
    | .ok maxBytes =>
      let path := Path.join dir fileName
      let place := Path.parts path
      match disk.node? place with
      | some .directory => (disk, .error (.file (.refused .isADirectory path)))
      | _ => (disk.append place [], .ok (.file place maxBytes (backupCount? options.backups)))

/-- The log set up anew. A level that is none changes nothing; what fails later leaves the
level and the sinks made so far. -/
def setUp (log : Log) (site : Site) (disk : Disk) (time : String) (options : LogOptions) : SetUp :=
  match Level.ofJson options.level with
  | .error e => ⟨disk, log, "", .error (.level e)⟩
  | .ok level =>
    let shownLevel := match options.level with
      | .bool b => .bool b
      | _ => .int level
    let console := if options.toConsole.isYes then [Sink.console options.useColour.isYes] else []
    let done (disk : Disk) (sinks : List Sink) : SetUp :=
      let log : Log := { level, shownLevel, sinks }
      let message := "bnfparse logger configured. color: " ++ options.useColour.plain ++
        ", log_to_file: " ++ options.toFile.plain
      let (disk, printed) := log.write disk time ⟨root, Level.debug, message⟩
      ⟨disk, log, printed, .ok ()⟩
    if options.toFile.isYes then
      match openFile site disk options with
      | (disk, .error e) => ⟨disk, { level, shownLevel, sinks := console }, "", .error e⟩
      | (disk, .ok sink) => done disk (console ++ [sink])
    else done disk console

end Log
end BnfReader
