import BnfReader.Command.Arguments

/-! The commands: what can be called, and how.

`serve` runs the service with options that go before its settings, `check` reads one file.
Before either, `--quiet` asks for less output. -/
namespace BnfReader

/-- Which settings `serve` begins with. -/
inductive SettingsChoice where
  /-- Those of the usual file. -/
  | usual
  /-- Those of the file at this path. -/
  | file (path : String)
  /-- The option for them was given nothing. -/
  | nothing
deriving DecidableEq

/-- The options of `serve`. A host or a level that was given nothing is empty, and such a
port is 0. -/
structure ServeOptions where
  settings : SettingsChoice
  host : Option String
  port : Option Int
  logLevel : Option String
deriving DecidableEq

/-- The options of `check`. -/
structure CheckOptions where
  file : String
  asJson : Bool
deriving DecidableEq

/-- A command with its options. -/
inductive Command where
  | serve (options : ServeOptions)
  | check (options : CheckOptions)
deriving DecidableEq

/-- What was called. -/
structure Invocation where
  quiet : Bool
  command : Command
deriving DecidableEq

namespace Invocation

/-- The name that the program is called by. -/
def program : String := "bnfparse"

/-- The levels that can be given to `serve`. -/
def logLevels : List String := ["DEBUG", "INFO", "WARNING", "ERROR"]

def mainHelp : String := "usage: bnfparse [-h] [--quiet] \x7bserve,check\x7d ...

bnfparse: BNF grammar parser and HTTP parsing service

positional arguments:
  \x7bserve,check\x7d
    serve        Run the HTTP parsing service.
    check        Parse a grammar file and report the result.

options:
  -h, --help     show this help message and exit
  --quiet        Minimize console output (overrides log-level to WARNING).
"

def checkHelp : String := "usage: bnfparse check [-h] [--json] file

positional arguments:
  file        Grammar file to parse

options:
  -h, --help  show this help message and exit
  --json      Print the parsed grammar as JSON
"

def serveHelp : String := "usage: bnfparse serve [-h] [--config CONFIG] [--host HOST] " ++
  "[--port PORT] [--log-level \x7bDEBUG,INFO,WARNING,ERROR\x7d]

options:
  -h, --help            show this help message and exit
  --config CONFIG       Optional path to an alternate config file (otherwise uses default in " ++
  "~/.bnfparse/).
  --host HOST           Address to bind to (default 0.0.0.0)
  --port PORT           Port to listen on (default 3000)
  --log-level \x7bDEBUG,INFO,WARNING,ERROR\x7d
                        Set the logging level for bnfparse.
"

/-! ### Shapes -/

/-- The option that shows the help. -/
def helpOption : CommandOption := ⟨["-h", "--help"], "help", .help⟩

/-- An option with any value. -/
def anyValue (key : String) : CommandOption := ⟨["--" ++ key], key, .value fun _ => none⟩

/-- The port is a whole number. -/
def portOption : CommandOption :=
  ⟨["--port"], "port", .value fun v =>
    if (Text.integer? v).isSome then none else some ("invalid int value: " ++ Text.quoted v)⟩

/-- The level is one of the choices. -/
def levelOption : CommandOption :=
  ⟨["--log-level"], "log-level", .value fun v =>
    if logLevels.contains v then none else some (invalidChoice logLevels v)⟩

def mainShape : Shape :=
  { program, help := mainHelp, options := [helpOption, ⟨["--quiet"], "quiet", .flag⟩],
    operand := .command "command" ["serve", "check"] }

def serveShape : Shape :=
  { program := program ++ " serve", help := serveHelp,
    options := [helpOption, anyValue "config", anyValue "host", portOption, levelOption],
    operand := .nothing }

def checkShape : Shape :=
  { program := program ++ " check", help := checkHelp,
    options := [helpOption, ⟨["--json"], "json", .flag⟩], operand := .one "file" }

/-! ### Reading -/

/-- The settings that a value chooses. -/
def settingsChoice : Option (Option String) → SettingsChoice
  | none => .usual
  | some (some path) => .file path
  | some none => .nothing

/-- The command of what was taken, with what was left over. -/
def commandOf (operand : List String) : Except Halt (Command × List String) := do
  match operand with
  | "serve" :: args =>
    let t ← serveShape.take args
    return (.serve
      { settings := settingsChoice (t.values.lookup "config")
        host := (t.values.lookup "host").map (·.getD "")
        port := (t.values.lookup "port").map fun v => (v.bind Text.integer?).getD 0
        logLevel := (t.values.lookup "log-level").map (·.getD "") }, t.leftOver)
  | _ =>
    let t ← checkShape.take operand.tail
    return (.check { file := t.operand.head?.getD "", asJson := t.flags.contains "json" },
      t.leftOver)

/-- The invocation that arguments make. Arguments left over anywhere are a misuse of the
whole. -/
def ofArguments (args : List String) : Except Halt Invocation := do
  let t ← mainShape.take args
  let (command, more) ← commandOf t.operand
  match t.leftOver ++ more with
  | [] => return { quiet := t.flags.contains "quiet", command }
  | unknown => mainShape.misuse ("unrecognized arguments: " ++ " ".intercalate unknown)

end Invocation
end BnfReader
