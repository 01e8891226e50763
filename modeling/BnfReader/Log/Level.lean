import BnfReader.Json.Basic
import BnfReader.Text.Quoted

/-! Levels of importance.

A level is a whole number; six of them have names. A level can be given by number or by
name, where two names are older spellings. -/
namespace BnfReader

/-- How important a message is. -/
abbrev Level := Int

namespace Level

/-- The levels that have a name. -/
def named : List (String × Level) :=
  [("CRITICAL", 50), ("ERROR", 40), ("WARNING", 30), ("INFO", 20), ("DEBUG", 10), ("NOTSET", 0)]

/-- All names that a level can be given by. -/
def spellings : List (String × Level) := named ++ [("FATAL", 50), ("WARN", 30)]

def debug : Level := 10
def info : Level := 20
def warning : Level := 30

/-- What a level is called in a line. -/
def name (level : Level) : String :=
  match named.find? fun n => n.2 == level with
  | some n => n.1
  | none => "Level " ++ toString level

end Level

/-- Why a value is no level. -/
inductive LevelError where
  /-- No level has this name. -/
  | unknown (name : String)
  /-- It is neither a whole number nor a text. -/
  | wrongKind
deriving DecidableEq

/-- The wording of the reasons that have one. -/
def LevelError.message? : LevelError → Option String
  | .unknown name => some ("Unknown level: " ++ Text.quoted name)
  | .wrongKind => none

/-- The level that a value gives. -/
def Level.ofJson : Json → Except LevelError Level
  | .int n => .ok n
  | .bool b => .ok (if b then 1 else 0)
  | .string s =>
    match spellings.lookup s with
    | some level => .ok level
    | none => .error (.unknown s)
  | _ => .error .wrongKind

end BnfReader
