import BnfReader.Files.Disk
import BnfReader.Json.Limits
import BnfReader.Json.Shown
import BnfReader.Text.Numeral

/-! Settings: named values that begin with defaults.

Settings are made from given values by `Settings.make`: only the names that have a default
may be given, the two paths are expanded, and the port becomes a whole number. Later writes
are not checked and may add names. The order of the names is that of the defaults, then
that of the first writes. -/
namespace BnfReader

/-- Named values. -/
structure Settings where
  fields : Fields

/-- Why there are no settings. -/
inductive SettingsError where
  /-- Names without a default were given. -/
  | unknownKeys (keys : List String)
  /-- The port is no whole number. -/
  | invalidPort (value : Json)
  /-- The file could not be read. -/
  | unreadable (path : String) (cause : FileError)
  /-- The file is no JSON. -/
  | malformed (path : String) (cause : Json.ReadError)
  /-- The file is JSON of another kind. -/
  | notAnObject (path : String)
  /-- The file could not be written. -/
  | unwritable (cause : FileError)
  /-- The name `self` was given. -/
  | reservedKey
  /-- A path is not given as a text. -/
  | pathNotText
  /-- The port is infinite. -/
  | infinitePort
  /-- The file is no text. -/
  | undecodable (cause : Text.DecodeError)
  /-- A number in the file is too long. -/
  | numberTooLong (cause : Json.ReadError)
  /-- The file nests its values too deeply. -/
  | nestedTooDeep (cause : Json.ReadError)
  /-- The file escapes half of a pair of code units, which no text here can hold. -/
  | unpaired
  /-- A value could not be written to its end. -/
  | unfinished (cause : Json.WriteError)
  /-- The directory could not be made, or a path can be none. -/
  | files (cause : FileError)
  /-- The directory is to be in an unknown home. -/
  | noHome

namespace SettingsError

/-- The wording of the reasons that have one. -/
def message? : SettingsError → Option String
  | .unknownKeys keys => some ("Unknown config keys: " ++ ", ".intercalate keys)
  | .invalidPort value => some ("Invalid port: " ++ value.shown)
  | .unreadable path cause => some ("Failed to load config from " ++ path ++ ": " ++ cause.message)
  | .malformed path cause => some ("Failed to load config from " ++ path ++ ": " ++ cause.message)
  | .notAnObject path => some ("Config in " ++ path ++ " must be a JSON object")
  | .unwritable cause => some ("Failed to save bnfparse config: " ++ cause.message)
  | .reservedKey => none
  | .pathNotText => none
  | .infinitePort => none
  | .undecodable cause => some cause.message
  | .numberTooLong cause => some cause.message
  | .nestedTooDeep cause => some cause.message
  | .unpaired => none
  | .unfinished cause => some cause.message
  | .files cause => some cause.message
  | .noHome => some "Could not determine home directory."

/-- Whether a reason counts as a fault of the configuration, which commands report; the
others end the command. -/
def isReported : SettingsError → Bool
  | .unknownKeys _ | .invalidPort _ | .unreadable _ _ | .malformed _ _ | .notAnObject _
  | .unwritable _ => true
  | _ => false

end SettingsError

namespace Settings

/-- The values that settings begin with. -/
def defaults (site : Site) : Fields :=
  [("host", .string "0.0.0.0"), ("port", .int 3000), ("log_level", .string "INFO"),
   ("log_to_file", .bool false),
   ("webpage_path", .string (Path.join site.staticDir "index.html")),
   ("api_spec_path", .string (Path.join site.staticDir "api_spec.yaml"))]

/-- A path with its home directory written out. -/
def expanded (site : Site) (path : String) : Except SettingsError String :=
  if Path.hasImpossibleUser path then .error (.files .nullCharacter)
  else .ok (Path.expandHome site path)

/-- A path setting with its home directory written out. -/
def expandPath (site : Site) (fields : Fields) (key : String) : Except SettingsError Fields :=
  match fields.get? key with
  | some (.string path) => do return fields.insert key (.string (← expanded site path))
  | _ => .error .pathNotText

/-- The port as a whole number: truth values count as 0 and 1, a fraction is cut off, and a
text is read as a numeral. -/
def portNumber (value : Json) : Except SettingsError Int :=
  match value with
  | .int n => .ok n
  | .bool b => .ok (if b then 1 else 0)
  | .real (.infinite _) => .error .infinitePort
  | .real x =>
    match x.truncate? with
    | some n => .ok n
    | none => .error (.invalidPort value)
  | .string s =>
    match Text.integer? s with
    | some n => .ok n
    | none => .error (.invalidPort value)
  | _ => .error (.invalidPort value)

/-- Settings from given values. -/
def make (site : Site) (given : Fields) : Except SettingsError Settings := do
  let base := defaults site
  if given.keys.contains "self" then .error .reservedKey
  let unknown := given.keys.filter fun k => !base.keys.contains k
  if unknown ≠ [] then .error (.unknownKeys (unknown.mergeSort fun a b => decide (a ≤ b)))
  let fields := base.insertAll given
  let fields ← expandPath site fields "webpage_path"
  let fields ← expandPath site fields "api_spec_path"
  let port ← portNumber ((fields.get? "port").getD .null)
  return ⟨fields.insert "port" (.int port)⟩

/-- A value by name. -/
def get? (s : Settings) (key : String) : Option Json := s.fields.get? key

/-- The settings with one value written. -/
def set (s : Settings) (key : String) (value : Json) : Settings := ⟨s.fields.insert key value⟩

/-- All values as one object. -/
def toJson (s : Settings) : Json := .object s.fields

/-- The names that settings answer for themselves: two for all values together, and a few
about the settings as such. -/
def ownNames (s : Settings) : List (String × Json) :=
  [("_data", s.toJson), ("__dict__", .object [("_data", s.toJson)]),
   ("__module__", .string "bnfparse.config"), ("__doc__", .null), ("__weakref__", .null)]

/-- The value that a name has. -/
def attribute? (s : Settings) (key : String) : Option Json :=
  match s.ownNames.lookup key with
  | some v => some v
  | none => s.get? key

/-- The settings with a name written. The name of all values together takes only an object,
which replaces them. -/
def assign? (s : Settings) (key : String) (value : Json) : Option Settings :=
  if key = "_data" then
    match value with
    | .object fields => some ⟨fields⟩
    | _ => none
  else some (s.set key value)

/-- The wording for a name that has no value. -/
def missingMessage (key : String) : String :=
  "'BnfParseConfig' object has no attribute '" ++ key ++ "'"

end Settings
end BnfReader
