import BnfReader.Settings.Basic
import BnfReader.Text.Newlines

/-! Settings in files.

A file is read from a given path, or from `config.json` in the base directory; a file that
is missing there is written with the defaults first. Each operation gives what it comes to
and the disk afterwards, since a directory made on the way stays even if the rest fails. -/
namespace BnfReader
open Text (Bytes)

/-- The text of a file, its line ends unified. -/
def fileText (content : Bytes) : Except Text.DecodeError String :=
  (Text.decode content).map Text.withUnixNewlines

/-- The base directory, made if it is missing. -/
def ensureBaseDir (site : Site) (disk : Disk) : Disk × Except SettingsError String :=
  match site.baseDir? with
  | none => (disk, .error .noHome)
  | some dir =>
    match disk.makeDirs (Path.parts dir) with
    | (disk, .error e) => (disk, .error (.files e))
    | (disk, .ok ()) => (disk, .ok dir)

/-- A refusal as an error of settings; an impossible path is not taken for one. -/
def fileFault (wrap : FileError → SettingsError) : FileError → SettingsError
  | .nullCharacter => .files .nullCharacter
  | e => wrap e

namespace Settings

/-- The settings that the content of a file gives; the path is for the wording. -/
def ofContent (site : Site) (path : String) (content : Bytes) : Except SettingsError Settings :=
  match fileText content with
  | .error e => .error (.undecodable e)
  | .ok text =>
    match Json.read text site.limits.reading with
    | .error (.tooManyDigits n) => .error (.numberTooLong (.tooManyDigits n))
    | .error (.tooDeep container) => .error (.nestedTooDeep (.tooDeep container))
    | .error .unpaired => .error .unpaired
    | .error e => .error (.malformed path e)
    | .ok (.object given) => make site given
    | .ok _ => .error (.notAnObject path)

/-- The settings in the file at an expanded path. -/
def readFrom (site : Site) (disk : Disk) (path : String) : Except SettingsError Settings :=
  match disk.read site path with
  | .error e => .error (fileFault (.unreadable path) e)
  | .ok content => ofContent site path content

/-- The content of the file that the settings are written to. -/
def content (site : Site) (s : Settings) : Bytes :=
  Text.encode (s.toJson.written site.limits.writing)

/-- The settings written to a path as it is given. What is written before a value that breaks
the writing off takes the place of the file all the same. -/
def writeTo (site : Site) (disk : Disk) (s : Settings) (path : String) :
    Disk × Except SettingsError Unit :=
  match disk.write site path (s.content site) with
  | .error e => (disk, .error (fileFault .unwritable e))
  | .ok disk =>
    match s.toJson.faultAt? site.limits.writing with
    | some cause => (disk, .error (.unfinished cause))
    | none => (disk, .ok ())

/-- The name of the usual file. -/
def fileName : String := "config.json"

/-- The settings from a path, or from the usual file. -/
def load (site : Site) (disk : Disk) (path? : Option String) : Disk × Except SettingsError Settings :=
  match path? with
  | some path => (disk, do readFrom site disk (← expanded site path))
  | none =>
    match ensureBaseDir site disk with
    | (disk, .error e) => (disk, .error e)
    | (disk, .ok dir) =>
      let path := Path.join dir fileName
      if disk.exists? site path then (disk, readFrom site disk path)
      else
        match make site [] with
        | .error e => (disk, .error e)
        | .ok s =>
          match writeTo site disk s path with
          | (disk, .error e) => (disk, .error e)
          | (disk, .ok ()) => (disk, .ok s)

/-- The settings written to a path, or to the usual file if none or an empty one is given. -/
def save (site : Site) (disk : Disk) (s : Settings) (path? : Option String) :
    Disk × Except SettingsError Unit :=
  match path? with
  | none | some "" =>
    match ensureBaseDir site disk with
    | (disk, .error e) => (disk, .error e)
    | (disk, .ok dir) => writeTo site disk s (Path.join dir fileName)
  | some path => writeTo site disk s path

end Settings
end BnfReader
