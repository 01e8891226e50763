import BnfReader.Json.Basic

/-! Paths of files.

A path is parts with slashes between them; empty parts and `.` mean nothing, `..` goes one
part back. A path that begins with `~` is given from a home directory. -/
namespace BnfReader

/-- Where a program runs: what its paths depend on, and how deep the values in its files may be. -/
structure Site where
  /-- The directory that relative paths begin at. -/
  workingDir : String
  /-- The home directory. -/
  home : String
  /-- The home directories of users by name. -/
  users : List (String × String)
  /-- The directory for settings and logs, if another than the usual one is wanted. -/
  baseOverride : Option String
  /-- The directory of the page and of the service's description. -/
  staticDir : String
  /-- How many containers may stand in each other in the files of settings. -/
  limits : Json.Limits := .usual

namespace Path

/-- The pieces between slashes, empty ones included. -/
def pieces (path : String) : List String := (path.toList.splitOn '/').map String.ofList

/-- The parts that mean something. -/
def parts (path : String) : List String := (pieces path).filter fun p => p != "" && p != "."

/-- Whether a path begins at the root. -/
def isAbsolute (path : String) : Bool := path.toList.head? == some '/'

/-- One part more on the way, the way written last part first; `..` at the root stays there. -/
def enter (way : List String) (part : String) : List String :=
  if part = ".." then way.tail else part :: way

/-- The parts from the root that a path leads through, whatever files there are. -/
def normalize (workingDir path : String) : List String :=
  let start := if isAbsolute path then [] else parts workingDir
  ((start ++ parts path).foldl enter []).reverse

/-- The path of parts from the root. -/
def ofParts (ps : List String) : String := "/" ++ "/".intercalate ps

/-- A name inside a directory. -/
def join (dir name : String) : String :=
  if dir.toList.getLast? = some '/' then dir ++ name else dir ++ "/" ++ name

/-- A text without the slashes at its end. -/
def dropTrailingSlashes (s : String) : String :=
  String.ofList (s.toList.reverse.dropWhile (· == '/')).reverse

/-- The home directory that the first piece of a path names, if it begins with `~` and there
is one. -/
def homeOf? (site : Site) (piece : String) : Option String :=
  match piece.toList with
  | '~' :: name => if name.isEmpty then some site.home else site.users.lookup (String.ofList name)
  | _ => none

/-- A path with its home directory written out; one without, or with an unknown user, stays
as it is. -/
def expandHome (site : Site) (path : String) : String :=
  let cs := path.toList
  let first := cs.takeWhile (· != '/')
  match homeOf? site (String.ofList first) with
  | none => path
  | some home =>
    let expanded := dropTrailingSlashes home ++ String.ofList (cs.drop first.length)
    if expanded = "" then "/" else expanded

/-- Whether a path is given from the home directory of a user whose name holds a null
character, which no name can. -/
def hasImpossibleUser (path : String) : Bool :=
  match path.toList.takeWhile (· != '/') with
  | '~' :: name => name.contains '\x00'
  | _ => false

end Path

namespace Site

/-- The directory for settings and logs as a path; `none` when it is to begin at the home
directory of an unknown user. The usual one is `.bnfparse` in the home directory. -/
def baseDir? (site : Site) : Option String :=
  match site.baseOverride with
  | none | some "" => some (Path.join (Path.ofParts (Path.parts site.home)) ".bnfparse")
  | some path =>
    if Path.isAbsolute path then some (Path.ofParts (Path.normalize site.workingDir path))
    else
      match Path.parts path with
      | [] => some (Path.ofParts (Path.normalize site.workingDir path))
      | first :: rest =>
        if first.toList.head? = some '~' then
          (Path.homeOf? site first).map fun home =>
            Path.ofParts (Path.normalize site.workingDir (Path.join home ("/".intercalate rest)))
        else some (Path.ofParts (Path.normalize site.workingDir path))

end Site
end BnfReader
