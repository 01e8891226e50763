import BnfReader.Files.Path
import BnfReader.Text.Quoted
import BnfReader.Text.Utf8

/-! Directories and files.

A `Disk` says what is at which place; a place is the parts of its path from the root, where
there always is a directory. Operations take a path as it is given, walk along its parts
from the working directory, and refuse with the reason and the path as it was given. A part
has at most 255 bytes and a path fewer than 4096.

Besides directories and files there is the null device. There are no links, and whoever works on
a disk may read and write all that is there. -/
namespace BnfReader
open Text (Bytes)

/-- What is at a place. -/
inductive Node where
  | directory
  | file (content : Bytes)
  /-- What takes everything that is written and holds nothing. -/
  | device
deriving DecidableEq

/-- The parts of a path from the root. -/
abbrev Place := List String

/-- What is where. -/
structure Disk where
  entries : List (Place × Node)

/-- Why an operation on files was refused. -/
inductive FileProblem where
  | notFound
  | exists
  | notADirectory
  | isADirectory
  | nameTooLong
deriving DecidableEq

/-- The number and the words of a reason. -/
def FileProblem.text : FileProblem → String
  | .notFound => "[Errno 2] No such file or directory"
  | .exists => "[Errno 17] File exists"
  | .notADirectory => "[Errno 20] Not a directory"
  | .isADirectory => "[Errno 21] Is a directory"
  | .nameTooLong => "[Errno 36] File name too long"

/-- A refusal: a reason with the path it is about, or a path that holds a null character,
which no path can. -/
inductive FileError where
  | refused (problem : FileProblem) (path : String)
  | nullCharacter
deriving DecidableEq

/-- The wording of a refusal. -/
def FileError.message : FileError → String
  | .refused problem path => problem.text ++ ": " ++ Text.quoted path
  | .nullCharacter => "embedded null byte"

namespace Disk

/-- Nothing but the root and the null device. -/
def empty : Disk := ⟨[(["dev"], .directory), (["dev", "null"], .device)]⟩

/-- What is at a place. -/
def node? (d : Disk) (place : Place) : Option Node :=
  if place = [] then some .directory else d.entries.lookup place

/-- The disk with something put at a place. -/
def put (d : Disk) (place : Place) (node : Node) : Disk :=
  ⟨(place, node) :: d.entries.filter fun e => e.1 != place⟩

/-- The disk with bytes written at a place, whatever was in the file there before. -/
def store (d : Disk) (place : Place) (content : Bytes) : Disk :=
  match d.node? place with
  | some .device => d
  | _ => d.put place (.file content)

/-- The disk with a place cleared. -/
def remove (d : Disk) (place : Place) : Disk := ⟨d.entries.filter fun e => e.1 != place⟩

/-- The disk with all directories on the way to a place. -/
def putParents (d : Disk) (place : Place) : Disk :=
  (List.range place.length).foldl (fun d n =>
    match d.node? (place.take n) with
    | none => d.put (place.take n) .directory
    | some _ => d) d

/-! ### Walking along a path -/

/-- Whether a part of a path is too long. -/
def partTooLong (part : String) : Bool := 255 < part.utf8ByteSize

/-- Whether a path as a whole is too long. -/
def pathTooLong (path : String) : Bool := 4096 ≤ path.utf8ByteSize

/-- The place that pieces lead to from a place, each but the last through a directory; the
way is written last part first. -/
def walk (d : Disk) : Place → List String → Except FileProblem Place
  | way, [] => .ok way.reverse
  | way, p :: rest =>
    match d.node? way.reverse with
    | none => .error .notFound
    | some (.file _) | some .device => .error .notADirectory
    | some .directory =>
      if p = "" ∨ p = "." then walk d way rest
      else if partTooLong p then .error .nameTooLong
      else walk d (Path.enter way p) rest

/-- Where a path begins, last part first. -/
def startOf (site : Site) (path : String) : Place :=
  if Path.isAbsolute path then [] else (Path.parts site.workingDir).reverse

/-- The place that a path leads to. -/
def locate (d : Disk) (site : Site) (path : String) : Except FileProblem Place :=
  if path = "" then .error .notFound
  else if pathTooLong path then .error .nameTooLong
  else d.walk (startOf site path) (Path.pieces path)

/-- The pieces of the directory that a file is to be in, and its name; `none` for a path
that can only mean a directory. -/
def fileName? (path : String) : List String × Option String :=
  let pieces := (Path.pieces path).reverse
  match pieces.dropWhile (· == "") with
  | [] => ([], none)
  | name :: dir =>
    let bare := pieces.head? != some "" && name != "." && name != ".."
    (dir.reverse, if bare then some name else none)

/-- A refusal about a path. -/
def orRefuse {α : Type} (path : String) (r : Except FileProblem α) : Except FileError α :=
  r.mapError fun problem => .refused problem path

/-- Whether a path holds a null character. -/
def hasNull (path : String) : Bool := path.toList.contains '\x00'

/-! ### Operations -/

/-- The content of a file. -/
def read (d : Disk) (site : Site) (path : String) : Except FileError Bytes :=
  if hasNull path then .error .nullCharacter
  else orRefuse path do
    match d.node? (← d.locate site path) with
    | none => .error .notFound
    | some .directory => .error .isADirectory
    | some (.file content) => .ok content
    | some .device => .ok []

/-- The disk with a file written, whatever was in it before. Its directory has to exist. -/
def write (d : Disk) (site : Site) (path : String) (content : Bytes) : Except FileError Disk :=
  if hasNull path then .error .nullCharacter
  else orRefuse path <|
    if path = "" then .error .notFound
    else if pathTooLong path then .error .nameTooLong
    else do
      let (dir, name?) := fileName? path
      let place ← d.walk (startOf site path) dir
      match d.node? place, name? with
      | none, _ => .error .notFound
      | some (.file _), _ | some .device, _ => .error .notADirectory
      | some .directory, none => .error .isADirectory
      | some .directory, some name =>
        if partTooLong name then .error .nameTooLong
        else
          match d.node? (place ++ [name]) with
          | some .directory => .error .isADirectory
          | _ => .ok (d.store (place ++ [name]) content)

/-- Whether there is anything at a path. -/
def exists? (d : Disk) (site : Site) (path : String) : Bool :=
  match d.locate site path with
  | .ok place => (d.node? place).isSome
  | .error _ => false

/-- Whether there is a file at a path. -/
def isFile (d : Disk) (site : Site) (path : String) : Bool :=
  match d.locate site path with
  | .ok place =>
    match d.node? place with
    | some (.file _) => !hasNull path
    | _ => false
  | .error _ => false

/-- The first `n` parts of a place made a directory, if all before it went well. -/
def makeDir (place : Place) : Disk × Except FileError Unit → Nat → Disk × Except FileError Unit
  | (d, .error e), _ => (d, .error e)
  | (d, .ok ()), n =>
    let here := place.take n
    match d.node? here with
    | some .directory => (d, .ok ())
    | some (.file _) | some .device =>
      if n = place.length then (d, .error (.refused .exists (Path.ofParts here)))
      else (d, .error (.refused .notADirectory (Path.ofParts (place.take (n + 1)))))
    | none =>
      let path := Path.ofParts here
      if pathTooLong path ∨ here.any partTooLong then (d, .error (.refused .nameTooLong path))
      else (d.put here .directory, .ok ())

/-- The disk with a directory at a place, and all those on the way to it. The first place on
the way that cannot be one is refused. -/
def makeDirs (d : Disk) (place : Place) : Disk × Except FileError Unit :=
  (List.range (place.length + 1)).foldl (makeDir place) (d, .ok ())

/-- The disk with bytes added at the end of the file at a place, which is new if there was
none. -/
def append (d : Disk) (place : Place) (content : Bytes) : Disk :=
  match d.node? place with
  | some (.file old) => d.put place (.file (old ++ content))
  | some .directory | some .device => d
  | none => d.put place (.file content)

/-- The disk with the file at a place moved to another, whatever was there before. -/
def move (d : Disk) (source target : Place) : Disk :=
  match d.node? source with
  | some node => (d.remove source).put target node
  | none => d

/-- The number of bytes in the file at a place. -/
def size (d : Disk) (place : Place) : Nat :=
  match d.node? place with
  | some (.file content) => content.length
  | _ => 0

/-- All that is below a place, relative to it and in order, directories with a slash at
their end. -/
def listing (d : Disk) (place : Place) : List String :=
  let below := d.entries.filterMap fun (p, node) =>
    if place.length < p.length ∧ p.take place.length = place then
      let shown := "/".intercalate (p.drop place.length)
      some (match node with | .directory => shown ++ "/" | _ => shown)
    else none
  below.mergeSort fun a b => decide (a ≤ b)

end Disk
end BnfReader
