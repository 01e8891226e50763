import BnfReader.Command.Run
import Std.Time

/-! The program on a real machine.

The files that a command may look at are taken in first, the command is run on them, and
what it changed is written back. The listener itself is not part of this program: `serve`
ends where the service would be handed to it. -/
namespace BnfReader.Main

/-- What is at a place of the machine. -/
def look (place : Place) : IO (Option Node) := do
  try
    let content ← IO.FS.readBinFile (Path.ofParts place)
    return some (.file content.toList)
  catch
    | .inappropriateType _ 21 _ => return some .directory
    | _ => return none

/-- The disk with what is at a place and on the way to it. -/
def takeIn (disk : Disk) (place : Place) : IO Disk :=
  (List.range place.length).foldlM (fun disk n => do
    let here := place.take (n + 1)
    -- The null device is there from the beginning, and is no file.
    match disk.node? here, ← look here with
    | some .device, _ | _, none => return disk
    | _, some node => return disk.put here node) disk

/-- The places that a command may look at. -/
def placesOf (site : Site) (args : List String) : List Place :=
  let base := (site.baseDir?.map Path.parts).getD []
  match Invocation.ofArguments args with
  | .ok { command := .check options, .. } => [Path.normalize site.workingDir options.file]
  | .ok { command := .serve options, .. } =>
    let given := match options.settings with
      | .file path => [Path.normalize site.workingDir (Path.expandHome site path)]
      | _ => []
    let logs := Log.fileName :: (List.range 5).map fun n =>
      Log.fileName ++ "." ++ toString (n + 1)
    given ++ (Settings.fileName :: logs).map fun name => base ++ [name]
  | .error _ => []

/-- Write back what is different. -/
def writeBack (before after : Disk) : IO Unit := do
  for (place, node) in after.entries.reverse do
    if before.node? place ≠ some node then
      match node with
      | .directory => IO.FS.createDirAll (Path.ofParts place)
      | .file content => IO.FS.writeBinFile (Path.ofParts place) ⟨content.toArray⟩
      | .device => pure ()
  for (place, _) in before.entries do
    if (after.node? place).isNone then IO.FS.removeFile (Path.ofParts place)

/-- The paths of this machine. -/
def thisSite : IO Site := do
  let workingDir ← IO.currentDir
  let home := (← IO.getEnv "HOME").getD "/"
  let baseOverride ← IO.getEnv "BNFPARSE_HOME"
  let staticDir := Path.join (← IO.appDir).toString "static"
  return { workingDir := workingDir.toString, home, users := [], baseOverride, staticDir }

/-- The time as it stands in log files. -/
def now : IO String := do
  return (← Std.Time.PlainDateTime.now).format "uuuu-MM-dd HH:mm:ss"

/-- The program with its arguments. -/
def run (args : List String) : IO UInt32 := do
  let site ← thisSite
  let before ← (placesOf site args).foldlM takeIn Disk.empty
  let report := Command.run site before (← now) args
  writeBack before report.disk
  IO.print report.printed
  match report.complaint with
  | some complaint => IO.eprintln complaint
  | none => pure ()
  match report.ending with
  | .ok code => return UInt32.ofNat code
  | .error e =>
    IO.eprintln (e.message?.getD "The command could not be run.")
    return 1

end BnfReader.Main

def main (args : List String) : IO UInt32 := BnfReader.Main.run args
