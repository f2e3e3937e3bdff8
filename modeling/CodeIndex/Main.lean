import CodeIndex.Command.Run
import CodeIndex.Project.Watch
import Std.Time.DateTime.Timestamp

/-!
# The command line

The outer layer of the program. The part of the file system that a command may look at is read into a
disk, the command is run on that, and what it has written below the project's data directory goes
back. Watching reads the project again and again, and applies what has changed in between.
-/

namespace CodeIndex.CommandLine

/-! ## §1. Between the file system and a disk. -/

/-- Why a file or a directory could not be opened. -/
def denialOf : IO.Error → Denial
  | .permissionDenied .. => .permission
  | _ => .device

/-- What stands at an entry of a directory and below it. -/
partial def readEntry (above : Location) (e : IO.FS.DirEntry) : IO (List (Location × Entry)) := do
  let place := above ++ [e.fileName.toList]
  let metadata ← e.path.symlinkMetadata
  match metadata.type with
  | .dir =>
    match ← e.path.readDir.toBaseIO with
    | .error why => return [(place, .closedDirectory (denialOf why))]
    | .ok entries =>
      let below ← entries.toList.mapM (readEntry place)
      return (place, .directory) :: below.flatten
  | .file =>
    match ← (IO.FS.readBinFile e.path).toBaseIO with
    | .error why => return [(place, .closedFile metadata.byteSize.toNat (denialOf why))]
    | .ok bytes => return [(place, .ofBytes bytes.toList)]
  | _ => return []

/-- The place of a path without links, dots and doubled slashes. -/
def placeOf (path : String) : Location := (Path.segments path.toList).filter (!·.isEmpty)

/-- The directories on the way to a place, and the one there. -/
def wayTo (place : Location) : List (Location × Entry) :=
  (List.range place.length).map fun i => (place.take (i + 1), .directory)

/-- Read a directory with all that is in it. -/
def readDirectory (path : String) : IO (List (Location × Entry)) := do
  try
    let real ← IO.FS.realPath path
    let place := placeOf real.toString
    let below ← (← real.readDir).toList.mapM (readEntry place)
    return wayTo place ++ below.flatten
  catch _ => return []

/-- Read one file, if it is there. -/
def readSettings (path : String) : IO (List (Location × Entry)) := do
  try
    let bytes ← IO.FS.readBinFile path
    let place := placeOf path
    return wayTo place.dropLast ++ [(place, .file bytes.toList)]
  catch _ => return []

/-- The disk that a command sees: the project, the settings of the user, and the working directory. -/
def loadDisk (e : Environment) (root : Option String) : IO Disk := do
  let here ← IO.FS.realPath (← IO.currentDir)
  let project ← readDirectory (root.getD here.toString)
  let settings ← (layoutOf e "/").configFiles.tail.mapM readSettings
  let place := placeOf here.toString
  return (project ++ settings.flatten ++ wayTo place).foldl (fun d (p, entry) => d.put p entry) ⟨[], place⟩

/-- Whether a place is in a project's data directory. -/
def isData (root : String) (place : Location) : Bool :=
  (placeOf (layoutOf ⟨none, 0, ""⟩ root).dataDir).isPrefixOf place

/-- Write back what has become of a project's data. -/
def storeDisk (root : String) (old new : Disk) : IO Unit := do
  let before := old.entries.filter fun (place, _) => isData root place
  let after := new.entries.filter fun (place, _) => isData root place
  for (place, entry) in after do
    let old := before.lookup place
    if entry.isDirectory && old.isNone then IO.FS.createDirAll (pathOf place)
    if let some bytes := entry.bytes? then
      if old.bind Entry.bytes? ≠ some bytes then IO.FS.writeBinFile (pathOf place) bytes.toByteArray
  for (place, entry) in before do
    if !entry.isDirectory && (after.lookup place).isNone then IO.FS.removeFile (pathOf place)

/-! ## §2. Surroundings. -/

/-- A name that no other session has. -/
def freshName : IO String := do
  let bytes ← IO.getRandomBytes 16
  return String.ofList (bytes.toList.flatMap fun b =>
    [Json.hexDigit (b.toNat / 16), Json.hexDigit (b.toNat % 16)])

/-- The time now. -/
def clockTime : IO Time := do
  return (← Std.Time.Timestamp.now).toMillisecondsSinceUnixEpoch.val

/-- The surroundings of the program. -/
def environment : IO Environment := do
  return ⟨← IO.getEnv "HOME", ← clockTime, ← freshName⟩

/-- Print what a command prints. -/
def Printed.put : Printed → IO Unit
  | .text s => IO.print s
  | .value v => IO.println (String.ofList v.normalize.pretty)

/-- Print why a command fails. -/
def CommandFailure.put (e : CommandFailure) : IO Unit :=
  match e.message? with
  | some message => IO.eprintln ("Error: " ++ message)
  | none => pure ()

/-! ## §3. Watching. -/

/-- The time in milliseconds between two readings of a watched project. -/
def pause : UInt32 := 200

/-- Notices of what differs between two readings of a project, its data apart. -/
def noticesBetween (root : String) (old new : Disk) : List Notice :=
  let files (d : Disk) := d.entries.filter fun (place, e) => !e.isDirectory && !isData root place
  let gone := (files old).filter fun (place, _) => ((files new).lookup place).isNone
  let written := (files new).filterMap fun (place, e) =>
    match (files old).lookup place with
    | none => some ⟨.created, [pathOf place]⟩
    | some before => if before.bytes? = e.bytes? then none else some ⟨.content, [pathOf place]⟩
  gone.map (fun (place, _) => ⟨.removed, [pathOf place]⟩) ++ written

/-- Apply what happens to a project until that fails. -/
partial def watchFrom (e : Environment) (p : Project) (d : Disk) : IO UInt32 := do
  IO.sleep pause
  let now ← loadDisk e (some p.root)
  match p.onBatch now (← clockTime) (batchOf now (noticesBetween p.root d now)) with
  | (p, .ok ()) =>
    storeDisk p.root now (p.save now)
    watchFrom e p now
  | (_, .error failure) =>
    CommandFailure.put (.project failure)
    return 1

/-- Open a project and watch it. -/
def watchProject (e : Environment) (d : Disk) (root : String) : IO UInt32 := do
  match Project.openOn d root (loadConfig d (layoutOf e root)) e.session with
  | (_, .error failure) =>
    CommandFailure.put (.project failure)
    return 1
  | (opened, .ok p) =>
    let (after, p, result) := watchAction e p opened
    storeDisk root d (p.save after)
    match result with
    | .error failure =>
      CommandFailure.put (.project failure)
      return 1
    | .ok printed =>
      printed.put
      watchFrom e p after

end CodeIndex.CommandLine

open CodeIndex CodeIndex.CommandLine in
/-- Run the program. -/
def main (args : List String) : IO UInt32 := do
  match parse args with
  | .error refusal =>
    let (code, text) := refusal.outcome
    IO.print text
    if code ≠ 0 then IO.eprintln ("error: " ++ refusal.name)
    return code.toUInt32
  | .ok invocation =>
    let e ← environment
    let d ← loadDisk e invocation.root
    match invocation.command, rootOf d invocation.root with
    | .watch, .ok root => watchProject e d root
    | _, root =>
      let finished := invocation.run e d
      if let .ok root := root then storeDisk root d finished.disk
      match finished.result with
      | .ok printed => printed.put
      | .error failure => failure.put
      return finished.code.toUInt32
