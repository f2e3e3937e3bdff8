import CodeIndex.Path
import CodeIndex.Store.Archive

/-!
# Files and directories

A disk is what a process sees of its file system: directories and regular files, each at a place
given by the names that lead to it from the root, and a working directory for paths that do not start
at the root. A path is resolved step by step, so that a path which leads through a missing entry, or
through a file, fails in its own way. A file with an index is told apart from one with other bytes.

Some of what is there may be closed to the process. It is told of a closed directory, and of nothing
that is in it; of a closed file it is told the size. What is not closed it may read and write.

  locate    the place that a path leads to
  read      the bytes of the file there
  isFile, isDirectory, exists
-/

namespace CodeIndex

open Text (Bytes)

/-- The place of an entry: the names from the root down to it. -/
abbrev Location := Path.Segments

/-- Why the system keeps a process from what is there. -/
inductive Denial where
  /-- The process does not have the rights. -/
  | permission
  /-- The device does not answer. -/
  | device
  deriving DecidableEq, Repr

/-- Why an operation on a disk fails. -/
inductive DiskError where
  | notFound
  | notADirectory
  | isADirectory
  | alreadyExists
  | nameTooLong
  | busy
  | nulInName
  | denied (why : Denial)
  deriving DecidableEq, Repr

/-- The message about a failed operation. -/
def DiskError.message : DiskError → String
  | .notFound => "No such file or directory (os error 2)"
  | .notADirectory => "Not a directory (os error 20)"
  | .isADirectory => "Is a directory (os error 21)"
  | .alreadyExists => "File exists (os error 17)"
  | .nameTooLong => "File name too long (os error 36)"
  | .busy => "Device or resource busy (os error 16)"
  | .nulInName => "file name contained an unexpected NUL byte"
  | .denied .permission => "Permission denied (os error 13)"
  | .denied .device => "Input/output error (os error 5)"

/-- What stands at a place. -/
inductive Entry where
  | directory
  /-- A file that holds anything but an index. -/
  | file (content : Bytes)
  /-- A file that holds an index. -/
  | index (store : Store)
  /-- A directory that can neither be listed nor searched. -/
  | closedDirectory (why : Denial)
  /-- A file that cannot be opened. -/
  | closedFile (size : Nat) (why : Denial)

/-- The file with given bytes. -/
def Entry.ofBytes (bytes : Bytes) : Entry :=
  match Store.ofBytes? bytes with
  | some s => .index s
  | none => .file bytes

/-- The bytes of a file, as far as they are told. -/
def Entry.bytes? : Entry → Option Bytes
  | .file content => some content
  | .index s => some s.toBytes
  | .directory | .closedDirectory _ | .closedFile _ _ => none

/-- The size of a file. -/
def Entry.size? : Entry → Option Nat
  | .file content => some content.length
  | .index s => some s.toBytes.length
  | .closedFile size _ => some size
  | .directory | .closedDirectory _ => none

/-- Whether an entry is a directory. -/
def Entry.isDirectory : Entry → Bool
  | .directory | .closedDirectory _ => true
  | .file _ | .index _ | .closedFile _ _ => false

/-- Open a file and read it. -/
def Entry.read : Entry → Except DiskError Bytes
  | .file content => .ok content
  | .index s => .ok s.toBytes
  | .directory => .error .isADirectory
  | .closedDirectory why | .closedFile _ why => .error (.denied why)

/-- Directories and files. The root is a directory whether or not it is listed. -/
structure Disk where
  entries : List (Location × Entry)
  /-- The working directory. -/
  here : Location

namespace Disk

/-! ## §1. Places. -/

/-- What stands at a place. -/
def at? (d : Disk) (place : Location) : Option Entry :=
  if place = [] then some .directory else d.entries.lookup place

/-- The bytes that a name may have. -/
def maxName : Nat := 255

/-- The bytes that a path may have. -/
def maxPath : Nat := 4095

/-- Refuse a step from a place. It needs a directory to stand in, and one to search unless the segment
is empty. -/
def checkStep (d : Disk) (place : Location) (s : List Char) : Except DiskError Unit :=
  match d.at? place with
  | some .directory => .ok ()
  | some (.closedDirectory why) => if s = [] then .ok () else .error (.denied why)
  | _ => .error .notADirectory

/-- Follow segments from a place. -/
def follow (d : Disk) (place : Location) : Path.Segments → Except DiskError Location
  | [] => .ok place
  | s :: rest =>
    match d.checkStep place s with
    | .error e => .error e
    | .ok () =>
      if s = [] then d.follow place rest
      else if s = ['.'] then d.follow place rest
      else if s = ['.', '.'] then d.follow place.dropLast rest
      else if maxName < Text.byteLength s then .error .nameTooLong
      else
        match d.at? (place ++ [s]) with
        | some _ => d.follow (place ++ [s]) rest
        | none => .error .notFound

/-- Refuse a text that is no path. -/
def checkPath (path : List Char) : Except DiskError Unit :=
  if path.contains '\x00' then .error .nulInName
  else if path.isEmpty then .error .notFound
  else if maxPath < Text.byteLength path then .error .nameTooLong
  else .ok ()

/-- Where a path starts. -/
def origin (d : Disk) (path : List Char) : Location := if Path.isAbsolute path then [] else d.here

/-- The place that a path leads to. -/
def locate (d : Disk) (path : String) : Except DiskError Location := do
  checkPath path.toList
  d.follow (d.origin path.toList) (Path.segments path.toList)

/-! ## §2. Looking. -/

/-- What a path leads to. -/
def entry (d : Disk) (path : String) : Except DiskError Entry := do
  match d.at? (← d.locate path) with
  | some e => return e
  | none => throw .notFound

/-- Whether a path leads anywhere, as far as the process is told. -/
def exists? (d : Disk) (path : String) : Bool := (d.entry path).isOk

/-- Whether a path leads to a directory. -/
def isDirectory (d : Disk) (path : String) : Bool :=
  match d.entry path with
  | .ok e => e.isDirectory
  | .error _ => false

/-- Whether a path leads to a file. -/
def isFile (d : Disk) (path : String) : Bool :=
  match d.entry path with
  | .ok e => !e.isDirectory
  | .error _ => false

/-- The content of the file that a path leads to. -/
def read (d : Disk) (path : String) : Except DiskError Bytes := do
  (← d.entry path).read

end Disk

end CodeIndex
