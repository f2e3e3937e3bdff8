import CodeIndex.Disk.Basic
import CodeIndex.Selection.Filter

/-!
# Discovery

Which files of a directory are indexed. Every regular file below the directory is classified by its
key in the project, and a directory below the start whose files are never indexed is not entered. Nor
is one that is closed.
-/

namespace CodeIndex

/-- A file that is to be indexed, by its key. -/
structure Discovered where
  path : String
  fileClass : FileClass
  deriving DecidableEq, Repr

/-- A path that should have led to a directory in which files can be discovered. -/
structure NotEnumerable where
  path : String
  /-- Whether it led to a directory, which was closed. -/
  isClosed : Bool
  deriving DecidableEq, Repr

/-- The message about a path that does not lead to such a directory. -/
def NotEnumerable.message (e : NotEnumerable) : String :=
  "cannot enumerate " ++ e.path ++ (if e.isClosed then "" else ": not a directory")

namespace Walk

/-- The names that lead from one place to another below it. -/
def below? (start place : Location) : Option (List (List Char)) := start.isPrefixOf? place

/-- The path of an entry, given by the names that lead to it from a directory. -/
def pathBelow (dir : String) (names : List (List Char)) : String :=
  String.ofList (Path.join dir.toList (Path.joinSegments names))

/-- The directories on the way, from the first below the start to the one that holds the entry. -/
def ancestors (names : List (List Char)) : List (List (List Char)) :=
  (List.range (names.length - 1)).map fun i => names.take (i + 1)

/-- Whether the walk reaches an entry: no directory on the way is left out. -/
def reaches (f : FileFilter) (root dir : String) (names : List (List Char)) : Bool :=
  (ancestors names).all fun above => !f.prunes (Path.relative root (pathBelow dir above))

/-- Whether no directory on the way from a place is closed. The walk passes over one that is. -/
def isOpen (d : Disk) (start : Location) (names : List (List Char)) : Bool :=
  (ancestors names).all fun above =>
    match d.at? (start ++ above) with
    | some (.closedDirectory _) => false
    | _ => true

/-- The file at a place, if the walk from a directory finds it. -/
def found? (d : Disk) (f : FileFilter) (root dir : String) (start : Location) :
    Location × Entry → Option Discovered
  | (place, e) => do
    let names ← below? start place
    if e.isDirectory || names.isEmpty || !isOpen d start names || !reaches f root dir names then none
    else
      let path := Path.relative root (pathBelow dir names)
      (f.classify? path).map fun c => ⟨path, c⟩

end Walk

/-- Discovered files in the order of their paths. -/
def sortDiscovered (files : List Discovered) : List Discovered :=
  files.mergeSort fun a b => a.path ≤ b.path

/-- The files below a directory that are indexed, in the order of their paths. -/
def discover (d : Disk) (f : FileFilter) (root dir : String) :
    Except NotEnumerable (List Discovered) :=
  match d.locate dir with
  | .ok start =>
    match d.at? start with
    | some .directory => .ok (sortDiscovered (d.entries.filterMap (Walk.found? d f root dir start)))
    | some (.closedDirectory _) => .error ⟨dir, true⟩
    | _ => .error ⟨dir, false⟩
  | .error _ => .error ⟨dir, false⟩

end CodeIndex
