import CodeIndex.Disk.Basic

/-!
# Writing to a disk

Operations that change a disk. An operation that fails leaves the disk as the steps before the
failure have made it, so its result is a disk in any case. To replace a file, `replaceFile` writes a
second file beside it and moves that one into its place; `appendLines` adds lines to a file.
-/

namespace CodeIndex

open Text (Bytes)

/-- A disk after an operation, and how the operation went. -/
structure Written (α : Type) where
  disk : Disk
  result : Except DiskError α

namespace Disk

/-! ## §1. Entries. -/

/-- Put an entry at a place. -/
def put (d : Disk) (place : Location) (e : Entry) : Disk :=
  if d.entries.any (·.1 == place) then
    { d with entries := d.entries.map fun (p, old) => if p == place then (p, e) else (p, old) }
  else { d with entries := d.entries ++ [(place, e)] }

/-- Take away what stands at a place and below it. -/
def erase (d : Disk) (place : Location) : Disk :=
  { d with entries := d.entries.filter fun (p, _) => !place.isPrefixOf p }

/-- The last step of a path that is to lead to a new entry: the directory to stand in, the name, and
whether a slash follows the name. There is no name where the path ends in `.`, `..` or the root. -/
structure Target where
  directory : Location
  name : Option (List Char)
  slashed : Bool

/-- The last step of a path. The directory is one that can be searched. -/
def target (d : Disk) (path : String) : Except DiskError Target := do
  checkPath path.toList
  let segments := Path.segments path.toList
  let body := (segments.reverse.dropWhile (· == [])).reverse
  let last := body.getLast?.getD []
  let directory ← d.follow (d.origin path.toList) (body.dropLast ++ [['.']])
  let name := if last = [] || last = ['.'] || last = ['.', '.'] then none else some last
  return ⟨directory, name, body.length < segments.length⟩

/-- Refuse a name that is too long. -/
def checkName (name : List Char) : Except DiskError Unit :=
  if maxName < Text.byteLength name then .error .nameTooLong else .ok ()

/-! ## §2. Directories. -/

/-- Make one directory. -/
def makeDirectory (d : Disk) (path : String) : Except DiskError Disk := do
  let t ← d.target path
  match t.name with
  | none => throw .alreadyExists
  | some name =>
    checkName name
    match d.at? (t.directory ++ [name]) with
    | some _ => throw .alreadyExists
    | none => return d.put (t.directory ++ [name]) .directory

/-- Make a directory and those above it that are missing. The path above is shorter, so `fuel` need
not exceed the length of the path. -/
def makeDirectoriesFrom (d : Disk) : (fuel : Nat) → (path : String) → Written Unit
  | 0, _ => ⟨d, .ok ()⟩
  | fuel + 1, path =>
    if path.isEmpty then ⟨d, .ok ()⟩
    else
      match d.makeDirectory path with
      | .ok d => ⟨d, .ok ()⟩
      | .error .notFound =>
        match Path.parent? path.toList with
        | none => ⟨d, .error .notFound⟩
        | some above =>
          match d.makeDirectoriesFrom fuel (String.ofList above) with
          | ⟨d, .ok ()⟩ =>
            match d.makeDirectory path with
            | .ok d => ⟨d, .ok ()⟩
            | .error e => ⟨d, if d.isDirectory path then .ok () else .error e⟩
          | failed => failed
      | .error e => ⟨d, if d.isDirectory path then .ok () else .error e⟩

/-- Make a directory and those above it that are missing. -/
def makeDirectories (d : Disk) (path : String) : Written Unit :=
  d.makeDirectoriesFrom (path.length + 1) path

/-- Make the directory that a path's file is to be in. -/
def makeParent (d : Disk) (path : String) : Written Unit :=
  match Path.parent? path.toList with
  | some above => d.makeDirectories (String.ofList above)
  | none => ⟨d, .ok ()⟩

/-! ## §3. Files. -/

/-- Put a file where a path leads to; `change` gives the new file from the old one, if there is
one. -/
def putFile (d : Disk) (path : String) (change : Option Entry → Entry) : Except DiskError Disk := do
  let t ← d.target path
  match t.name with
  | none => throw .isADirectory
  | some name =>
    if t.slashed then throw .isADirectory
    checkName name
    let place := t.directory ++ [name]
    match d.at? place with
    | some .directory | some (.closedDirectory _) => throw .isADirectory
    | some (.closedFile _ why) => throw (.denied why)
    | old => return d.put place (change old)

/-- Write to a file, which is made where it is missing; `change` gives the new content from the
old. -/
def modifyFile (d : Disk) (path : String) (change : Bytes → Bytes) : Except DiskError Disk :=
  d.putFile path fun old => .file (change ((old.bind Entry.bytes?).getD []))

/-- Make a file hold the given content. -/
def writeFile (d : Disk) (path : String) (content : Bytes) : Except DiskError Disk :=
  d.modifyFile path fun _ => content

/-- Make a file hold the given index. -/
def writeIndex (d : Disk) (path : String) (s : Store) : Except DiskError Disk :=
  d.putFile path fun _ => .index s

/-- Move a file to another place, where it replaces another file. -/
def moveFile (d : Disk) (source destination : String) : Except DiskError Disk := do
  let s ← d.target source
  let t ← d.target destination
  match s.name, t.name with
  | some sourceName, some name =>
    checkName sourceName
    let origin := s.directory ++ [sourceName]
    let place := t.directory ++ [name]
    match d.at? origin with
    | none => throw .notFound
    | some file =>
      if file.isDirectory then throw .isADirectory
      checkName name
      if t.slashed then throw .notADirectory
      else if (d.at? place).any (·.isDirectory) then throw .isADirectory
      else if origin = place then return d
      else return (d.erase origin).put place file
  | _, _ => throw .busy

/-- Take a file or a directory with all in it away. -/
def remove (d : Disk) (path : String) : Except DiskError Disk := do
  return d.erase (← d.locate path)

/-! ## §4. Whole operations. -/

/-- The path of the file that stands in for another while that is replaced. -/
def temporaryPath (path : String) : String :=
  String.ofList (Path.withExtension path.toList "tmp".toList)

/-- Replace a file by way of a temporary one beside it. -/
def replaceFile (d : Disk) (path : String) (content : Bytes) : Written Unit :=
  match d.makeParent path with
  | ⟨d, .error e⟩ => ⟨d, .error e⟩
  | ⟨d, .ok ()⟩ =>
    match d.writeFile (temporaryPath path) content with
    | .error e => ⟨d, .error e⟩
    | .ok d =>
      match d.moveFile (temporaryPath path) path with
      | .ok d => ⟨d, .ok ()⟩
      | .error e => ⟨d, .error e⟩

/-- Add lines at the end of a file; the result is their number. -/
def appendLines (d : Disk) (path : String) (lines : List (List Char)) : Written Nat :=
  match d.makeParent path with
  | ⟨d, .error e⟩ => ⟨d, .error e⟩
  | ⟨d, .ok ()⟩ =>
    let added := Text.encode (lines.flatMap (· ++ ['\n']))
    match d.modifyFile path (· ++ added) with
    | .ok d => ⟨d, .ok lines.length⟩
    | .error e => ⟨d, .error e⟩

end Disk

end CodeIndex
