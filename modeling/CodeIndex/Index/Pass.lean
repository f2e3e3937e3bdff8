import CodeIndex.Index.File
import CodeIndex.Selection.Walk

/-!
# Indexing a project

A pass indexes every file that discovery selects, and those that are named in addition, each path
once and in the order of the paths. Then the rows of files that have vanished from the disk are taken
away. A file that cannot be indexed is reported, and the pass goes on.
-/

namespace CodeIndex

/-! ## §1. What comes of a pass. -/

/-- What came of a pass. -/
structure PassReport where
  indexed : Nat
  updated : Nat
  skipped : Nat
  /-- The rows taken away because their files have vanished. -/
  removed : Nat
  /-- What stood in the way of a file, in the order of the paths. -/
  errors : List IndexFailure
  /-- What has changed in source files; files without changes are left out. -/
  diffs : List FileDiff
  deriving DecidableEq, Repr

namespace PassReport

/-- The report of a pass that has done nothing. -/
def empty : PassReport := ⟨0, 0, 0, 0, [], []⟩

/-- The changes, if there are any. -/
def changed (diff : Option FileDiff) : List FileDiff :=
  (diff.filter fun d => !d.changes.isEmpty).toList

/-- Report what came of a file. -/
def record (r : PassReport) (o : FileOutcome) : PassReport :=
  let r := { r with diffs := r.diffs ++ changed o.diff }
  match o.status with
  | .indexed => { r with indexed := r.indexed + 1 }
  | .updated => { r with updated := r.updated + 1 }
  | .skipped => { r with skipped := r.skipped + 1 }

/-- Report a file that has vanished. -/
def recordRemoval (r : PassReport) (diff : FileDiff) : PassReport :=
  { r with removed := r.removed + 1, diffs := r.diffs ++ changed (some diff) }

/-- The members of a report as a value, without the changes. -/
def members (r : PassReport) : List (String × Json) :=
  [("indexed", .nat r.indexed), ("updated", .nat r.updated), ("skipped", .nat r.skipped),
    ("removed", .nat r.removed), ("errors", .list (fun e => .str e.message) r.errors)]

/-- A report as a value, without the changes. -/
def toJson (r : PassReport) : Json := .obj r.members

end PassReport

/-! ## §2. A pass. -/

/-- How far a pass has come. -/
structure Pass where
  store : Store
  report : PassReport
  /-- The refusal of the store that ended the pass. -/
  ended : Option StoreError

/-- Why a pass fails as a whole. -/
inductive PassFailure where
  /-- There is no directory to discover files in. -/
  | notEnumerable (e : NotEnumerable)
  /-- The store refused to be written. -/
  | store (e : StoreError)
  deriving DecidableEq, Repr

/-- The message about a pass that fails. -/
def PassFailure.message : PassFailure → String
  | .notEnumerable e => e.message
  | .store e => e.message

/-- What a pass is to do. -/
structure PassOptions where
  /-- Whether files that have not changed are read too. -/
  force : Bool
  /-- Files and directories to index in addition. -/
  additional : List String
  deriving DecidableEq, Repr

namespace Indexer

/-- The files that a path adds: those selected in a directory, or the file itself in any case. -/
def expand (x : Indexer) (d : Disk) (path : String) : Except NotEnumerable (List Discovered) :=
  let place := x.place path
  if d.isDirectory place then discover d x.filter x.root place
  else
    let key := x.relative place
    .ok [⟨key, x.filter.classOf key⟩]

/-- The files that a pass is to index, each path once and in the order of the paths. -/
def selected (x : Indexer) (d : Disk) (additional : List String) :
    Except NotEnumerable (List Discovered) := do
  let found ← discover d x.filter x.root x.root
  let added ← additional.mapM (x.expand d)
  return (sortDiscovered (found ++ added.flatten)).eraseDupsBy fun a b => a.path == b.path

/-- Index the next file of a pass. -/
def advance (x : Indexer) (d : Disk) (force : Bool) (p : Pass) (f : Discovered) : Pass :=
  if p.ended.isSome then p
  else
    match x.index d p.store f.fileClass f.path force with
    | .ok (s, o) => { p with store := s, report := p.report.record o }
    | .error (.store e) => { p with ended := some e }
    | .error e => { p with report := { p.report with errors := p.report.errors ++ [e] } }

/-- Take the rows of a file away, if the file has vanished. -/
def prune (x : Indexer) (d : Disk) (p : Pass) (row : FileRow) : Pass :=
  if d.exists? (x.place row.path) then p
  else
    match p.store.removeFile row.path with
    | none => p
    | some (s, diff) => { p with store := s, report := p.report.recordRemoval diff }

/-- Index the project. The rows that were written before a failure stay. -/
def indexAll (x : Indexer) (d : Disk) (s : Store) (options : PassOptions) :
    Store × Except PassFailure PassReport :=
  match x.selected d options.additional with
  | .error e => (s, .error (.notEnumerable e))
  | .ok files =>
    let p := files.foldl (x.advance d options.force) ⟨s, PassReport.empty, none⟩
    match p.ended with
    | some e => (p.store, .error (.store e))
    | none =>
      let p := (p.store.listFiles none).foldl (x.prune d) p
      (p.store, .ok p.report)

end Indexer

end CodeIndex
