import CodeIndex.Disk.Basic
import CodeIndex.Resolve.Candidate
import CodeIndex.Source.Parse
import CodeIndex.Store.Basic
import CodeIndex.Text.Quoted

/-!
# Resolving imports

Imports become edges in two steps. A plan is made from the files on the disk and the files that the
index knows: the edges that each importing file is to have, and what could not be resolved. Applying
the plan puts these edges in the place of those that the files had. The index may have moved on in
between, so a file without a row is passed over when the plan is applied.

Only an import by a relative path is resolved. It leads to the first candidate that is another source
file of the index and a regular file on the disk.
-/

namespace CodeIndex.Resolve

/-- What could not be resolved. -/
inductive Failure where
  /-- An importing file cannot be read. -/
  | unreadable (path : String) (cause : DiskError)
  /-- An importing file is not text. -/
  | notText (path : String)
  /-- An import leads to no file of the index. -/
  | unresolved (importer specifier : String)
  deriving DecidableEq, Repr

/-- The message about what could not be resolved. -/
def Failure.message : Failure → String
  | .unreadable path cause => path ++ ": read failed: " ++ cause.message
  | .notText path => path ++ ": cannot decode as UTF-8 text"
  | .unresolved importer specifier =>
    importer ++ ": no indexed file for import " ++ String.ofList (Text.quote specifier.toList)

/-! ## §1. Plans. -/

/-- The edge that an import is to make. -/
structure PlannedEdge where
  target : String
  /-- The imported name; `none` for an import of the whole file. -/
  symbol : Option String
  deriving DecidableEq, Repr

/-- The edges that an importing file is to have. -/
structure FilePlan where
  path : String
  edges : List PlannedEdge
  deriving DecidableEq, Repr

/-- The edges that importing files are to have, and what could not be resolved. -/
structure Plan where
  files : List FilePlan
  failures : List Failure
  deriving DecidableEq, Repr

/-- What plans are made from: the project on the disk, and the source files that the index knows. -/
structure Surroundings where
  root : String
  disk : Disk
  known : List String

namespace Surroundings

/-- Whether an import may lead from one file to another. -/
def accepts (x : Surroundings) (importer candidate : String) : Bool :=
  candidate != importer && x.known.contains candidate
    && x.disk.isFile (Path.under x.root candidate)

/-- The file that an import leads to. -/
def target? (x : Surroundings) (importer specifier : String) : Option String :=
  (candidates importer specifier).find? (x.accepts importer)

/-- The edges of an import that leads to a file: one for each name, or one for the whole file. -/
def edgesTo (target : String) (i : Import) : List PlannedEdge :=
  if i.names.isEmpty then [⟨target, none⟩] else i.names.map fun name => ⟨target, some name⟩

/-- The edges of an import. -/
def edgesOf (x : Surroundings) (importer : String) (i : Import) : List PlannedEdge :=
  match x.target? importer i.source with
  | some target => edgesTo target i
  | none => []

/-- What is wrong with an import. -/
def failureOf? (x : Surroundings) (importer : String) (i : Import) : Option Failure :=
  match x.target? importer i.source with
  | some _ => none
  | none => some (.unresolved importer i.source)

/-- The imports of a file that are to be resolved, or why the file yields none. -/
def importsOf (x : Surroundings) (path : String) : Except Failure (List Import) :=
  match x.disk.read (Path.under x.root path) with
  | .error cause => .error (.unreadable path cause)
  | .ok bytes =>
    match Text.decode? bytes with
    | none => .error (.notText path)
    | some content => .ok ((parse path content).imports.filter (·.isRelative))

/-- The plan for a file. A file that cannot be read has none, and keeps the edges it has. -/
def planFile (x : Surroundings) (path : String) : Plan :=
  match x.importsOf path with
  | .error e => ⟨[], [e]⟩
  | .ok imports =>
    ⟨[⟨path, imports.flatMap (x.edgesOf path)⟩], imports.filterMap (x.failureOf? path)⟩

/-- The plan for some files. -/
def plan (x : Surroundings) (paths : List String) : Plan :=
  let plans := paths.map x.planFile
  ⟨plans.flatMap (·.files), plans.flatMap (·.failures)⟩

end Surroundings

/-! ## §2. Applying a plan. -/

/-- What came of a plan. -/
structure Report where
  /-- The importing files whose edges were written. -/
  files : Nat
  /-- The edges written. -/
  edges : Nat
  failures : List Failure
  deriving DecidableEq, Repr

/-- What came of a plan, as a value. -/
def Report.toJson (r : Report) : Json :=
  .obj [("files", .nat r.files), ("edges", .nat r.edges),
    ("failures", .list (fun f => .str f.message) r.failures)]

/-- A store with the numbers of files and edges written so far. -/
structure Progress where
  store : Store
  files : Nat
  edges : Nat

/-- Write one edge from a file, unless its target is gone. -/
def Progress.writeEdge (fromId : RowId) (p : Progress) (e : PlannedEdge) :
    Except StoreError Progress :=
  match p.store.fileId? e.target with
  | none => .ok p
  | some toId => do
    let (s, new) ← p.store.insertEdge fromId toId e.symbol
    return { p with store := s, edges := if new then p.edges + 1 else p.edges }

/-- Put the planned edges of a file in the place of those it has, unless the file is gone. -/
def Progress.writeFile (p : Progress) (f : FilePlan) : Except StoreError Progress :=
  match p.store.fileId? f.path with
  | none => .ok p
  | some fromId => do
    let cleared := { p with store := (p.store.clearEdges fromId).1 }
    let written ← f.edges.foldlM (Progress.writeEdge fromId) cleared
    return { written with files := written.files + 1 }

/-- Apply a plan, as a whole or not at all. -/
def Plan.apply (plan : Plan) (s : Store) : Except StoreError (Store × Report) := do
  let p ← plan.files.foldlM Progress.writeFile ⟨s, 0, 0⟩
  return (p.store, ⟨p.files, p.edges, plan.failures⟩)

end CodeIndex.Resolve
