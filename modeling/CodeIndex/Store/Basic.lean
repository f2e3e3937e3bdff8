import CodeIndex.Store.Row

/-!
# The store

All rows of an index, each kind in the order of its row numbers. A new row takes the number after
the greatest one in use. A row that belongs to another needs that one to be there, and deleting a
file takes what belongs to it along.

Every operation is a function from a store to a store. One that fails has no store in its result, so
that the old one stays; the only operation that leaves something behind when it fails says so.
-/

namespace CodeIndex

/-- The rows of an index. -/
structure Store where
  files : List FileRow
  symbols : List SymbolRow
  chunks : List ChunkRow
  edges : List EdgeRow
  /-- The files that have been compared. When that was is left out: it is never read. -/
  snapshotFiles : List String
  /-- The symbols of those files when they were last compared. -/
  snapshots : List SnapshotRow
  sessions : List SessionRow
  events : List EventRow
  observations : List ObservationRow

/-- Why an operation on a store fails. -/
inductive StoreError where
  /-- A row should belong to one that is not there. -/
  | foreignKey
  /-- A document has two chunks of one number. -/
  | repeatedChunk
  /-- A transaction begins inside another. -/
  | nestedTransaction
  /-- A transaction ends where none is open. -/
  | noTransaction
  /-- A session's tokens are no longer a whole number. -/
  | roundedTokens
  /-- An event's details nest too deep to be read, from a column of their text on. -/
  | deepDetails (column : Nat)
  /-- The transaction was to be given up. -/
  | givenUp
  deriving DecidableEq, Repr

/-- The message about a failed operation. -/
def StoreError.message : StoreError → String
  | .foreignKey => "FOREIGN KEY constraint failed"
  | .repeatedChunk => "UNIQUE constraint failed: chunks.file_id, chunks.chunk_index"
  | .nestedTransaction => "cannot start a transaction within a transaction"
  | .noTransaction => "cannot commit - no transaction is active"
  | .roundedTokens => "Invalid column type Real at index: 4, name: tokens_served"
  | .deepDetails column => "Conversion error from type Text at index: 5, recursion limit exceeded at line 1 column "
      ++ toString column
  | .givenUp => "boom"

/-- The number after the greatest one in use. -/
def nextId (ids : List RowId) : RowId := ids.foldl max 0 + 1

/-- The first so many of some rows; a limit past the signed 64 bit numbers is none. -/
def takeLimit (limit : Nat) (rows : List α) : List α :=
  if limit < signedEnd then rows.take limit else rows

namespace Store

/-- A store without rows. -/
def empty : Store := ⟨[], [], [], [], [], [], [], [], []⟩

/-! ## §1. Files. -/

/-- The row of a path. -/
def file? (s : Store) (path : String) : Option FileRow := s.files.find? (·.path == path)

/-- The row with a number. -/
def fileById? (s : Store) (id : RowId) : Option FileRow := s.files.find? (·.id == id)

/-- The number of a path's row. -/
def fileId? (s : Store) (path : String) : Option RowId := (s.file? path).map (·.id)

/-- Whether a number is that of a file. -/
def hasFile (s : Store) (id : RowId) : Bool := s.files.any (·.id == id)

/-- Put a file in. A path that has a row keeps its number; the result has the number, and whether
the path had a row. -/
def upsertFile (s : Store) (f : FileInfo) : Store × RowId × Bool :=
  match s.fileId? f.path with
  | some id =>
    ({ s with files := s.files.map fun old => if old.path == f.path then ⟨f, id⟩ else old }, id, true)
  | none =>
    let id := nextId (s.files.map (·.id))
    ({ s with files := s.files ++ [⟨f, id⟩] }, id, false)

/-- Delete a file with its symbols, its chunks and the edges at it. -/
def deleteFile (s : Store) (path : String) : Store :=
  match s.fileId? path with
  | some id =>
    { s with
      files := s.files.filter (·.path != path)
      symbols := s.symbols.filter (·.fileId != id)
      chunks := s.chunks.filter (·.fileId != id)
      edges := s.edges.filter fun e => e.fromId != id && e.toId != id }
  | none => s

/-- All files, or those of a class, in the order of their paths. -/
def listFiles (s : Store) (c : Option FileClass) : List FileRow :=
  (s.files.filter fun f => c.all (f.fileClass == ·)).mergeSort fun a b => a.path ≤ b.path

/-! ## §2. Symbols. -/

/-- Put one symbol of a file in. -/
def insertSymbol (s : Store) (fileId : RowId) (symbol : Symbol) : Except StoreError Store :=
  if s.hasFile fileId then
    .ok { s with symbols := s.symbols ++ [⟨nextId (s.symbols.map (·.id)), fileId, symbol⟩] }
  else .error .foreignKey

/-- Put symbols in the place of those that a file has. -/
def replaceSymbols (s : Store) (fileId : RowId) (symbols : List Symbol) : Except StoreError Store :=
  symbols.foldlM (fun s symbol => s.insertSymbol fileId symbol)
    { s with symbols := s.symbols.filter (·.fileId != fileId) }

/-- A symbol with its file. -/
def symbolRecord? (s : Store) (r : SymbolRow) : Option SymbolRecord :=
  (s.fileById? r.fileId).map fun f => ⟨f.path, r.symbol⟩

/-- The symbols of a file, by line and name. -/
def symbolsFor (s : Store) (path : String) : List SymbolRecord :=
  let records := (s.symbols.filterMap s.symbolRecord?).filter (·.path == path)
  records.mergeSort fun a b =>
    let (x, y) := (signed64 a.symbol.startLine, signed64 b.symbol.startLine)
    x < y || (x == y && a.symbol.name ≤ b.symbol.name)

/-- The symbols of a name, by file and line. -/
def findSymbols (s : Store) (name : String) : List SymbolRecord :=
  let records := (s.symbols.filter (·.symbol.name == name)).filterMap s.symbolRecord?
  records.mergeSort fun a b =>
    a.path < b.path
      || (a.path == b.path && signed64 a.symbol.startLine ≤ signed64 b.symbol.startLine)

/-! ## §3. Chunks. -/

/-- Put one chunk of a document in. -/
def insertChunk (s : Store) (fileId : RowId) (chunk : Chunk) : Except StoreError Store :=
  if s.chunks.any fun c => c.fileId == fileId && c.chunk.index == chunk.index then
    .error .repeatedChunk
  else if s.hasFile fileId then
    .ok { s with chunks := s.chunks ++ [⟨nextId (s.chunks.map (·.id)), fileId, chunk⟩] }
  else .error .foreignKey

/-- Put chunks in, one after another. The chunks before one that fails stay. -/
def insertChunks (s : Store) (fileId : RowId) : List Chunk → Store × Except StoreError Unit
  | [] => (s, .ok ())
  | chunk :: rest =>
    match s.insertChunk fileId chunk with
    | .ok s => s.insertChunks fileId rest
    | .error e => (s, .error e)

/-- Put chunks in the place of those that a document has. If that fails, the old chunks are gone and
the new ones before the failure stay. -/
def replaceChunks (s : Store) (fileId : RowId) (chunks : List Chunk) :
    Store × Except StoreError Unit :=
  { s with chunks := s.chunks.filter (·.fileId != fileId) }.insertChunks fileId chunks

/-- A chunk with its document. -/
def chunkRecord? (s : Store) (r : ChunkRow) : Option ChunkRecord :=
  (s.fileById? r.fileId).map fun f => ⟨f.path, r.chunk⟩

/-- The chunks of a document, by number. -/
def chunksFor (s : Store) (path : String) : List Chunk :=
  let records := (s.chunks.filterMap s.chunkRecord?).filter (·.path == path)
  (records.map (·.chunk)).mergeSort fun a b => signed64 a.index ≤ signed64 b.index

/-! ## §4. Edges. -/

/-- Take away the imports that a file makes; the result has their number. -/
def clearEdges (s : Store) (fromId : RowId) : Store × Nat :=
  ({ s with edges := s.edges.filter (·.fromId != fromId) },
    (s.edges.filter (·.fromId == fromId)).length)

/-- Put an import in, unless it is there; the result says whether it was new. -/
def insertEdge (s : Store) (fromId toId : RowId) (symbol : Option String) :
    Except StoreError (Store × Bool) :=
  let edge : EdgeRow := ⟨fromId, toId, symbol.getD ""⟩
  if s.edges.contains edge then .ok (s, false)
  else if s.hasFile fromId && s.hasFile toId then .ok ({ s with edges := s.edges ++ [edge] }, true)
  else .error .foreignKey

/-- An import by the paths of its files. -/
def edge? (s : Store) (e : EdgeRow) : Option Edge := do
  let source ← s.fileById? e.fromId
  let target ← s.fileById? e.toId
  return ⟨source.path, target.path, if e.symbol.isEmpty then none else some e.symbol⟩

/-- Imports in the order of the importing file, the imported file and the symbol. -/
def sortEdges (edges : List Edge) : List Edge :=
  edges.mergeSort fun a b =>
    a.source < b.source
      || (a.source == b.source && (a.target < b.target
        || (a.target == b.target && a.symbol.getD "" ≤ b.symbol.getD "")))

/-- All imports. -/
def allEdges (s : Store) : List Edge := sortEdges (s.edges.filterMap s.edge?)

/-- The imports that a file makes. -/
def dependenciesOf (s : Store) (path : String) : List Edge := s.allEdges.filter (·.source == path)

/-- The imports that are made of a file. -/
def importedBy (s : Store) (path : String) : List Edge := s.allEdges.filter (·.target == path)

/-- The pairs of an importing and an imported file. -/
def importPairs (s : Store) : List (String × String) :=
  (s.allEdges.map fun e => (e.source, e.target)).eraseDups

/-! ## §5. Snapshots. -/

/-- The snapshot of a file, in the order of the names; `none` if there never was one. -/
def snapshot? (s : Store) (path : String) : Option (List SnapshotEntry) :=
  if s.snapshotFiles.contains path then
    some (((s.snapshots.filter (·.path == path)).map (·.entry)).mergeSort fun a b => a.name ≤ b.name)
  else none

/-- Put an entry into the snapshot of a file. The one with its name gives way. -/
def putEntry (path : String) (rows : List SnapshotRow) (e : SnapshotEntry) : List SnapshotRow :=
  rows.filter (fun row => row.path != path || row.entry.name != e.name) ++ [⟨path, e⟩]

/-- Put a snapshot in the place of the one that a file has: take the entries away, mark the file as
compared, and put the new entries in. Of several with one name the last counts. -/
def replaceSnapshot (s : Store) (path : String) (entries : List SnapshotEntry) : Store :=
  { s with
    snapshotFiles := if s.snapshotFiles.contains path then s.snapshotFiles else s.snapshotFiles ++ [path]
    snapshots := entries.foldl (putEntry path) (s.snapshots.filter (·.path != path)) }

end Store

end CodeIndex
