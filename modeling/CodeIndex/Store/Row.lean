import CodeIndex.Document.Chunk
import CodeIndex.Json.Reader
import CodeIndex.Json.Writer
import CodeIndex.Selection.Filter
import CodeIndex.Session.Vocabulary
import CodeIndex.Word

/-!
# Rows

What the store keeps, one type of row for each kind of thing. Symbols, chunks and edges belong to
files by the number of the file's row; events and observations belong to sessions by the session's
name. Times are milliseconds since the epoch.
-/

namespace CodeIndex

/-- The number of a row. -/
abbrev RowId := Int

/-- A point in time, in milliseconds since the epoch. -/
abbrev Time := Int

/-! ## §1. Files and what belongs to them. -/

/-- What is known of a file that has been indexed. -/
structure FileInfo where
  /-- The key of the file. -/
  path : String
  language : String
  /-- The digest of the content that was indexed. -/
  hash : String
  /-- The bytes of that content. -/
  size : Nat
  tokens : Nat
  fileClass : FileClass
  deriving DecidableEq, Repr

/-- A file that has been indexed. The time of that is left out: it is written with the row and never read. -/
structure FileRow extends FileInfo where
  id : RowId
  deriving DecidableEq, Repr

/-- A file as a value. -/
def FileRow.toJson (f : FileRow) : Json :=
  .obj [("id", .int f.id), ("path", .str f.path), ("language", .str f.language),
    ("hash", .str f.hash), ("size", .nat f.size), ("token_estimate", .nat f.tokens),
    ("class", .str f.fileClass.name)]

/-- A symbol of a file. -/
structure SymbolRow where
  id : RowId
  fileId : RowId
  symbol : Symbol
  deriving DecidableEq, Repr

/-- A chunk of a document. -/
structure ChunkRow where
  id : RowId
  fileId : RowId
  chunk : Chunk
  deriving DecidableEq, Repr

/-- An import of one file by another. The symbol is empty where the import is of the whole file. The number
of the row is left out: nothing refers to it. -/
structure EdgeRow where
  fromId : RowId
  toId : RowId
  symbol : String
  deriving DecidableEq, Repr

/-- A symbol with the file that declares it. -/
structure SymbolRecord where
  path : String
  symbol : Symbol
  deriving DecidableEq, Repr

/-- A symbol with its file as a value. -/
def SymbolRecord.toJson (r : SymbolRecord) : Json :=
  .obj (("file_path", .str r.path) :: r.symbol.members)

/-- A chunk with its document. -/
structure ChunkRecord where
  path : String
  chunk : Chunk
  deriving DecidableEq, Repr

/-- A chunk with its document as a value. -/
def ChunkRecord.toJson (r : ChunkRecord) : Json :=
  .obj (("file_path", .str r.path) :: r.chunk.members)

/-- An import between two files, given by their paths. -/
structure Edge where
  source : String
  target : String
  symbol : Option String
  deriving DecidableEq, Repr

/-- An import as a value. -/
def Edge.toJson (e : Edge) : Json :=
  .obj [("from_path", .str e.source), ("to_path", .str e.target), ("symbol_name", .opt .str e.symbol)]

/-- What a snapshot keeps of a symbol. -/
structure SnapshotEntry where
  name : String
  kind : SymbolKind
  signature : String
  /-- The digest that the signature is compared by. -/
  sigHash : String
  deriving DecidableEq, Repr

/-- An entry of the snapshot of a file. -/
structure SnapshotRow where
  path : String
  entry : SnapshotEntry
  deriving DecidableEq, Repr

/-- An entry of a snapshot as a value. -/
def SnapshotEntry.toJson (e : SnapshotEntry) : Json :=
  .obj [("name", .str e.name), ("kind", .str e.kind.name), ("signature", .str e.signature),
    ("sig_hash", .str e.sigHash)]

/-- The entry of a snapshot that a value gives. -/
def SnapshotEntry.ofJson? (v : Json) : Option SnapshotEntry := do
  match ← v.record? ["name", "kind", "signature", "sig_hash"] with
  | [name, kind, signature, sigHash] =>
    return ⟨← Json.required? Json.asStr? name, ← Json.required? Json.word? kind,
      ← Json.required? Json.asStr? signature, ← Json.required? Json.asStr? sigHash⟩
  | _ => none

/-! ## §2. Sessions and what belongs to them. -/

/-- The tokens that a session has been served, as they are stored. A sum that leaves the signed 64
bit numbers is stored with 53 significant bits. -/
inductive Served where
  /-- A sum that is exact. -/
  | exact (sum : Int)
  /-- A sum that is not a 64 bit number any more. -/
  | rounded (sum : Int)
  deriving DecidableEq, Repr

/-- A session. The time at which it began is left out: sessions are kept in the order in which they began,
which is that of their times as long as the clock does not go back. -/
structure SessionRow where
  id : String
  mode : SessionMode
  label : Option String
  served : Served
  deriving DecidableEq, Repr

/-- A session as it is read. -/
structure Session where
  id : String
  mode : SessionMode
  label : Option String
  tokens : Nat
  deriving DecidableEq, Repr

/-- A session as a value. -/
def Session.toJson (s : Session) : Json :=
  .obj [("id", .str s.id), ("mode", .str s.mode.name), ("label", .opt .str s.label),
    ("tokens_served", .nat s.tokens)]

/-- What an event logs, and about what. -/
structure NewEvent where
  type : EventType
  file : Option String
  symbol : Option String
  /-- Details, written as a value. -/
  extra : Option Json

/-- An event of a session. -/
structure EventRow where
  id : RowId
  sessionId : String
  event : NewEvent
  time : Time

/-- An event as a value. -/
def EventRow.toJson (e : EventRow) (showTime : Time → Json) : Json :=
  .obj [("id", .int e.id), ("session_id", .str e.sessionId), ("event_type", .str e.event.type.name),
    ("file_path", .opt .str e.event.file), ("symbol_name", .opt .str e.event.symbol),
    ("extra", e.event.extra.getD .null), ("created_at", showTime e.time)]

/-- What an observation says, and about what. -/
structure NewObservation where
  type : ObservationType
  file : Option String
  symbol : Option String
  text : String
  deriving DecidableEq, Repr

/-- An observation of a session. -/
structure ObservationRow where
  id : RowId
  sessionId : String
  observation : NewObservation
  /-- Whether the observation no longer holds. -/
  stale : Bool
  /-- Why it no longer holds; `none` as long as it does. -/
  staleReason : Option String
  time : Time
  deriving DecidableEq, Repr

/-- The observation as it stands when something is said against it. -/
def ObservationRow.marked (o : ObservationRow) (reason : String) : ObservationRow :=
  { o with stale := true, staleReason := some reason }

/-- An observation as a value. -/
def ObservationRow.toJson (o : ObservationRow) (showTime : Time → Json) : Json :=
  .obj [("id", .int o.id), ("session_id", .str o.sessionId),
    ("obs_type", .str o.observation.type.name), ("file_path", .opt .str o.observation.file),
    ("symbol_name", .opt .str o.observation.symbol), ("text", .str o.observation.text),
    ("stale", .bool o.stale), ("stale_reason", .opt .str o.staleReason),
    ("created_at", showTime o.time)]

end CodeIndex
