import CodeIndex.Digest.Blake3
import CodeIndex.Document.Chunk
import CodeIndex.Disk.Basic
import CodeIndex.Source.Parse
import CodeIndex.Store.Diff

/-!
# Indexing one file

The index is kept in line with the disk file by file. A file whose bytes have the digest that its row
has is left alone, unless that is overruled. Otherwise a source file is read for its symbols, which
are compared with its snapshot, and its imports are to be resolved anew; a document is cut into
chunks. All that belongs to one file is written together.

What stands in the way of one file is no obstacle to the others; only a store that refuses to be
written is.
-/

namespace CodeIndex

open Text (Bytes)

/-! ## §1. What comes of a file. -/

/-- Why a file is not indexed. -/
inductive IndexFailure where
  /-- There is no file at the path. -/
  | missing (path : String)
  /-- The file cannot be read. -/
  | unreadable (path : String) (cause : DiskError)
  /-- A source file is not text. -/
  | notText (path : String)
  /-- The file is larger than the settings allow. -/
  | tooLarge (path : String) (size limit : Nat)
  /-- The store refused to be written. -/
  | store (cause : StoreError)
  deriving DecidableEq, Repr

/-- The message about a file that is not indexed. -/
def IndexFailure.message : IndexFailure → String
  | .missing path => path ++ ": file not found"
  | .unreadable path cause => path ++ ": read failed: " ++ cause.message
  | .notText path => path ++ ": cannot decode as UTF-8 text"
  | .tooLarge path size limit =>
    path ++ ": " ++ toString size ++ " bytes exceeds the " ++ toString limit ++ " byte limit"
  | .store cause => cause.message

/-- What was done about a file. -/
inductive IndexStatus where
  /-- It has a row for the first time. -/
  | indexed
  /-- Its row was written anew. -/
  | updated
  /-- It has not changed. -/
  | skipped
  deriving DecidableEq, Repr

/-- The word for what was done about a file. -/
def IndexStatus.name : IndexStatus → String
  | .indexed => "indexed"
  | .updated => "updated"
  | .skipped => "skipped"

/-- What was done about a row, given whether there was one. -/
def IndexStatus.ofExisted (existed : Bool) : IndexStatus := if existed then .updated else .indexed

/-- What came of indexing a file. -/
structure FileOutcome where
  path : String
  status : IndexStatus
  /-- The changes of a source file that was read. -/
  diff : Option FileDiff
  deriving DecidableEq, Repr

/-- What came of indexing a file, as a value. -/
def FileOutcome.toJson (o : FileOutcome) : Json :=
  .obj [("path", .str o.path), ("status", .str o.status.name), ("diff", .opt FileDiff.toJson o.diff)]

/-! ## §2. Writing a file's rows. -/

/-- Write the row, the symbols and the snapshot of a source file, and take its imports away; the
result says whether there was a row, and what has changed. -/
def Store.putCode (s : Store) (info : FileInfo) (symbols : List Symbol) :
    Except StoreError (Store × Bool × FileDiff) := do
  let (s, id, existed) := s.upsertFile info
  let s ← s.replaceSymbols id symbols
  let (s, _) := s.clearEdges id
  let (s, diff) := s.computeDiff info.path symbols
  return (s, existed, diff)

/-- Write the row and the chunks of a document; the result says whether there was a row. -/
def Store.putDocument (s : Store) (info : FileInfo) (chunks : List Chunk) :
    Except StoreError (Store × Bool) :=
  let (s, id, existed) := s.upsertFile info
  match s.replaceChunks id chunks with
  | (s, .ok ()) => .ok (s, existed)
  | (_, .error e) => .error e

/-- Take a file's rows away; the result has what became of its symbols. All symbols of a source file
are gone, and a document has none. `none` if there is no row. -/
def Store.removeFile (s : Store) (path : String) : Option (Store × FileDiff) :=
  (s.file? path).map fun row =>
    match row.fileClass with
    | .code =>
      let (s, diff) := s.computeDiff path []
      (s.deleteFile path, diff)
    | .doc => (s.deleteFile path, ⟨path, false, []⟩)

/-! ## §3. Reading a file. -/

/-- What indexing goes by. -/
structure Indexer where
  root : String
  config : Config
  filter : FileFilter

namespace Indexer

/-- The path on the disk of a file of the project. -/
def place (x : Indexer) (path : String) : String := Path.under x.root path

/-- The key of a file of the project. -/
def relative (x : Indexer) (path : String) : String := Path.relative x.root path

/-- The bytes of a file that is to be indexed. -/
def read (x : Indexer) (d : Disk) (path : String) : Except IndexFailure Bytes :=
  match d.entry (x.place path) with
  | .ok e =>
    match e.size? with
    | none => .error (.missing path)
    | some size =>
      if x.config.maxFileBytes < size then .error (.tooLarge path size x.config.maxFileBytes)
      else e.read.mapError (.unreadable path)
  | .error .notFound => .error (.missing path)
  | .error cause => .error (.unreadable path cause)

/-- Whether a file's row has the digest of its bytes. -/
def isCurrent (s : Store) (path hash : String) : Bool := (s.file? path).any (·.hash == hash)

/-- The chunks of a document: sections of Markdown, and runs of lines of anything else. -/
def chunks (x : Indexer) (language : Language) (content : List Char) : List Chunk :=
  if language = .markdown then Document.markdownChunks content
  else Document.lineChunks content x.config.chunkLines

/-- Write a source file with the given bytes. -/
def writeFile (s : Store) (path hash : String) (bytes : Bytes) :
    Except IndexFailure (Store × FileOutcome) :=
  match Text.decode? bytes with
  | none => .error (.notText path)
  | some content =>
    let parsed := parse path content
    let language := (Language.ofPath path).name
    match s.putCode ⟨path, language, hash, bytes.length, parsed.tokens, .code⟩ parsed.symbols with
    | .error e => .error (.store e)
    | .ok (s, existed, diff) => .ok (s, ⟨path, .ofExisted existed, some diff⟩)

/-- Write a document with the given bytes; what is not text in it is replaced. -/
def writeDocument (x : Indexer) (s : Store) (path hash : String) (bytes : Bytes) :
    Except IndexFailure (Store × FileOutcome) :=
  let content := Text.decodeLossy bytes
  let language := Language.ofPath path
  let info : FileInfo := ⟨path, language.name, hash, bytes.length, estimateTokens content, .doc⟩
  match s.putDocument info (x.chunks language content) with
  | .error e => .error (.store e)
  | .ok (s, existed) => .ok (s, ⟨path, .ofExisted existed, none⟩)

/-- Index a file under a class. With `force` it is read even if it has not changed. -/
def index (x : Indexer) (d : Disk) (s : Store) (c : FileClass) (path : String) (force : Bool) :
    Except IndexFailure (Store × FileOutcome) := do
  let bytes ← x.read d path
  let hash := Digest.ofBytes bytes
  if !force && isCurrent s path hash then return (s, ⟨path, .skipped, none⟩)
  else
    match c with
    | .code => writeFile s path hash bytes
    | .doc => x.writeDocument s path hash bytes

end Indexer

end CodeIndex
