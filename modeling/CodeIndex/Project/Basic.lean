import CodeIndex.Disk.Write
import CodeIndex.Index.Pass
import CodeIndex.Layout
import CodeIndex.Resolve.Plan
import CodeIndex.Session.Observer
import CodeIndex.Store.Archive
import CodeIndex.Store.Foreign

/-!
# A project and its index

A project is opened with its index and an observer of one session. What indexing finds to have
changed is observed, so that the session knows of it.

The handling of a change can be cut short, when the window of the settings reaches past the times
that can be told. The project is broken from then on: whatever needs its store fails, and what is to
be observed is passed over.
-/

namespace CodeIndex

open Text (Bytes)

/-! ## §1. Failures. -/

/-- Why something cannot be done with a project. -/
inductive ProjectFailure where
  /-- The directory of the index cannot be made. -/
  | noDirectory (path : String)
  /-- The file of the index cannot be opened. -/
  | noIndex (path : String)
  /-- The file of the index holds something else. -/
  | notAnIndex
  /-- The file of the index holds a part of a database. -/
  | damagedIndex
  /-- The patterns of the settings are no globs. -/
  | globs (e : Glob.Fault)
  /-- A file cannot be indexed. -/
  | file (e : IndexFailure)
  /-- A pass fails as a whole. -/
  | pass (e : PassFailure)
  /-- The store refused. -/
  | store (e : StoreError)
  /-- The disk refused. -/
  | disk (e : DiskError)
  /-- There is no session to export. -/
  | noSession
  /-- The project is broken. -/
  | broken
  /-- The project broke. -/
  | crashed
  deriving DecidableEq, Repr

/-- The message about what cannot be done; there is none when the project breaks. -/
def ProjectFailure.message? : ProjectFailure → Option String
  | .noDirectory path => some ("failed to create " ++ path)
  | .noIndex path => some ("failed to open database at " ++ path)
  | .notAnIndex => some "file is not a database"
  | .damagedIndex => some "database disk image is malformed"
  | .globs e => some e.message
  | .file e => some e.message
  | .pass e => some e.message
  | .store e => some e.message
  | .disk e => some e.message
  | .noSession => some "no sessions recorded yet"
  | .broken => some "store lock poisoned by a panicked thread"
  | .crashed => none

/-! ## §2. Projects. -/

/-- Whether a project can be used. -/
inductive Condition where
  | sound
  /-- The project broke, in the middle of a pass or not. -/
  | broken (inPass : Bool)
  deriving DecidableEq, Repr

/-- A project with its index and the observer of its session. -/
structure Project where
  indexer : Indexer
  store : Store
  observer : Observer
  condition : Condition
  /-- Whether the index was made when the project was opened. -/
  isNew : Bool

namespace Project

/-- The root of the project. -/
def root (p : Project) : String := p.indexer.root

/-- The settings of the project. -/
def config (p : Project) : Config := p.indexer.config

/-- Where the project's data lives. -/
def layout (p : Project) : Layout := ⟨p.root, none⟩

/-- Whether the project can be used. -/
def isSound (p : Project) : Bool := p.condition = .sound

/-- A project over a store. `session` is the name that its first session is to have. -/
def ofStore (root : String) (config : Config) (session : String) (s : Store) :
    Except ProjectFailure Project :=
  match FileFilter.ofConfig config with
  | .error e => .error (.globs e)
  | .ok filter =>
    .ok ⟨⟨root, config, filter⟩, s, .new root config.thresholds .indexed none session, .sound,
      false⟩

/-- Observe another session from now on. -/
def startSession (p : Project) (mode : SessionMode) (label : Option String) (session : String) :
    Project × Except ProjectFailure Unit :=
  if p.isSound then
    ({ p with observer := .new p.root p.config.thresholds mode label session }, .ok ())
  else (p, .error .broken)

/-- Ask the store. -/
def ask (p : Project) (question : Store → α) : Except ProjectFailure α :=
  if p.isSound then .ok (question p.store) else .error .broken

/-- The session that is observed, once it has begun, as it was then. -/
def session (p : Project) : Except ProjectFailure (Option Session) :=
  if p.isSound then .ok p.observer.record? else .error .broken

/-! ## §3. On the disk. -/

/-- An index that has been opened. -/
structure OpenIndex where
  store : Store
  /-- Whether it was made then. -/
  isNew : Bool

/-- Make an index in a file. -/
def makeIndex (d : Disk) (l : Layout) : Disk × Except ProjectFailure OpenIndex :=
  match d.writeIndex l.indexFile Store.empty with
  | .ok d => (d, .ok ⟨Store.empty, true⟩)
  | .error _ => (d, .error (.noIndex l.indexFile))

/-- Open the index in a file. An index is made where there is no file, and in a file in which one may
be made. -/
def openIndex (d : Disk) (l : Layout) : Disk × Except ProjectFailure OpenIndex :=
  match d.makeDirectories l.dataDir with
  | ⟨d, .error _⟩ => (d, .error (.noDirectory l.dataDir))
  | ⟨d, .ok ()⟩ =>
    match d.entry l.indexFile with
    | .ok (.index s) => (d, .ok ⟨s, false⟩)
    | .ok (.file bytes) =>
      match Foreign.kindOf bytes with
      | .vacant => makeIndex d l
      | .damaged => (d, .error .damagedIndex)
      | .other => (d, .error .notAnIndex)
    | _ => makeIndex d l

/-- Open a project with the index that it has on the disk. -/
def openOn (d : Disk) (root : String) (config : Config) (session : String) :
    Disk × Except ProjectFailure Project :=
  match openIndex d ⟨root, none⟩ with
  | (d, .error e) => (d, .error e)
  | (d, .ok x) =>
    (d, (ofStore root config session x.store).map fun p => { p with isNew := x.isNew })

/-- Write the index to its file. If there is no such file any more, the index is lost with it; so is
one that others have written over, unless it is new: then all of it is written, whatever the file
holds. -/
def save (p : Project) (d : Disk) : Disk :=
  let written := (d.writeIndex p.layout.indexFile p.store).toOption.getD d
  match d.entry p.layout.indexFile with
  | .ok (.index _) => written
  | .ok (.file _) => if p.isNew then written else d
  | _ => d

/-! ## §4. Observing. -/

/-- Observe a call of a tool. -/
def onToolCall (p : Project) (d : Disk) (call : ToolCall) (now : Time) : Project :=
  if p.isSound then
    let (o, s) := p.observer.onToolCall d p.store call now
    { p with observer := o, store := s }
  else p

/-- Observe the changes of a file. -/
def onFileDiff (p : Project) (diff : FileDiff) (now : Time) : Project :=
  if p.isSound then
    let after := p.observer.onFileDiff p.store diff now
    { p with
      observer := after.observer
      store := after.store
      condition := if after.crashed then .broken false else .sound }
  else p

/-- Observe the changes of some files, one after another. -/
def onFileDiffs (p : Project) (diffs : List FileDiff) (now : Time) : Project :=
  diffs.foldl (fun p diff => p.onFileDiff diff now) p

/-- What is left of a result once its changes have been observed. -/
def unlessCrashed (p : Project) (result : α) : Project × Except ProjectFailure α :=
  if p.isSound then (p, .ok result) else (p, .error .crashed)

/-! ## §5. Indexing. -/

/-- Index a file under a class and observe its changes. -/
def index (p : Project) (d : Disk) (c : FileClass) (path : String) (force : Bool) (now : Time) :
    Project × Except ProjectFailure FileOutcome :=
  if !p.isSound then (p, .error .broken)
  else
    match p.indexer.index d p.store c (p.indexer.relative path) force with
    | .error e => (p, .error (.file e))
    | .ok (s, o) => ({ p with store := s }.onFileDiffs o.diff.toList now).unlessCrashed o

/-- Take a file's rows away and observe that its symbols are gone; the result says whether there were
any rows. -/
def removeFile (p : Project) (path : String) (now : Time) : Project × Except ProjectFailure Bool :=
  if !p.isSound then (p, .error .broken)
  else
    match p.store.removeFile (p.indexer.relative path) with
    | none => (p, .ok false)
    | some (s, diff) => ({ p with store := s }.onFileDiff diff now).unlessCrashed true

/-- Index the whole project and observe the changes. Files are looked for before the store is
needed. -/
def indexAll (p : Project) (d : Disk) (options : PassOptions) (now : Time) :
    Project × Except ProjectFailure PassReport :=
  match p.condition with
  | .broken true => (p, .error .broken)
  | .broken false =>
    match p.indexer.selected d options.additional with
    | .error e => (p, .error (.pass (.notEnumerable e)))
    | .ok _ => (p, .error .broken)
  | .sound =>
    match p.indexer.indexAll d p.store options with
    | (s, .error e) => ({ p with store := s }, .error (.pass e))
    | (s, .ok report) =>
      let p := { p with store := s }.onFileDiffs report.diffs now
      if p.isSound then (p, .ok report)
      else ({ p with condition := .broken true }, .error .crashed)

/-- Compare a file with its snapshot and take a new one. -/
def computeDiff (p : Project) (path : String) (symbols : List Symbol) :
    Project × Except ProjectFailure FileDiff :=
  if !p.isSound then (p, .error .broken)
  else
    let (s, diff) := p.store.computeDiff (p.indexer.relative path) symbols
    ({ p with store := s }, .ok diff)

/-! ## §6. Resolving. -/

/-- The source files that the index knows. -/
def codePaths (p : Project) : List String := (p.store.listFiles (some .code)).map (·.path)

/-- Resolve the imports of some files. -/
def resolvePaths (p : Project) (d : Disk) (paths : List String) :
    Project × Except ProjectFailure Resolve.Report :=
  if !p.isSound then (p, .error .broken)
  else
    let around : Resolve.Surroundings := ⟨p.root, d, p.codePaths⟩
    match (around.plan paths).apply p.store with
    | .error e => (p, .error (.store e))
    | .ok (s, report) => ({ p with store := s }, .ok report)

/-- Resolve the imports of all source files. -/
def resolve (p : Project) (d : Disk) : Project × Except ProjectFailure Resolve.Report :=
  p.resolvePaths d p.codePaths

/-- Resolve the imports of one file. -/
def resolveFile (p : Project) (d : Disk) (path : String) :
    Project × Except ProjectFailure Resolve.Report :=
  p.resolvePaths d [p.indexer.relative path]

/-! ## §7. Asking. -/

/-- The imports that a file makes. -/
def dependenciesOf (p : Project) (path : String) : Except ProjectFailure (List Edge) :=
  p.ask (·.dependenciesOf (p.indexer.relative path))

/-- The imports that are made of a file. -/
def importedBy (p : Project) (path : String) : Except ProjectFailure (List Edge) :=
  p.ask (·.importedBy (p.indexer.relative path))

/-- The symbols of a file. -/
def symbolsIn (p : Project) (path : String) : Except ProjectFailure (List SymbolRecord) :=
  p.ask (·.symbolsFor (p.indexer.relative path))

/-- The latest sessions, latest first. -/
def sessions (p : Project) (limit : Nat) : Except ProjectFailure (List Session) := do
  match ← p.ask (·.listSessions limit) with
  | .ok sessions => return sessions
  | .error e => throw (.store e)

/-- The events of a session, in the order they were logged. -/
def eventsFor (p : Project) (session : String) : Except ProjectFailure (List EventRow) := do
  match ← p.ask (·.eventsFor session) with
  | .ok events => return events
  | .error e => throw (.store e)

end Project

end CodeIndex
