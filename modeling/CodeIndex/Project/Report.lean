import CodeIndex.Graph
import CodeIndex.Project.Basic
import CodeIndex.Store.Search

/-!
# What a project tells

What is shown of an index: the surroundings of a file, what a search finds, how large and how central
things are, what has been observed, and the export of a session's events.
-/

namespace CodeIndex.Project

/-! ## §1. Files. -/

/-- A file, what it declares, and the imports from and to it, as a value. -/
def deps (p : Project) (path : String) : Except ProjectFailure Json := do
  let imports ← p.dependenciesOf path
  let importedBy ← p.importedBy path
  let symbols ← p.symbolsIn path
  return .obj [("path", .str path), ("symbols", .list (fun r => .str r.symbol.name) symbols),
    ("imports", .list Edge.toJson imports), ("imported_by", .list Edge.toJson importedBy)]

/-- The symbols, or the chunks of documents, that a query finds, as a value. -/
def search (p : Project) (query : String) (docs : Bool) (limit : Nat) :
    Except ProjectFailure Json := do
  let results ← if docs then
      (Json.list ChunkRecord.toJson) <$> p.ask (·.searchChunks query limit)
    else (Json.list SymbolRecord.toJson) <$> p.ask (·.searchSymbols query limit)
  return .obj [("query", .str query), ("results", results)]

/-! ## §2. The whole. -/

/-- The most central files with their ranks. -/
def centralFiles (p : Project) (limit : Nat) : Except ProjectFailure (List (String × Float)) :=
  p.ask fun s => (Graph.ofImports s.importPairs).ranked limit

/-- The number of sessions that a status shows. -/
def recentSessions : Nat := 5

/-- What a project comes to. -/
structure Status where
  root : String
  stats : Json
  central : List (String × Float)
  /-- The latest sessions, latest first. -/
  sessions : List Session

/-- What the project comes to, with the most central files. -/
def status (p : Project) (top : Nat) : Except ProjectFailure Status := do
  let stats ← p.ask (·.stats)
  let central ← p.centralFiles top
  return ⟨p.root, stats, central, ← p.sessions recentSessions⟩

/-- What a project comes to, as a value; `showRank` writes the member for a rank. -/
def Status.toJson (showRank : Float → String × Json) (s : Status) : Json :=
  .obj [("root", .str s.root), ("stats", s.stats),
    ("central_files", .list (fun (path, rank) => .obj [("path", .str path), showRank rank]) s.central),
    ("recent_sessions", .list Session.toJson s.sessions)]

/-- Index the project and resolve its imports; what came of both, as a value. -/
def indexAndResolve (p : Project) (d : Disk) (options : PassOptions) (now : Time) :
    Project × Except ProjectFailure Json :=
  match p.indexAll d options now with
  | (p, .error e) => (p, .error e)
  | (p, .ok report) =>
    let (p, resolved) := p.resolve d
    (p, resolved.map fun resolved =>
      .obj [("index", report.toJson), ("changed_files", .nat report.diffs.length),
        ("resolve", resolved.toJson)])

/-! ## §3. Sessions. -/

/-- Which observations are shown. -/
structure ObservationFilter where
  session : Option String
  includeStale : Bool
  /-- What to search for; all observations are listed where there is nothing. -/
  query : Option String
  limit : Nat

/-- The observations of a filter: the latest ones, or what a search finds. A search is limited before
the rest of the filter applies. -/
def observations (p : Project) (f : ObservationFilter) :
    Except ProjectFailure (List ObservationRow) :=
  match f.query with
  | none => p.ask (·.listObservations f.session f.includeStale f.limit)
  | some query => p.ask fun s =>
    (s.searchObservations query f.limit).filter fun o =>
      (f.includeStale || !o.stale) && f.session.all (o.sessionId == ·)

/-- A session's events in a file. -/
structure Export where
  path : String
  /-- The number of events added to the file. -/
  written : Nat
  deriving DecidableEq, Repr

/-- Add a session's events to its file, one to a line. -/
def exportEvents (p : Project) (d : Disk) (session : String) :
    Disk × Except ProjectFailure Export :=
  match p.eventsFor session with
  | .error e => (d, .error e)
  | .ok events =>
    let path := p.layout.exportFile session
    let w := d.appendLines path (events.map fun e => (e.toJson .int).compact)
    match w.result with
    | .error e => (w.disk, .error (.disk e))
    | .ok written => (w.disk, .ok ⟨path, written⟩)

/-- Export a session, or the latest one where none is named. -/
def exportSession (p : Project) (d : Disk) (session : Option String) :
    Disk × Except ProjectFailure Export :=
  match session with
  | some session => p.exportEvents d session
  | none =>
    match p.sessions 1 with
    | .error e => (d, .error e)
    | .ok [] => (d, .error .noSession)
    | .ok (latest :: _) => p.exportEvents d latest.id

end CodeIndex.Project
