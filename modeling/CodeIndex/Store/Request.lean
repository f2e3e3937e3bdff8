import CodeIndex.Session.Detector
import CodeIndex.Store.Diff
import CodeIndex.Store.Search

/-!
# Requests to a store

Everything a store can be asked, as data, so that a list of requests is a program whose runs can be
told. A request is put through a connection, in which a transaction may be open. A transaction is a list of
requests with an outcome: it begins, its requests are put, and it is committed or rolled back. A request
that fails inside a transaction is answered, and the transaction goes on; only a second transaction inside
it is refused.
-/

namespace CodeIndex

/-- What a store can be asked. -/
inductive Request where
  | upsertFile (info : FileInfo)
  | fileId (path : String)
  | getFile (path : String)
  | getFileHash (path : String)
  | deleteFile (path : String)
  | listFiles (fileClass : Option FileClass)
  | replaceSymbols (fileId : RowId) (symbols : List Symbol)
  | symbolsFor (path : String)
  | findSymbols (name : String)
  | searchSymbols (query : String) (limit : Nat)
  | replaceChunks (fileId : RowId) (chunks : List Chunk)
  | chunksFor (path : String)
  | searchChunks (query : String) (limit : Nat)
  | insertEdge (fromId toId : RowId) (symbol : Option String)
  | clearEdges (fromId : RowId)
  | dependenciesOf (path : String)
  | importedBy (path : String)
  | importPairs
  | loadSnapshot (path : String)
  | replaceSnapshot (path : String) (entries : List SnapshotEntry)
  | computeDiff (path : String) (symbols : List Symbol)
  | createSession (mode : SessionMode) (label : Option String)
  | getSession (session : String)
  | listSessions (limit : Nat)
  | addTokens (session : String) (tokens : Nat)
  | insertEvent (session : String) (event : NewEvent) (time : Time)
  | hasEvent (session : String) (type : EventType) (file symbol : Option String)
  | hasEventFor (session : String) (type : EventType) (query : String)
  | countEventsSince (session : String) (types : List EventType) (file : String) (since : Time)
  | lastEventTime (session : String) (type : EventType) (file : String)
  | events (session : String)
  | insertObservation (session : String) (observation : NewObservation) (time : Time)
  | markStale (file : String) (symbol : Option String) (reason : String)
  | hasObservation (session : String) (type : ObservationType) (file : Option String) (text : String)
  | listObservations (session : Option String) (includeStale : Bool) (limit : Nat)
  | searchObservations (query : String) (limit : Nat)
  | stats
  | checkDeadEnd (session file symbol : String) (now : Time)
  | checkThrash (session file : String) (now : Time)
  | checkRedundantAccess (session file : String) (symbol : Option String) (count : Nat) (now : Time)
  | checkFailedSearch (session query : String) (count : Nat) (now : Time)
  | checkToolErrors (session tool : String) (file : Option String) (count : Nat) (now : Time)
  | thresholds
  /-- A request that could not be read, with the complaint about it. -/
  | unreadable (complaint : String)
  /-- Requests that are kept together, or given up together. -/
  | transaction (body : List Request) (giveUp : Bool)

/-- The answer to a request. -/
inductive Reply where
  | value (v : Json)
  | failed (e : StoreError)
  /-- A window reaches past the times that can be told. -/
  | timeOverflow
  | unreadable (complaint : String)
  /-- The answers to the requests of a transaction. -/
  | list (replies : List Reply)

/-- A store that is asked, and how many sessions have been begun in it. A session takes its name from
that number, which a transaction that is given up does not take back. -/
structure Request.State where
  store : Store
  sessions : Nat

/-- A connection to a store. While a transaction is open, the store to go back to is kept. -/
structure Request.Connection extends Request.State where
  saved : Option Store

namespace Request.Connection

/-- Whether a transaction is open. -/
def isOpen (c : Connection) : Bool := c.saved.isSome

/-- Begin a transaction. -/
def begin (c : Connection) : Except StoreError Connection :=
  if c.isOpen then .error .nestedTransaction else .ok { c with saved := some c.store }

/-- Keep what was written since the transaction began, and end it. -/
def commit (c : Connection) : Except StoreError Connection :=
  if c.isOpen then .ok { c with saved := none } else .error .noTransaction

/-- Give up what was written since the transaction began, and end it. -/
def rollback (c : Connection) : Connection :=
  { c with store := c.saved.getD c.store, saved := none }

end Request.Connection

namespace Request

/-- The name of the session that is begun as the given one. -/
def sessionName (number : Nat) : String := "S" ++ toString number

/-- A request is done and there is nothing to say. -/
def done : Reply := .value .null

/-- A reply that gives a time in milliseconds. -/
def showTime (t : Time) : Json := .int t

/-- What a check comes to. -/
def checked (s : Store) : Except CheckError (Store × Bool) → Store × Reply
  | .ok (s, fired) => (s, .value (.bool fired))
  | .error (.store e) => (s, .failed e)
  | .error .timeOverflow => (s, .timeOverflow)

/-- What an operation that may be refused comes to. -/
def attempted (s : Store) (result : Except StoreError (Store × Json)) : Store × Reply :=
  match result with
  | .ok (s, v) => (s, .value v)
  | .error e => (s, .failed e)

/-- Run a request that begins no session and no transaction; the store and the reply. -/
def runSimple (t : Thresholds) (nested : Bool) (s : Store) : Request → Store × Reply
  | .upsertFile info =>
    let (s, id, existed) := s.upsertFile info
    (s, .value (.obj [("id", .int id), ("existed", .bool existed)]))
  | .fileId path => (s, .value (.opt .int (s.fileId? path)))
  | .getFile path => (s, .value (.opt FileRow.toJson (s.file? path)))
  | .getFileHash path => (s, .value (.opt (.str ·.hash) (s.file? path)))
  | .deleteFile path => (s.deleteFile path, .value (.bool (s.file? path).isSome))
  | .listFiles c => (s, .value (.list FileRow.toJson (s.listFiles c)))
  | .replaceSymbols id symbols => attempted s ((s.replaceSymbols id symbols).map (·, .null))
  | .symbolsFor path => (s, .value (.list SymbolRecord.toJson (s.symbolsFor path)))
  | .findSymbols name => (s, .value (.list SymbolRecord.toJson (s.findSymbols name)))
  | .searchSymbols query limit =>
    (s, .value (.list SymbolRecord.toJson (s.searchSymbols query limit)))
  | .replaceChunks id chunks =>
    match s.replaceChunks id chunks with
    | (s, .ok ()) => (s, done)
    | (s, .error e) => (s, .failed e)
  | .chunksFor path => (s, .value (.list Chunk.toJson (s.chunksFor path)))
  | .searchChunks query limit => (s, .value (.list ChunkRecord.toJson (s.searchChunks query limit)))
  | .insertEdge fromId toId symbol =>
    attempted s ((s.insertEdge fromId toId symbol).map fun (s, new) => (s, .bool new))
  | .clearEdges fromId =>
    let (s, n) := s.clearEdges fromId
    (s, .value (.nat n))
  | .dependenciesOf path => (s, .value (.list Edge.toJson (s.dependenciesOf path)))
  | .importedBy path => (s, .value (.list Edge.toJson (s.importedBy path)))
  | .importPairs => (s, .value (.list (fun (a, b) => .arr [.str a, .str b]) s.importPairs))
  | .loadSnapshot path => (s, .value (.opt (.list SnapshotEntry.toJson) (s.snapshot? path)))
  | .replaceSnapshot path entries => (s.replaceSnapshot path entries, done)
  | .computeDiff path symbols =>
    let (s, diff) := s.computeDiff path symbols
    (s, .value diff.toJson)
  | .getSession session => attempted s ((s.session session).map fun r => (s, .opt Session.toJson r))
  | .listSessions limit =>
    attempted s ((s.listSessions limit).map fun rs => (s, .list Session.toJson rs))
  | .addTokens session tokens => (s.addTokens session tokens, done)
  | .insertEvent session event time =>
    attempted s ((s.insertEvent session event time).map fun (s, id) => (s, .int id))
  | .hasEvent session type file symbol => (s, .value (.bool (s.hasEvent session type file symbol)))
  | .hasEventFor session type query => (s, .value (.bool (s.hasEventFor session type query)))
  | .countEventsSince session types file since =>
    (s, .value (.nat (s.countEventsSince session types file since)))
  | .lastEventTime session type file =>
    (s, .value (.opt showTime (s.lastEventTime? session type file)))
  | .events session =>
    attempted s ((s.eventsFor session).map fun es => (s, .list (·.toJson showTime) es))
  | .insertObservation session observation time =>
    attempted s ((s.insertObservation session observation time).map fun (s, id) => (s, .int id))
  | .markStale file symbol reason =>
    let (s, n) := s.markStale file symbol reason
    (s, .value (.nat n))
  | .hasObservation session type file text =>
    (s, .value (.bool (s.hasObservation session type file text)))
  | .listObservations session includeStale limit =>
    (s, .value (.list (·.toJson showTime) (s.listObservations session includeStale limit)))
  | .searchObservations query limit =>
    (s, .value (.list (·.toJson showTime) (s.searchObservations query limit)))
  | .stats => (s, .value s.stats)
  | .checkDeadEnd session file symbol now =>
    checked s (CodeIndex.checkDeadEnd nested s session file symbol now)
  | .checkThrash session file now => checked s (CodeIndex.checkThrash t nested s session file now)
  | .checkRedundantAccess session file symbol count now =>
    checked s (CodeIndex.checkRedundantAccess t nested s session file symbol count.toUInt32 now)
  | .checkFailedSearch session query count now =>
    checked s (CodeIndex.checkFailedSearch t nested s session query count.toUInt32 now)
  | .checkToolErrors session tool file count now =>
    checked s (CodeIndex.checkToolErrors t s session tool file count.toUInt32 now)
  | .thresholds => (s, .value t.toJson)
  | .unreadable complaint => (s, .unreadable complaint)
  | .createSession _ _ => (s, done)
  | .transaction _ _ => (s, done)

mutual

/-- Put a request through a connection. -/
def put (t : Thresholds) (c : Connection) : Request → Connection × Reply
  | .createSession mode label =>
    let (s, session) := c.store.createSession (sessionName (c.sessions + 1)) mode label
    ({ c with store := s, sessions := c.sessions + 1 }, .value session.toJson)
  | .transaction body giveUp =>
    match c.begin with
    | .error e => (c, .failed e)
    | .ok c =>
      let (c, replies) := putAll t c body
      if giveUp then (c.rollback, .failed .givenUp)
      else
        match c.commit with
        | .ok c => (c, .list replies)
        | .error e => (c, .failed e)
  | request =>
    let (s, reply) := runSimple t c.isOpen c.store request
    ({ c with store := s }, reply)

/-- Put requests through a connection, one after another. -/
def putAll (t : Thresholds) (c : Connection) : List Request → Connection × List Reply
  | [] => (c, [])
  | request :: rest =>
    let (c, reply) := put t c request
    let (c, replies) := putAll t c rest
    (c, reply :: replies)

end

/-- A connection to a store; `nested` says that a transaction has just begun in it. -/
def State.connect (state : State) (nested : Bool) : Connection :=
  { state with saved := if nested then some state.store else none }

/-- Run a request; `nested` says that a transaction is open. -/
def run (t : Thresholds) (nested : Bool) (state : State) (request : Request) : State × Reply :=
  let (c, reply) := put t (state.connect nested) request
  (c.toState, reply)

/-- Run requests one after another. -/
def runAll (t : Thresholds) (nested : Bool) (state : State) (requests : List Request) :
    State × List Reply :=
  let (c, replies) := putAll t (state.connect nested) requests
  (c.toState, replies)

end Request

end CodeIndex
