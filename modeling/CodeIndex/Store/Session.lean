import CodeIndex.Store.Basic

/-!
# Sessions in the store

Sessions, the events they log and the observations they record. Events are only ever added.
Observations are added, and one that still holds may be marked as stale; it then keeps the reason.
-/

namespace CodeIndex

/-! ## §1. Tokens. -/

namespace Served

/-- The number of bits that a rounded sum keeps. -/
def precision : Nat := 53

/-- The nearest number with no more significant bits than a rounded sum keeps, to even where two are
as near. -/
def round (n : Int) : Int :=
  let m := n.natAbs
  let shift := Nat.log2 m + 1 - precision
  let unit := Nat.pow 2 shift
  let q := m / unit
  let r := m % unit
  let up := unit < 2 * r || (2 * r == unit && q % 2 == 1)
  let rounded : Nat := (if up then q + 1 else q) * unit
  if n < 0 then -(rounded : Int) else rounded

/-- A rounded sum, which counts as exact again where it is well inside the signed 64 bit numbers. -/
def ofRounded (n : Int) : Served :=
  if isSigned64 (n - 1) && isSigned64 (n + 1) then .exact n else .rounded n

/-- Add a signed 64 bit number. -/
def add (served : Served) (n : Int) : Served :=
  match served with
  | .exact sum =>
    if isSigned64 (sum + n) then .exact (sum + n)
    else ofRounded (round (round sum + round n))
  | .rounded sum => ofRounded (round (sum + round n))

/-- The sum as an unsigned 64 bit number. -/
def tokens : Served → Except StoreError Nat
  | .exact sum => .ok (unsigned64 sum)
  | .rounded _ => .error .roundedTokens

end Served

namespace Store

/-! ## §2. Sessions. -/

/-- A session as it is read. -/
def readSession (r : SessionRow) : Except StoreError Session := do
  return ⟨r.id, r.mode, r.label, ← r.served.tokens⟩

/-- Begin a session under a name. -/
def createSession (s : Store) (id : String) (mode : SessionMode) (label : Option String) :
    Store × Session :=
  ({ s with sessions := s.sessions ++ [⟨id, mode, label, .exact 0⟩] }, ⟨id, mode, label, 0⟩)

/-- Whether there is a session of a name. -/
def hasSession (s : Store) (id : String) : Bool := s.sessions.any (·.id == id)

/-- The session of a name. -/
def session (s : Store) (id : String) : Except StoreError (Option Session) :=
  match s.sessions.find? (·.id == id) with
  | some r => do return some (← readSession r)
  | none => .ok none

/-- The latest sessions, latest first. -/
def listSessions (s : Store) (limit : Nat) : Except StoreError (List Session) :=
  (takeLimit limit s.sessions.reverse).mapM readSession

/-- Count tokens that a session has been served. -/
def addTokens (s : Store) (id : String) (tokens : Nat) : Store :=
  { s with sessions := s.sessions.map fun r =>
      if r.id == id then { r with served := r.served.add (signed64 tokens) } else r }

/-! ## §3. Events. -/

/-- Log an event; the result has the number of its row. -/
def insertEvent (s : Store) (session : String) (event : NewEvent) (time : Time) :
    Except StoreError (Store × RowId) :=
  if s.hasSession session then
    let id := nextId (s.events.map (·.id))
    .ok ({ s with events := s.events ++ [⟨id, session, event, time⟩] }, id)
  else .error .foreignKey

/-- The rows of a session's events, in the order they were logged. -/
def eventsOf (s : Store) (session : String) : List EventRow :=
  s.events.filter (·.sessionId == session)

/-- An event as it is read: its details are read from their text, which fails where they nest too deep. -/
def readEvent (e : EventRow) : Except StoreError EventRow :=
  match e.event.extra with
  | none => .ok e
  | some details =>
    match Json.read? details.compact with
    | some read => .ok { e with event := { e.event with extra := some read } }
    | none => .error (.deepDetails ((Json.overflowColumn? false 0 1 details.compact).getD 0))

/-- The events of a session, in the order they were logged. One that cannot be read fails them all. -/
def eventsFor (s : Store) (session : String) : Except StoreError (List EventRow) :=
  (s.eventsOf session).mapM readEvent

/-- Whether a session has logged an event of a type about exactly this subject. -/
def hasEvent (s : Store) (session : String) (type : EventType) (file symbol : Option String) : Bool :=
  (s.eventsOf session).any fun e =>
    e.event.type == type && e.event.file == file && e.event.symbol == symbol

/-- The text of the query in an event's details: a text is itself, a list or an object is its
written form, and nothing else is a query. -/
def queryText? (extra : Json) : Option String :=
  match extra.member? "query" with
  | some (.str s) => some s
  | some (.arr items) => some (String.ofList (Json.arr items).compact)
  | some (.obj members) => some (String.ofList (Json.obj members).compact)
  | _ => none

/-- Whether a session has logged an event of a type for a query. -/
def hasEventFor (s : Store) (session : String) (type : EventType) (query : String) : Bool :=
  (s.eventsOf session).any fun e =>
    e.event.type == type && e.event.extra.bind queryText? == some query

/-- How many events of some types a session has logged about a file since a time. -/
def countEventsSince (s : Store) (session : String) (types : List EventType) (file : String)
    (since : Time) : Nat :=
  ((s.eventsOf session).filter fun e =>
    e.event.file == some file && since ≤ e.time && types.contains e.event.type).length

/-- The time of the last event of a type that a session has logged about a file. -/
def lastEventTime? (s : Store) (session : String) (type : EventType) (file : String) : Option Time :=
  (((s.eventsOf session).filter fun e =>
    e.event.type == type && e.event.file == some file).map (·.time)).max?

/-! ## §4. Observations. -/

/-- Record an observation; the result has the number of its row. -/
def insertObservation (s : Store) (session : String) (observation : NewObservation) (time : Time) :
    Except StoreError (Store × RowId) :=
  if s.hasSession session then
    let id := nextId (s.observations.map (·.id))
    .ok ({ s with observations := s.observations ++ [⟨id, session, observation, false, none, time⟩] }, id)
  else .error .foreignKey

/-- Whether an observation that still holds is about exactly this subject. -/
def isFreshAbout (file : String) (symbol : Option String) (o : ObservationRow) : Bool :=
  o.observation.file == some file && o.observation.symbol == symbol && !o.stale

/-- Mark what any session has observed about a subject and still holds as stale; the result has the
number of observations marked. -/
def markStale (s : Store) (file : String) (symbol : Option String) (reason : String) : Store × Nat :=
  ({ s with observations := s.observations.map fun o =>
      if isFreshAbout file symbol o then o.marked reason else o },
    (s.observations.filter (isFreshAbout file symbol)).length)

/-- Whether a session has recorded exactly this about a file. -/
def hasObservation (s : Store) (session : String) (type : ObservationType) (file : Option String)
    (text : String) : Bool :=
  s.observations.any fun o =>
    o.sessionId == session && o.observation.type == type && o.observation.file == file
      && o.observation.text == text

/-- Observations, latest first: those of a session or of all, without the stale ones or with them. -/
def listObservations (s : Store) (session : Option String) (includeStale : Bool) (limit : Nat) :
    List ObservationRow :=
  let rows := s.observations.filter fun o =>
    session.all (o.sessionId == ·) && (includeStale || !o.stale)
  takeLimit limit (rows.mergeSort fun a b => b.time < a.time || (a.time == b.time && b.id ≤ a.id))

/-! ## §5. Counts. -/

/-- How many rows of each kind there are, as a value. -/
def stats (s : Store) : Json :=
  .obj [("code_files", .nat (s.files.filter (·.fileClass == .code)).length),
    ("doc_files", .nat (s.files.filter (·.fileClass == .doc)).length),
    ("symbols", .nat s.symbols.length), ("dependencies", .nat s.edges.length),
    ("chunks", .nat s.chunks.length), ("sessions", .nat s.sessions.length),
    ("events", .nat s.events.length), ("observations", .nat s.observations.length),
    ("stale_observations", .nat (s.observations.filter (·.stale)).length)]

end Store

end CodeIndex
