import Mathlib
import CodeIndex.Proofs.Store.Integrity

/-!
# Names of sessions do not matter

A store tells its sessions apart by their names, and asks nothing else of a name. So if every session
gets another name, no two of them the same, then every request does to the renamed store what it did to
the store, and its reply is the same but for the names in it. Row numbers, counts, orders and failures
are not touched by names at all.

The proof follows a run. Each table that carries names is mapped (`Store.rename`), each operation
commutes with that map, and so does each request (`runSimple_rename`, `run_renamed`) and each list of
requests (`runAll_renamed`). What may differ between two runs is therefore only how the sessions are
called that begin in them (`Renaming`).

Main results:
  * `run_renamed`, `runAll_renamed` — requests do the same under other names;
  * `fresh_runAll` — the names of sessions still to begin are not in use;
  * `renaming_postponed` — a state from which some names have been skipped is the same up to names.
-/

namespace CodeIndex

/-! ## §1. Other names. -/

/-- A session under another name. -/
def SessionRow.rename (π : String → String) (r : SessionRow) : SessionRow := { r with id := π r.id }

/-- A session as it is read, under another name. -/
def Session.rename (π : String → String) (r : Session) : Session := { r with id := π r.id }

/-- An event of a session under another name. -/
def EventRow.rename (π : String → String) (e : EventRow) : EventRow :=
  { e with sessionId := π e.sessionId }

/-- An observation of a session under another name. -/
def ObservationRow.rename (π : String → String) (o : ObservationRow) : ObservationRow :=
  { o with sessionId := π o.sessionId }

/-- What is done to rows does not change how they are sorted by their scores. -/
theorem Search.map_sorted {α : Type} (f : α → α) (score : α → Float) (rows : List α) :
    ((rows.map fun row => (f row, score row)).mergeSort fun a b => b.2 ≤ a.2).map (·.1)
      = ((rows.map fun row => (row, score row)).mergeSort fun a b => b.2 ≤ a.2).map fun a => f a.1 := by
  have hpairs : rows.map (fun row => (f row, score row))
      = (rows.map fun row => (row, score row)).map fun a => (f a.1, a.2) := by
    rw [List.map_map]
    rfl
  have hsorted : ((rows.map fun row => (row, score row)).map fun a => (f a.1, a.2)).mergeSort
        (fun a b => decide (b.2 ≤ a.2))
      = ((rows.map fun row => (row, score row)).mergeSort fun a b => decide (b.2 ≤ a.2)).map
        fun a => (f a.1, a.2) := by
    rw [List.map_mergeSort]
    intro a _ b _
    rfl
  rw [hpairs, hsorted, List.map_map]
  rfl

/-- Rows are ranked by their columns alone. -/
theorem Search.rank_map {α : Type} {columns : α → Search.Columns} {f : α → α}
    (hcolumns : ∀ row, columns (f row) = columns row) (expression : List Char) (rows : List α) :
    Search.rank columns expression (rows.map f) = (Search.rank columns expression rows).map f := by
  unfold rank
  split
  · rfl
  · rfl
  · -- counts, lengths and weights are told by the columns
    simp only [List.map_map, List.filter_map, List.length_map, Function.comp_def, hcolumns]
    exact Search.map_sorted f _ _

/-- Rows under other names are read as the rows are, where reading tells no names apart. -/
theorem mapM_rename {α β ε : Type} {read : α → Except ε β} {f : α → α} {g : β → β}
    (h : ∀ row, read (f row) = (read row).map g) :
    ∀ rows : List α, (rows.map f).mapM read = (rows.mapM read).map (List.map g)
  | [] => rfl
  | row :: rest => by
    rw [List.map_cons, List.mapM_cons, List.mapM_cons, h, mapM_rename h rest]
    cases read row with
    | error e => rfl
    | ok shown => cases rest.mapM read <;> rfl

namespace Store

/-- A store with other names for its sessions. -/
def rename (π : String → String) (s : Store) : Store :=
  { s with
    sessions := s.sessions.map (SessionRow.rename π)
    events := s.events.map (EventRow.rename π)
    observations := s.observations.map (ObservationRow.rename π) }

/-- Nothing changes where every name in use stays. -/
theorem rename_eq_self {π : String → String} {s : Store} (hsessions : ∀ r ∈ s.sessions, π r.id = r.id)
    (hevents : ∀ e ∈ s.events, π e.sessionId = e.sessionId)
    (hobservations : ∀ o ∈ s.observations, π o.sessionId = o.sessionId) : s.rename π = s := by
  have hrows : s.sessions.map (SessionRow.rename π) = s.sessions := by
    refine (List.map_congr_left fun r hr => ?_).trans (List.map_id _)
    unfold SessionRow.rename
    rw [hsessions r hr]
    rfl
  have hlog : s.events.map (EventRow.rename π) = s.events := by
    refine (List.map_congr_left fun e he => ?_).trans (List.map_id _)
    unfold EventRow.rename
    rw [hevents e he]
    rfl
  have hnotes : s.observations.map (ObservationRow.rename π) = s.observations := by
    refine (List.map_congr_left fun o ho => ?_).trans (List.map_id _)
    unfold ObservationRow.rename
    rw [hobservations o ho]
    rfl
  unfold rename
  rw [hrows, hlog, hnotes]

variable {π : String → String} {s : Store}

theorem takeLimit_map {α β : Type} (f : α → β) (limit : Nat) (rows : List α) :
    takeLimit limit (rows.map f) = (takeLimit limit rows).map f := by
  unfold takeLimit
  split
  · rw [List.map_take]
  · rfl

/-! ## §2. The index has no names. -/

theorem rename_upsertFile (info : FileInfo) :
    (s.rename π).upsertFile info = ((s.upsertFile info).1.rename π, (s.upsertFile info).2) := by
  have hid : (s.rename π).fileId? info.path = s.fileId? info.path := rfl
  unfold upsertFile
  rw [hid]
  cases s.fileId? info.path <;> rfl

theorem rename_deleteFile (path : String) :
    (s.rename π).deleteFile path = (s.deleteFile path).rename π := by
  have hid : (s.rename π).fileId? path = s.fileId? path := rfl
  unfold deleteFile
  rw [hid]
  cases s.fileId? path <;> rfl

theorem rename_insertSymbol (id : RowId) (symbol : Symbol) :
    (s.rename π).insertSymbol id symbol = (s.insertSymbol id symbol).map (rename π) := by
  have hfile : (s.rename π).hasFile id = s.hasFile id := rfl
  unfold insertSymbol
  rw [hfile]
  split <;> rfl

theorem rename_replaceSymbols (id : RowId) (symbols : List Symbol) :
    (s.rename π).replaceSymbols id symbols = (s.replaceSymbols id symbols).map (rename π) := by
  have hall : ∀ t : Store,
      symbols.foldlM (fun (s : Store) symbol => s.insertSymbol id symbol) (t.rename π)
        = (symbols.foldlM (fun (s : Store) symbol => s.insertSymbol id symbol) t).map (rename π) := by
    induction symbols with
    | nil => intro t; rfl
    | cons symbol rest ih =>
      intro t
      rw [List.foldlM_cons, List.foldlM_cons, rename_insertSymbol]
      cases t.insertSymbol id symbol with
      | error e => rfl
      | ok next => exact ih next
  exact hall { s with symbols := s.symbols.filter (·.fileId != id) }

theorem rename_insertChunk (id : RowId) (chunk : Chunk) :
    (s.rename π).insertChunk id chunk = (s.insertChunk id chunk).map (rename π) := by
  have hchunks : (s.rename π).chunks = s.chunks := rfl
  have hfile : (s.rename π).hasFile id = s.hasFile id := rfl
  unfold insertChunk
  rw [hchunks, hfile]
  split
  · rfl
  · split <;> rfl

theorem rename_replaceChunks (id : RowId) (chunks : List Chunk) :
    (s.rename π).replaceChunks id chunks
      = ((s.replaceChunks id chunks).1.rename π, (s.replaceChunks id chunks).2) := by
  have hall : ∀ t : Store, (t.rename π).insertChunks id chunks
      = ((t.insertChunks id chunks).1.rename π, (t.insertChunks id chunks).2) := by
    induction chunks with
    | nil => intro t; rfl
    | cons chunk rest ih =>
      intro t
      unfold insertChunks
      rw [rename_insertChunk]
      cases t.insertChunk id chunk with
      | error e => rfl
      | ok next => exact ih next
  exact hall { s with chunks := s.chunks.filter (·.fileId != id) }

theorem rename_insertEdge (fromId toId : RowId) (symbol : Option String) :
    (s.rename π).insertEdge fromId toId symbol
      = (s.insertEdge fromId toId symbol).map fun r => (r.1.rename π, r.2) := by
  have hedges : (s.rename π).edges = s.edges := rfl
  have hfile : ∀ id, (s.rename π).hasFile id = s.hasFile id := fun _ => rfl
  unfold insertEdge
  simp only [hedges, hfile]
  split
  · rfl
  · split <;> rfl

theorem rename_computeDiff (path : String) (symbols : List Symbol) :
    (s.rename π).computeDiff path symbols
      = ((s.computeDiff path symbols).1.rename π, (s.computeDiff path symbols).2) := by
  have hsnapshot : (s.rename π).snapshot? path = s.snapshot? path := rfl
  unfold computeDiff
  rw [hsnapshot]
  cases s.snapshot? path <;> rfl

/-! ## §3. Sessions, events and observations. -/

theorem readEvent_rename (e : EventRow) :
    readEvent (e.rename π) = (readEvent e).map (EventRow.rename π) := by
  unfold readEvent EventRow.rename
  cases e.event.extra with
  | none => rfl
  | some details => cases hread : Json.read? details.compact <;> simp [hread, Except.map]

section Injective

variable (hπ : Function.Injective π)

include hπ

theorem beq_rename (a b : String) : (π a == π b) = (a == b) := by
  rw [Bool.eq_iff_iff, beq_iff_eq, beq_iff_eq]
  exact hπ.eq_iff

theorem rename_hasSession (session : String) :
    (s.rename π).hasSession (π session) = s.hasSession session := by
  show (s.sessions.map (SessionRow.rename π)).any (·.id == π session) = _
  rw [List.any_map]
  unfold hasSession
  congr 1
  funext r
  exact beq_rename hπ r.id session

theorem rename_eventsOf (session : String) :
    (s.rename π).eventsOf (π session) = (s.eventsOf session).map (EventRow.rename π) := by
  show (s.events.map (EventRow.rename π)).filter (·.sessionId == π session) = _
  rw [List.filter_map]
  unfold eventsOf
  congr 2
  funext e
  exact beq_rename hπ e.sessionId session

theorem rename_eventsFor (session : String) :
    (s.rename π).eventsFor (π session) = (s.eventsFor session).map (List.map (EventRow.rename π)) := by
  unfold eventsFor
  rw [rename_eventsOf hπ]
  exact mapM_rename readEvent_rename _

theorem rename_insertEvent (session : String) (event : NewEvent) (time : Time) :
    (s.rename π).insertEvent (π session) event time
      = (s.insertEvent session event time).map fun r => (r.1.rename π, r.2) := by
  have hids : (s.rename π).events.map (·.id) = s.events.map (·.id) := by
    show (s.events.map (EventRow.rename π)).map (·.id) = _
    rw [List.map_map]
    rfl
  unfold insertEvent
  rw [rename_hasSession hπ, hids]
  split
  · simp [Except.map, rename, EventRow.rename]
  · rfl

theorem rename_insertObservation (session : String) (observation : NewObservation) (time : Time) :
    (s.rename π).insertObservation (π session) observation time
      = (s.insertObservation session observation time).map fun r => (r.1.rename π, r.2) := by
  have hids : (s.rename π).observations.map (·.id) = s.observations.map (·.id) := by
    show (s.observations.map (ObservationRow.rename π)).map (·.id) = _
    rw [List.map_map]
    rfl
  unfold insertObservation
  rw [rename_hasSession hπ, hids]
  split
  · simp [Except.map, rename, ObservationRow.rename]
  · rfl

theorem rename_hasEvent (session : String) (type : EventType) (file symbol : Option String) :
    (s.rename π).hasEvent (π session) type file symbol = s.hasEvent session type file symbol := by
  unfold hasEvent
  rw [rename_eventsOf hπ, List.any_map]
  rfl

theorem rename_hasEventFor (session : String) (type : EventType) (query : String) :
    (s.rename π).hasEventFor (π session) type query = s.hasEventFor session type query := by
  unfold hasEventFor
  rw [rename_eventsOf hπ, List.any_map]
  rfl

theorem rename_countEventsSince (session : String) (types : List EventType) (file : String)
    (since : Time) :
    (s.rename π).countEventsSince (π session) types file since
      = s.countEventsSince session types file since := by
  unfold countEventsSince
  rw [rename_eventsOf hπ, List.filter_map, List.length_map]
  rfl

theorem rename_lastEventTime? (session : String) (type : EventType) (file : String) :
    (s.rename π).lastEventTime? (π session) type file = s.lastEventTime? session type file := by
  unfold lastEventTime?
  rw [rename_eventsOf hπ, List.filter_map, List.map_map]
  rfl

theorem rename_addTokens (session : String) (tokens : Nat) :
    (s.rename π).addTokens (π session) tokens = (s.addTokens session tokens).rename π := by
  unfold addTokens rename
  simp only [List.map_map]
  congr 1
  refine List.map_congr_left fun r _ => ?_
  show (if (π r.id == π session) then _ else _) = SessionRow.rename π (if (r.id == session) then _ else _)
  rw [beq_rename hπ]
  split <;> rfl

theorem rename_hasObservation (session : String) (type : ObservationType) (file : Option String)
    (text : String) :
    (s.rename π).hasObservation (π session) type file text = s.hasObservation session type file text := by
  show (s.observations.map (ObservationRow.rename π)).any _ = _
  rw [List.any_map]
  unfold hasObservation
  congr 1
  funext o
  show ((π o.sessionId == π session) && _ && _ && _) = _
  rw [beq_rename hπ]
  rfl

omit hπ in
theorem readSession_rename (r : SessionRow) :
    readSession (r.rename π) = (readSession r).map (Session.rename π) := by
  have hserved : (r.rename π).served = r.served := rfl
  unfold readSession
  rw [hserved]
  cases r.served.tokens <;> rfl

theorem rename_session (session : String) :
    (s.rename π).session (π session) = (s.session session).map (Option.map (Session.rename π)) := by
  have hfind : (s.rename π).sessions.find? (·.id == π session)
      = (s.sessions.find? (·.id == session)).map (SessionRow.rename π) := by
    show (s.sessions.map (SessionRow.rename π)).find? _ = _
    rw [List.find?_map]
    congr 2
    funext r
    exact beq_rename hπ r.id session
  unfold Store.session
  rw [hfind]
  cases s.sessions.find? (·.id == session) with
  | none => rfl
  | some r =>
    simp only [Option.map_some, readSession_rename]
    cases readSession r <;> rfl

theorem rename_listObservations (session : Option String) (includeStale : Bool) (limit : Nat) :
    (s.rename π).listObservations (session.map π) includeStale limit
      = (s.listObservations session includeStale limit).map (ObservationRow.rename π) := by
  have hrows : (s.rename π).observations.filter (fun o =>
        (session.map π).all (o.sessionId == ·) && (includeStale || !o.stale))
      = (s.observations.filter fun o =>
        session.all (o.sessionId == ·) && (includeStale || !o.stale)).map (ObservationRow.rename π) := by
    show (s.observations.map (ObservationRow.rename π)).filter _ = _
    rw [List.filter_map]
    congr 2
    funext o
    cases session with
    | none => rfl
    | some name =>
      show ((π o.sessionId == π name) && _) = ((o.sessionId == name) && _)
      rw [beq_rename hπ]
      rfl
  unfold listObservations
  simp only [hrows]
  -- neither the times nor the numbers that the rows are sorted by have changed
  rw [← takeLimit_map, List.map_mergeSort]
  intro a _ b _
  rfl

end Injective

theorem rename_listSessions (limit : Nat) :
    (s.rename π).listSessions limit = (s.listSessions limit).map (List.map (Session.rename π)) := by
  unfold listSessions
  show (takeLimit limit (s.sessions.map (SessionRow.rename π)).reverse).mapM readSession = _
  rw [← List.map_reverse, takeLimit_map]
  exact mapM_rename readSession_rename _

theorem rename_markStale (file : String) (symbol : Option String) (reason : String) :
    (s.rename π).markStale file symbol reason
      = ((s.markStale file symbol reason).1.rename π, (s.markStale file symbol reason).2) := by
  have hmarked : ∀ o : ObservationRow,
      (if isFreshAbout file symbol (o.rename π) then (o.rename π).marked reason else o.rename π)
      = ObservationRow.rename π (if isFreshAbout file symbol o then o.marked reason else o) := by
    intro o
    show (if isFreshAbout file symbol o then _ else _) = _
    split <;> rfl
  unfold markStale rename
  simp only [List.map_map, List.filter_map, List.length_map, Function.comp_def, hmarked]
  rfl

theorem rename_stats : (s.rename π).stats = s.stats := by
  have hstale : ((s.rename π).observations.filter (·.stale)).length
      = (s.observations.filter (·.stale)).length := by
    show ((s.observations.map (ObservationRow.rename π)).filter (·.stale)).length = _
    rw [List.filter_map, List.length_map]
    rfl
  unfold stats
  rw [hstale]
  simp only [rename, List.length_map]

theorem rename_searchObservations (query : String) (limit : Nat) :
    (s.rename π).searchObservations query limit
      = (s.searchObservations query limit).map (ObservationRow.rename π) := by
  have hcolumns : ∀ o : ObservationRow, observationColumns (o.rename π) = observationColumns o := by
    intro o
    unfold observationColumns
    rfl
  have hhits : hits observationColumns false query (s.observations.map (ObservationRow.rename π))
      = (hits observationColumns false query s.observations).map (ObservationRow.rename π) := by
    unfold hits
    cases Search.expression? false query.toList with
    | none => rfl
    | some expression => exact Search.rank_map hcolumns expression s.observations
  have hrows : (s.rename π).observations = s.observations.map (ObservationRow.rename π) := rfl
  unfold searchObservations
  rw [hrows, hhits, takeLimit_map]

/-! ## §4. Checks. -/

section Checks

variable (hπ : Function.Injective π) (session : String) (now : Time)

include hπ

theorem rename_emit (nested : Bool) (event : NewEvent) (observation : NewObservation) :
    emit nested (s.rename π) (π session) event observation now
      = (emit nested s session event observation now).map (rename π) := by
  unfold emit
  cases nested with
  | true => rfl
  | false =>
    rw [rename_insertEvent hπ]
    cases s.insertEvent session event now with
    | error e => rfl
    | ok logged =>
      simp only [Bool.false_eq_true, if_false, Except.map, rename_insertObservation hπ]
      cases logged.1.insertObservation session observation now <;> rfl

theorem rename_reported (nested : Bool) (event : NewEvent) (observation : NewObservation) :
    reported (emit nested (s.rename π) (π session) event observation now)
      = (reported (emit nested s session event observation now)).map fun r => (r.1.rename π, r.2) := by
  rw [rename_emit hπ]
  cases emit nested s session event observation now <;> rfl

theorem rename_checkDeadEnd (nested : Bool) (file symbol : String) :
    checkDeadEnd nested (s.rename π) (π session) file symbol now
      = (checkDeadEnd nested s session file symbol now).map fun r => (r.1.rename π, r.2) := by
  unfold checkDeadEnd
  simp only [rename_hasEvent hπ]
  split
  · rfl
  · exact rename_reported hπ session now nested _ _

theorem rename_checkThrash (t : Thresholds) (nested : Bool) (file : String) :
    checkThrash t nested (s.rename π) (π session) file now
      = (checkThrash t nested s session file now).map fun r => (r.1.rename π, r.2) := by
  unfold checkThrash
  cases windowStart t now with
  | error e => rfl
  | ok since =>
    simp only [bind, Except.bind, rename_countEventsSince hπ, rename_lastEventTime? hπ]
    split
    · rfl
    · exact rename_reported hπ session now nested _ _

theorem rename_checkRedundantAccess (t : Thresholds) (nested : Bool) (file : String)
    (symbol : Option String) (count : UInt32) :
    checkRedundantAccess t nested (s.rename π) (π session) file symbol count now
      = (checkRedundantAccess t nested s session file symbol count now).map
        fun r => (r.1.rename π, r.2) := by
  unfold checkRedundantAccess
  simp only [rename_hasEvent hπ]
  split
  · rfl
  · exact rename_reported hπ session now nested _ _

theorem rename_checkFailedSearch (t : Thresholds) (nested : Bool) (query : String) (attempts : UInt32) :
    checkFailedSearch t nested (s.rename π) (π session) query attempts now
      = (checkFailedSearch t nested s session query attempts now).map fun r => (r.1.rename π, r.2) := by
  unfold checkFailedSearch
  simp only [rename_hasEventFor hπ]
  split
  · rfl
  · exact rename_reported hπ session now nested _ _

theorem rename_checkToolErrors (t : Thresholds) (tool : String) (file : Option String) (count : UInt32) :
    checkToolErrors t (s.rename π) (π session) tool file count now
      = (checkToolErrors t s session tool file count now).map fun r => (r.1.rename π, r.2) := by
  rw [checkToolErrors_eq, checkToolErrors_eq, rename_hasObservation hπ]
  split
  · rfl
  · rw [rename_insertObservation hπ]
    cases s.insertObservation session _ now <;> rfl

end Checks

end Store

/-! ## §5. Requests. -/

mutual

/-- A request with other names for the sessions that it is about. -/
def Request.rename (π : String → String) : Request → Request
  | .getSession session => .getSession (π session)
  | .addTokens session tokens => .addTokens (π session) tokens
  | .insertEvent session event time => .insertEvent (π session) event time
  | .hasEvent session type file symbol => .hasEvent (π session) type file symbol
  | .hasEventFor session type query => .hasEventFor (π session) type query
  | .countEventsSince session types file since => .countEventsSince (π session) types file since
  | .lastEventTime session type file => .lastEventTime (π session) type file
  | .events session => .events (π session)
  | .insertObservation session observation time => .insertObservation (π session) observation time
  | .hasObservation session type file text => .hasObservation (π session) type file text
  | .listObservations session includeStale limit =>
    .listObservations (session.map π) includeStale limit
  | .checkDeadEnd session file symbol now => .checkDeadEnd (π session) file symbol now
  | .checkThrash session file now => .checkThrash (π session) file now
  | .checkRedundantAccess session file symbol count now =>
    .checkRedundantAccess (π session) file symbol count now
  | .checkFailedSearch session query count now => .checkFailedSearch (π session) query count now
  | .checkToolErrors session tool file count now => .checkToolErrors (π session) tool file count now
  | .transaction body giveUp => .transaction (Request.renameAll π body) giveUp
  | request => request

/-- Requests with other names. -/
def Request.renameAll (π : String → String) : List Request → List Request
  | [] => []
  | request :: rest => request.rename π :: Request.renameAll π rest

end

/-- Replies that are the same but for the names of sessions. -/
inductive Reply.Alike (π : String → String) : Reply → Reply → Prop where
  | same (reply : Reply) : Alike π reply reply
  | session (found : Session) : Alike π (.value found.toJson) (.value (found.rename π).toJson)
  | sessionIfAny (found : Option Session) :
      Alike π (.value (.opt Session.toJson found))
        (.value (.opt Session.toJson (found.map (Session.rename π))))
  | sessions (found : List Session) :
      Alike π (.value (.list Session.toJson found))
        (.value (.list Session.toJson (found.map (Session.rename π))))
  | events (found : List EventRow) :
      Alike π (.value (.list (·.toJson Request.showTime) found))
        (.value (.list (·.toJson Request.showTime) (found.map (EventRow.rename π))))
  | observations (found : List ObservationRow) :
      Alike π (.value (.list (·.toJson Request.showTime) found))
        (.value (.list (·.toJson Request.showTime) (found.map (ObservationRow.rename π))))
  | list {replies replies' : List Reply} (each : List.Forall₂ (Alike π) replies replies') :
      Alike π (.list replies) (.list replies')

namespace Request

variable {π : String → String} {s : Store}

/-- What may differ between two outcomes is names. -/
def AlikeOutcomes (π : String → String) (x y : Store × Reply) : Prop :=
  y.1 = x.1.rename π ∧ Reply.Alike π x.2 y.2

theorem attempted_alike {α β : Type} {result : Except StoreError α} {result' : Except StoreError β}
    {shown : α → Store × Json} {shown' : β → Store × Json} (f : α → β) (hresult : result' = result.map f)
    (hshown : ∀ a, (shown' (f a)).1 = (shown a).1.rename π
      ∧ Reply.Alike π (.value (shown a).2) (.value (shown' (f a)).2)) :
    AlikeOutcomes π (attempted s (result.map shown)) (attempted (s.rename π) (result'.map shown')) := by
  subst hresult
  cases result with
  | error e => exact ⟨rfl, .same _⟩
  | ok a => exact hshown a

theorem checked_alike {result result' : Except CheckError (Store × Bool)}
    (hresult : result' = result.map fun r => (r.1.rename π, r.2)) :
    AlikeOutcomes π (checked s result) (checked (s.rename π) result') := by
  subst hresult
  cases result with
  | error e => cases e <;> exact ⟨rfl, .same _⟩
  | ok r => exact ⟨rfl, .same _⟩

/-- **A request does the same under other names**, if it begins no session and no transaction. -/
theorem runSimple_rename (hπ : Function.Injective π) (t : Thresholds) (nested : Bool) (s : Store)
    (request : Request) :
    AlikeOutcomes π (runSimple t nested s request)
      (runSimple t nested (s.rename π) (request.rename π)) := by
  cases request with
  | upsertFile info =>
    simp only [Request.rename, runSimple, Store.rename_upsertFile]
    exact ⟨rfl, .same _⟩
  | deleteFile path => exact ⟨Store.rename_deleteFile path, .same _⟩
  | replaceSymbols id symbols =>
    exact attempted_alike _ (Store.rename_replaceSymbols id symbols) fun _ => ⟨rfl, .same _⟩
  | replaceChunks id chunks =>
    simp only [Request.rename, runSimple, Store.rename_replaceChunks]
    obtain ⟨after, result⟩ := s.replaceChunks id chunks
    cases result <;> exact ⟨rfl, .same _⟩
  | insertEdge fromId toId symbol =>
    exact attempted_alike _ (Store.rename_insertEdge fromId toId symbol) fun _ => ⟨rfl, .same _⟩
  | computeDiff path symbols =>
    simp only [Request.rename, runSimple, Store.rename_computeDiff]
    exact ⟨rfl, .same _⟩
  | getSession session =>
    exact attempted_alike _ (Store.rename_session hπ session) fun found => ⟨rfl, .sessionIfAny found⟩
  | listSessions limit =>
    exact attempted_alike _ (Store.rename_listSessions limit) fun found => ⟨rfl, .sessions found⟩
  | addTokens session tokens => exact ⟨Store.rename_addTokens hπ session tokens, .same _⟩
  | insertEvent session event time =>
    exact attempted_alike _ (Store.rename_insertEvent hπ session event time) fun _ => ⟨rfl, .same _⟩
  | hasEvent session type file symbol =>
    simp only [Request.rename, runSimple, Store.rename_hasEvent hπ]
    exact ⟨rfl, .same _⟩
  | hasEventFor session type query =>
    simp only [Request.rename, runSimple, Store.rename_hasEventFor hπ]
    exact ⟨rfl, .same _⟩
  | countEventsSince session types file since =>
    simp only [Request.rename, runSimple, Store.rename_countEventsSince hπ]
    exact ⟨rfl, .same _⟩
  | lastEventTime session type file =>
    simp only [Request.rename, runSimple, Store.rename_lastEventTime? hπ]
    exact ⟨rfl, .same _⟩
  | events session =>
    exact attempted_alike _ (Store.rename_eventsFor hπ session) fun found => ⟨rfl, .events found⟩
  | insertObservation session observation time =>
    exact attempted_alike _ (Store.rename_insertObservation hπ session observation time)
      fun _ => ⟨rfl, .same _⟩
  | markStale file symbol reason =>
    simp only [Request.rename, runSimple, Store.rename_markStale]
    exact ⟨rfl, .same _⟩
  | hasObservation session type file text =>
    simp only [Request.rename, runSimple, Store.rename_hasObservation hπ]
    exact ⟨rfl, .same _⟩
  | listObservations session includeStale limit =>
    simp only [Request.rename, runSimple, Store.rename_listObservations hπ]
    exact ⟨rfl, .observations _⟩
  | searchObservations query limit =>
    simp only [Request.rename, runSimple, Store.rename_searchObservations]
    exact ⟨rfl, .observations _⟩
  | stats =>
    simp only [Request.rename, runSimple, Store.rename_stats]
    exact ⟨rfl, .same _⟩
  | checkDeadEnd session file symbol now =>
    exact checked_alike (Store.rename_checkDeadEnd hπ session now nested file symbol)
  | checkThrash session file now =>
    exact checked_alike (Store.rename_checkThrash hπ session now t nested file)
  | checkRedundantAccess session file symbol count now =>
    exact checked_alike (Store.rename_checkRedundantAccess hπ session now t nested file symbol _)
  | checkFailedSearch session query count now =>
    exact checked_alike (Store.rename_checkFailedSearch hπ session now t nested query _)
  | checkToolErrors session tool file count now =>
    exact checked_alike (Store.rename_checkToolErrors hπ session now t tool file _)
  -- everything else is about the index alone
  | _ => exact ⟨rfl, .same _⟩

/-! ## §6. Runs. -/

/-- One state is another with other names, those of the sessions that are still to begin included. -/
structure Renaming (π : String → String) (state after : Request.State) : Prop where
  /-- No two sessions get one name. -/
  injective : Function.Injective π
  store : after.store = state.store.rename π
  /-- The next session to begin in one state is called as the next one in the other, and so on. -/
  names : ∀ i, π (sessionName (state.sessions + i + 1)) = sessionName (after.sessions + i + 1)

theorem isSimple_rename (request : Request) : (request.rename π).isSimple = request.isSimple := by
  cases request <;> rfl

theorem run_simple_renamed {state after : Request.State} (h : Renaming π state after) (t : Thresholds)
    (nested : Bool) {request : Request} (hsimple : request.isSimple = true) :
    Renaming π (run t nested state request).1 (run t nested after (request.rename π)).1
      ∧ Reply.Alike π (run t nested state request).2 (run t nested after (request.rename π)).2 := by
  obtain ⟨hstore, hreply⟩ := runSimple_rename h.injective t nested state.store request
  rw [run_of_simple t nested state hsimple,
    run_of_simple t nested after ((isSimple_rename request).trans hsimple), h.store]
  exact ⟨⟨h.injective, hstore, h.names⟩, hreply⟩

mutual

/-- **A request does the same under other names**, inside a transaction or outside. -/
theorem run_renamed {state after : Request.State} (h : Renaming π state after) (t : Thresholds)
    (nested : Bool) (request : Request) :
    Renaming π (run t nested state request).1 (run t nested after (request.rename π)).1
      ∧ Reply.Alike π (run t nested state request).2 (run t nested after (request.rename π)).2 := by
  cases request with
  | createSession mode label =>
    have hname : π (sessionName (state.sessions + 1)) = sessionName (after.sessions + 1) := h.names 0
    have hreply := Reply.Alike.session (π := π) ⟨sessionName (state.sessions + 1), mode, label, 0⟩
    unfold Session.rename at hreply
    rw [hname] at hreply
    refine ⟨⟨h.injective, ?_, fun i => ?_⟩, hreply⟩
    · show (after.store.createSession (sessionName (after.sessions + 1)) mode label).1
        = (state.store.createSession (sessionName (state.sessions + 1)) mode label).1.rename π
      rw [h.store, ← hname]
      simp [Store.createSession, Store.rename, SessionRow.rename]
    · show π (sessionName (state.sessions + 1 + i + 1)) = sessionName (after.sessions + 1 + i + 1)
      rw [show state.sessions + 1 + i + 1 = state.sessions + (i + 1) + 1 by omega,
        show after.sessions + 1 + i + 1 = after.sessions + (i + 1) + 1 by omega]
      exact h.names (i + 1)
  | transaction body giveUp =>
    cases nested with
    | true =>
      rw [rename, run_transaction_nested, run_transaction_nested]
      exact ⟨h, .same _⟩
    | false =>
      have hbody := runAll_renamed h t true body
      cases giveUp with
      | true =>
        -- what was done is given up on both sides, but not the names that were given
        rw [rename, run_transaction_givenUp, run_transaction_givenUp]
        exact ⟨⟨h.injective, h.store, hbody.1.names⟩, .same _⟩
      | false =>
        rw [rename, run_transaction_committed, run_transaction_committed]
        exact ⟨hbody.1, .list hbody.2⟩
  | _ => exact run_simple_renamed h t nested rfl

/-- So do requests one after another. -/
theorem runAll_renamed {state after : Request.State} (h : Renaming π state after) (t : Thresholds)
    (nested : Bool) : ∀ requests : List Request,
      Renaming π (runAll t nested state requests).1 (runAll t nested after (renameAll π requests)).1
        ∧ List.Forall₂ (Reply.Alike π) (runAll t nested state requests).2
          (runAll t nested after (renameAll π requests)).2
  | [] => ⟨h, .nil⟩
  | request :: rest => by
    have hfirst := run_renamed h t nested request
    have hrest := runAll_renamed hfirst.1 t nested rest
    rw [renameAll, runAll_cons, runAll_cons]
    exact ⟨hrest.1, .cons hfirst.2 hrest.2⟩

end

/-! ## §7. Names that have been skipped. -/

/-- The rows of a state hang together, and no session is called as one that is still to begin. -/
structure State.Fresh (state : Request.State) : Prop where
  intact : state.store.Intact
  unused : ∀ r ∈ state.store.sessions, ∀ number, state.sessions < number → r.id ≠ sessionName number

theorem sessionName_injective : Function.Injective sessionName := by
  intro a b h
  have hdigits : toString a = toString b := (String.append_right_inj "S").mp h
  exact Nat.repr_inj.mp hdigits

/-- The sessions of a store have the names they had. -/
def SameNames (s s' : Store) : Prop := s'.sessions.map (·.id) = s.sessions.map (·.id)

theorem SameNames.of_eq {s s' : Store} (h : s'.sessions = s.sessions) : SameNames s s' := by
  unfold SameNames
  rw [h]

theorem sessions_attempted {α : Type} {s : Store} {result : Except StoreError α}
    {shown : α → Store × Json} (hok : ∀ a, result = .ok a → (shown a).1.sessions = s.sessions) :
    (attempted s (result.map shown)).1.sessions = s.sessions := by
  cases result with
  | error e => rfl
  | ok a => exact hok a rfl

theorem insertEvent_sessions {s s' : Store} {session : String} {event : NewEvent} {time : Time}
    {id : RowId} (hok : s.insertEvent session event time = .ok (s', id)) : s'.sessions = s.sessions := by
  unfold Store.insertEvent at hok
  split at hok
  · cases hok; rfl
  · cases hok

theorem insertObservation_sessions {s s' : Store} {session : String} {observation : NewObservation}
    {time : Time} {id : RowId} (hok : s.insertObservation session observation time = .ok (s', id)) :
    s'.sessions = s.sessions := by
  unfold Store.insertObservation at hok
  split at hok
  · cases hok; rfl
  · cases hok

theorem sessions_checked {s : Store} {session : String} {now : Time}
    {result : Except CheckError (Store × Bool)} (hout : CheckOutcome s session now result) :
    (checked s result).1.sessions = s.sessions := by
  cases hout with
  | quiet => rfl
  | failed e => cases e <;> rfl
  | report logged recorded => exact (insertObservation_sessions recorded).trans (insertEvent_sessions logged)
  | note recorded => exact insertObservation_sessions recorded

theorem insertSymbols_sessions {id : RowId} {symbols : List Symbol} :
    ∀ (s : Store) {s' : Store}, symbols.foldlM (fun (s : Store) symbol => s.insertSymbol id symbol) s = .ok s' →
      s'.sessions = s.sessions := by
  induction symbols with
  | nil => intro s s' hok; cases hok; rfl
  | cons symbol rest ih =>
    intro s s' hok
    rw [List.foldlM_cons] at hok
    by_cases hfile : s.hasFile id = true
    · obtain ⟨row, -, -, hrow⟩ := Store.insertSymbol_of_file hfile symbol
      rw [hrow] at hok
      exact ih { s with symbols := s.symbols ++ [row] } hok
    · rw [show s.insertSymbol id symbol = .error .foreignKey from if_neg hfile] at hok
      cases hok

theorem insertChunks_sessions {id : RowId} {chunks : List Chunk} :
    ∀ {s : Store}, (s.insertChunks id chunks).1.sessions = s.sessions := by
  induction chunks with
  | nil => intro s; rfl
  | cons chunk rest ih =>
    intro s
    unfold Store.insertChunks Store.insertChunk
    by_cases hrepeated : s.chunks.any fun c => c.fileId == id && c.chunk.index == chunk.index
    · simp only [hrepeated, if_true]
    · by_cases hfile : s.hasFile id
      · simp only [hrepeated, hfile, if_true]
        exact ih
      · simp only [hrepeated, hfile]
        rfl

/-- A request to count tokens. -/
def countsTokens : Request → Bool
  | .addTokens _ _ => true
  | _ => false

/-- No request but those that begin a session or count tokens changes a row of a session. -/
theorem sessions_runSimple (t : Thresholds) (nested : Bool) (s : Store) {request : Request}
    (h : request.countsTokens = false) : (runSimple t nested s request).1.sessions = s.sessions := by
  cases request with
  | upsertFile info =>
    show (s.upsertFile info).1.sessions = s.sessions
    rw [Store.upsertFile_frame]
  | deleteFile path =>
    show (s.deleteFile path).sessions = s.sessions
    unfold Store.deleteFile
    split <;> rfl
  | replaceSymbols id symbols =>
    exact sessions_attempted fun s' hok =>
      insertSymbols_sessions { s with symbols := s.symbols.filter (·.fileId != id) } hok
  | replaceChunks id chunks =>
    have hkept : (s.replaceChunks id chunks).1.sessions = s.sessions := insertChunks_sessions
    simp only [runSimple]
    split
    next s' hres => rw [hres] at hkept; exact hkept
    next s' e hres => rw [hres] at hkept; exact hkept
  | insertEdge fromId toId symbol =>
    refine sessions_attempted fun r hok => ?_
    simp only [Store.insertEdge] at hok
    split at hok
    · cases hok; rfl
    · split at hok
      · cases hok; rfl
      · cases hok
  | computeDiff path symbols =>
    show (s.computeDiff path symbols).1.sessions = s.sessions
    unfold Store.computeDiff
    cases s.snapshot? path <;> rfl
  | getSession session => exact sessions_attempted fun _ _ => rfl
  | listSessions limit => exact sessions_attempted fun _ _ => rfl
  | events session => exact sessions_attempted fun _ _ => rfl
  | addTokens session tokens => cases h
  | insertEvent session event time => exact sessions_attempted fun r hok => insertEvent_sessions hok
  | insertObservation session observation time =>
    exact sessions_attempted fun r hok => insertObservation_sessions hok
  | checkDeadEnd session file symbol now =>
    exact sessions_checked (checkDeadEnd_outcome s session now nested file symbol)
  | checkThrash session file now =>
    exact sessions_checked (checkThrash_outcome s session now t nested file)
  | checkRedundantAccess session file symbol count now =>
    exact sessions_checked (checkRedundantAccess_outcome s session now t nested file symbol _)
  | checkFailedSearch session query count now =>
    exact sessions_checked (checkFailedSearch_outcome s session now t nested query _)
  | checkToolErrors session tool file count now =>
    exact sessions_checked (checkToolErrors_outcome s session now t tool file _)
  -- everything else leaves the sessions as they are
  | _ => rfl

/-- No request but the one that begins a session gives a name or takes one away. -/
theorem sameNames_runSimple (t : Thresholds) (nested : Bool) (s : Store) (request : Request) :
    SameNames s (runSimple t nested s request).1 := by
  cases hcounts : request.countsTokens with
  | false => exact .of_eq (sessions_runSimple t nested s hcounts)
  | true =>
    cases request with
    | addTokens session tokens =>
      show (s.addTokens session tokens).sessions.map (·.id) = s.sessions.map (·.id)
      unfold Store.addTokens
      rw [List.map_map]
      refine List.map_congr_left fun r _ => ?_
      show (if r.id == session then { r with served := r.served.add (signed64 tokens) } else r).id = r.id
      split <;> rfl
    | _ => cases hcounts

namespace State.Fresh

/-- Nothing has begun in an empty store. -/
theorem empty : State.Fresh ⟨.empty, 0⟩ :=
  ⟨Store.intact_empty, by simp [Store.empty]⟩

theorem of_sameNames {state : Request.State} (h : state.Fresh) {s : Store} (hintact : s.Intact)
    (hnames : SameNames state.store s) : State.Fresh ⟨s, state.sessions⟩ := by
  refine ⟨hintact, fun r hr number hnumber => ?_⟩
  have hid : r.id ∈ state.store.sessions.map (·.id) := by
    rw [← hnames]
    exact List.mem_map_of_mem hr
  obtain ⟨old, hold, heq⟩ := List.mem_map.mp hid
  rw [← heq]
  exact h.unused old hold number hnumber

/-- More names may have been given than there are sessions. -/
theorem skip {state : Request.State} (h : state.Fresh) {number : Nat} (hle : state.sessions ≤ number) :
    State.Fresh ⟨state.store, number⟩ :=
  ⟨h.intact, fun r hr later hlater => h.unused r hr later (lt_of_le_of_lt hle hlater)⟩

theorem createSession {state : Request.State} (h : state.Fresh) (mode : SessionMode)
    (label : Option String) :
    State.Fresh ⟨(state.store.createSession (sessionName (state.sessions + 1)) mode label).1,
      state.sessions + 1⟩ := by
  refine ⟨h.intact.createSession _ mode label, fun r hr number hnumber => ?_⟩
  have hlater : state.sessions + 1 < number := hnumber
  rcases List.mem_append.mp hr with hr | hr
  · exact h.unused r hr number (by omega)
  · obtain rfl := List.mem_singleton.mp hr
    intro heq
    have := sessionName_injective heq
    omega

end State.Fresh

mutual

/-- Whatever is asked, no session is called as one that is still to begin, and no name is given
again. -/
theorem fresh_run (t : Thresholds) (nested : Bool) {state : Request.State} (h : state.Fresh)
    (request : Request) :
    (run t nested state request).1.Fresh ∧ state.sessions ≤ (run t nested state request).1.sessions := by
  cases request with
  | createSession mode label => exact ⟨h.createSession mode label, Nat.le_succ _⟩
  | transaction body giveUp =>
    cases nested with
    | true =>
      rw [run_transaction_nested]
      exact ⟨h, le_rfl⟩
    | false =>
      have hbody := fresh_runAll t true h body
      cases giveUp with
      | true =>
        -- the sessions are gone, but their names are not given again
        rw [run_transaction_givenUp]
        exact ⟨h.skip hbody.2, hbody.2⟩
      | false =>
        rw [run_transaction_committed]
        exact hbody
  | _ =>
    rw [run_of_simple t nested state rfl]
    exact ⟨h.of_sameNames (intact_runSimple t nested h.intact _) (sameNames_runSimple t nested _ _), le_rfl⟩

/-- So it is with requests one after another. -/
theorem fresh_runAll (t : Thresholds) (nested : Bool) {state : Request.State} (h : state.Fresh) :
    ∀ requests : List Request, (runAll t nested state requests).1.Fresh
      ∧ state.sessions ≤ (runAll t nested state requests).1.sessions
  | [] => ⟨h, le_rfl⟩
  | request :: rest => by
    have hfirst := fresh_run t nested h request
    have hrest := fresh_runAll t nested hfirst.1 rest
    rw [runAll_cons]
    exact ⟨hrest.1, hfirst.2.trans hrest.2⟩

end

/-- A name that a session still to begin may get. -/
def IsLater (state : Request.State) (name : String) : Prop :=
  ∃ number, state.sessions < number ∧ name = sessionName number

open Classical in
/-- Sessions still to begin get the names of those that begin so much later. -/
noncomputable def postponed (state : Request.State) (skipped : Nat) (name : String) : String :=
  if h : IsLater state name then sessionName (h.choose + skipped) else name

theorem postponed_of_not {state : Request.State} {name : String} (h : ¬ IsLater state name)
    (skipped : Nat) : postponed state skipped name = name := dif_neg h

theorem postponed_sessionName {state : Request.State} {number : Nat} (h : state.sessions < number)
    (skipped : Nat) : postponed state skipped (sessionName number) = sessionName (number + skipped) := by
  have hlater : IsLater state (sessionName number) := ⟨number, h, rfl⟩
  have hchoose : hlater.choose = number := (sessionName_injective hlater.choose_spec.2).symm
  unfold postponed
  rw [dif_pos hlater, hchoose]

theorem postponed_injective (state : Request.State) (skipped : Nat) :
    Function.Injective (postponed state skipped) := by
  -- a later name stays a later one, and any other name stays itself
  have hlater : ∀ {name}, IsLater state name → IsLater state (postponed state skipped name) := by
    rintro name ⟨number, hnumber, rfl⟩
    rw [postponed_sessionName hnumber]
    exact ⟨number + skipped, by omega, rfl⟩
  intro a b heq
  by_cases ha : IsLater state a
  · by_cases hb : IsLater state b
    · obtain ⟨m, hm, rfl⟩ := ha
      obtain ⟨n, hn, rfl⟩ := hb
      rw [postponed_sessionName hm, postponed_sessionName hn] at heq
      have := sessionName_injective heq
      rw [show m = n by omega]
    · have := hlater ha
      rw [heq, postponed_of_not hb] at this
      exact absurd this hb
  · by_cases hb : IsLater state b
    · have := hlater hb
      rw [← heq, postponed_of_not ha] at this
      exact absurd this ha
    · rwa [postponed_of_not ha, postponed_of_not hb] at heq

/-- **A state from which some names have been skipped is the same up to names**, and the names that
differ are those of sessions that have not begun. -/
theorem renaming_postponed {state : Request.State} (h : state.Fresh) (skipped : Nat) :
    Renaming (postponed state skipped) state ⟨state.store, state.sessions + skipped⟩ := by
  -- the rows name sessions that are there, and these have begun
  have hsession : ∀ {name}, state.store.hasSession name = true → postponed state skipped name = name := by
    intro name hname
    refine postponed_of_not ?_ skipped
    rintro ⟨number, hnumber, rfl⟩
    obtain ⟨r, hr, hid⟩ := List.any_eq_true.mp hname
    exact h.unused r hr number hnumber (beq_iff_eq.mp hid)
  refine ⟨postponed_injective state skipped, ?_, fun i => ?_⟩
  · refine (Store.rename_eq_self (fun r hr => ?_) (fun e he => ?_) fun o ho => ?_).symm
    · exact hsession (List.any_eq_true.mpr ⟨r, hr, beq_self_eq_true _⟩)
    · exact hsession (h.intact.events e he)
    · exact hsession (h.intact.observations o ho)
  · show _ = sessionName (state.sessions + skipped + i + 1)
    rw [postponed_sessionName (by omega)]
    congr 1
    omega

end Request

end CodeIndex
