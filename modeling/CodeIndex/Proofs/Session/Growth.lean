import Mathlib
import CodeIndex.Proofs.Project.LastWrite
import CodeIndex.Proofs.Session.Crowd
import CodeIndex.Proofs.Session.Details
import CodeIndex.Proofs.Store.Names

/-!
# What an operation leaves of the memory of sessions

Rows of events and observations are put at the end of their tables, and nothing that can be done with a
store takes one away again. An event stays as it is; an observation stays as it is but for the mark that it
is stale, which it gets once and keeps, with the reason. A session stays, and all that changes about it is the
count of its tokens. The numbers of files are used again, so it matters that no row of a session carries one.

What is logged can be read back, but for what is logged as it was given: the result of a call that failed, and
the details of an event that somebody asks the store to log.

Main results, one for each way of writing a store:
  * `SessionWrites.recalls`, `Observer.onFileDiff_appends`, `Observer.onToolCall_logs` — what a session
    writes;
  * `SessionsKept.appends` — what indexing writes, since nothing of a session is touched;
  * `Request.does_recall`, `Request.does_logLegibly` — what a request writes;
  * `World.turn_grows` — what the operations of a project write.
-/

namespace CodeIndex

/-! ## §1. Rows that stay. -/

/-- Each of some rows is still at its place, as it was or as it may have become. -/
def Stays {α : Type} (becomes : α → α → Prop) (old new : List α) : Prop :=
  ∀ (i : Nat) a, old[i]? = some a → ∃ b, new[i]? = some b ∧ becomes a b

namespace Stays

variable {α : Type} {becomes : α → α → Prop} {old mid new : List α}

theorem trans (htrans : ∀ a b c, becomes a b → becomes b c → becomes a c) (first : Stays becomes old mid)
    (second : Stays becomes mid new) : Stays becomes old new := by
  intro i a ha
  obtain ⟨b, hb, hab⟩ := first i a ha
  obtain ⟨c, hc, hbc⟩ := second i b hb
  exact ⟨c, hc, htrans a b c hab hbc⟩

theorem of_extended (hrefl : ∀ a, becomes a a) (h : old <+: new) : Stays becomes old new := by
  intro i a ha
  obtain ⟨more, rfl⟩ := h
  obtain ⟨hi, -⟩ := List.getElem?_eq_some_iff.mp ha
  exact ⟨a, by rw [List.getElem?_append_left hi, ha], hrefl a⟩

theorem of_map {change : α → α} (h : ∀ a, becomes a (change a)) : Stays becomes old (old.map change) := by
  intro i a ha
  exact ⟨change a, by rw [List.getElem?_map, ha, Option.map_some], h a⟩

end Stays

/-- What may become of the row of a session: tokens are counted. -/
structure SessionRow.Continues (old new : SessionRow) : Prop where
  id : new.id = old.id
  mode : new.mode = old.mode
  label : new.label = old.label

/-- What may become of the row of an observation. -/
inductive ObservationRow.Continues (old : ObservationRow) : ObservationRow → Prop where
  | same : old.Continues old
  /-- It gets stale, for a reason. One that is stale already does not. -/
  | marked (holds : old.stale = false) (reason : String) : old.Continues (old.marked reason)

theorem SessionRow.Continues.refl (row : SessionRow) : row.Continues row := ⟨rfl, rfl, rfl⟩

theorem SessionRow.Continues.trans (a b c : SessionRow) (first : a.Continues b) (second : b.Continues c) :
    a.Continues c :=
  ⟨second.id.trans first.id, second.mode.trans first.mode, second.label.trans first.label⟩

theorem ObservationRow.Continues.refl (row : ObservationRow) : row.Continues row := .same

theorem ObservationRow.Continues.id {old new : ObservationRow} (h : old.Continues new) :
    new.id = old.id := by
  cases h <;> rfl

theorem ObservationRow.Continues.trans (a b c : ObservationRow) (first : a.Continues b)
    (second : b.Continues c) : a.Continues c := by
  cases first with
  | same => exact second
  | marked holds reason =>
    cases second with
    | same => exact .marked holds reason
    -- what has been marked does not hold
    | marked again => exact absurd again.symm Bool.false_ne_true

namespace Store

/-- All that is remembered of sessions is still there. -/
structure Recalls (s s' : Store) : Prop where
  sessions : Stays SessionRow.Continues s.sessions s'.sessions
  events : s.events <+: s'.events
  observations : Stays ObservationRow.Continues s.observations s'.observations

/-- What was logged can be read back, as long as an unsigned 64 bit number counts the events of the log. -/
def LogsLegibly (s s' : Store) : Prop :=
  ∃ more, s'.events = s.events ++ more
    ∧ (s'.events.length < unsignedEnd → ∀ e ∈ more, e.event.ReadsBack)

/-- All is still there, not even the tokens of a session have been counted, and what was logged can be read
back. -/
structure Appends (s s' : Store) : Prop extends Recalls s s' where
  rows : s.sessions <+: s'.sessions
  logs : LogsLegibly s s'

variable {s mid s' : Store}

theorem LogsLegibly.of_same (h : s'.events = s.events) : LogsLegibly s s' :=
  ⟨[], by rw [h, List.append_nil], by simp⟩

theorem LogsLegibly.refl (s : Store) : LogsLegibly s s := .of_same rfl

theorem LogsLegibly.trans (first : LogsLegibly s mid) (second : LogsLegibly mid s') :
    LogsLegibly s s' := by
  obtain ⟨more, hmore, hreads⟩ := first
  obtain ⟨most, hmost, hreads'⟩ := second
  refine ⟨more ++ most, by rw [hmost, hmore, List.append_assoc], fun hcount e he => ?_⟩
  -- the log had no more events on the way
  have hlength : mid.events.length ≤ s'.events.length := by
    rw [hmost, List.length_append]
    exact Nat.le_add_right _ _
  rcases List.mem_append.mp he with he | he
  · exact hreads (lt_of_le_of_lt hlength hcount) e he
  · exact hreads' hcount e he

theorem Recalls.refl (s : Store) : Recalls s s where
  sessions := .of_extended .refl (List.prefix_refl _)
  events := List.prefix_refl _
  observations := .of_extended .refl (List.prefix_refl _)

theorem Recalls.trans (first : Recalls s mid) (second : Recalls mid s') : Recalls s s' where
  sessions := first.sessions.trans SessionRow.Continues.trans second.sessions
  events := first.events.trans second.events
  observations := first.observations.trans ObservationRow.Continues.trans second.observations

theorem Appends.refl (s : Store) : Appends s s := ⟨.refl s, List.prefix_refl _, .refl s⟩

theorem Appends.trans (first : Appends s mid) (second : Appends mid s') : Appends s s' :=
  ⟨first.toRecalls.trans second.toRecalls, first.rows.trans second.rows, first.logs.trans second.logs⟩

/-- What touches nothing of a session leaves all of it there. -/
theorem SessionsKept.appends (h : SessionsKept s s') : Appends s s' := by
  obtain ⟨hsessions, hevents, hobservations⟩ := h
  refine ⟨⟨.of_extended .refl ?_, ?_, .of_extended .refl ?_⟩, ?_, .of_same hevents⟩
  · rw [hsessions]
  · rw [hevents]
  · rw [hobservations]
  · rw [hsessions]

theorem Recalls.hasSession (h : Recalls s s') {id : String} (hid : s.hasSession id = true) :
    s'.hasSession id = true := by
  obtain ⟨row, hrow, hrowid⟩ := List.any_eq_true.mp hid
  obtain ⟨i, hi⟩ := List.mem_iff_getElem?.mp hrow
  obtain ⟨row', hrow', hcontinues⟩ := h.sessions i row hi
  exact List.any_eq_true.mpr ⟨row', List.mem_of_getElem? hrow', by rw [hcontinues.id]; exact hrowid⟩

theorem insertEvent_events {session : String} {event : NewEvent} {time : Time} {i : RowId}
    (h : s.insertEvent session event time = .ok (s', i)) :
    s'.events = s.events ++ [⟨i, session, event, time⟩] := by
  unfold insertEvent at h
  split at h
  · cases h; rfl
  · cases h

theorem insertObservation_events {session : String} {observation : NewObservation} {time : Time} {i : RowId}
    (h : s.insertObservation session observation time = .ok (s', i)) : s'.events = s.events := by
  unfold insertObservation at h
  split at h
  · cases h; rfl
  · cases h

theorem insertEvent_logs {session : String} {event : NewEvent} {time : Time} {i : RowId}
    (h : s.insertEvent session event time = .ok (s', i))
    (hreads : s.events.length < unsignedEnd → event.ReadsBack) : LogsLegibly s s' := by
  refine ⟨_, insertEvent_events h, fun hcount e he => ?_⟩
  obtain rfl := List.mem_singleton.mp he
  rw [insertEvent_events h, List.length_append] at hcount
  exact hreads (by omega)

theorem insertEvent_recalls {session : String} {event : NewEvent} {time : Time} {i : RowId}
    (h : s.insertEvent session event time = .ok (s', i)) : Recalls s s' := by
  have hsessions := Request.insertEvent_sessions h
  have hobservations := insertEvent_observations h
  refine ⟨.of_extended .refl ?_, ?_, .of_extended .refl ?_⟩
  · rw [hsessions]
  · rw [insertEvent_events h]
    exact List.prefix_append _ _
  · rw [hobservations]

/-- Logging an event that is read back leaves the rows of sessions alone. -/
theorem insertEvent_appends {session : String} {event : NewEvent} {time : Time} {i : RowId}
    (h : s.insertEvent session event time = .ok (s', i))
    (hreads : s.events.length < unsignedEnd → event.ReadsBack) : Appends s s' := by
  refine ⟨insertEvent_recalls h, ?_, insertEvent_logs h hreads⟩
  rw [Request.insertEvent_sessions h]

/-- So does recording an observation. -/
theorem insertObservation_appends {session : String} {observation : NewObservation} {time : Time} {i : RowId}
    (h : s.insertObservation session observation time = .ok (s', i)) : Appends s s' := by
  have hsessions := Request.insertObservation_sessions h
  refine ⟨⟨.of_extended .refl ?_, ?_, .of_extended .refl ?_⟩, ?_, .of_same (insertObservation_events h)⟩
  · rw [hsessions]
  · rw [insertObservation_events h]
  · rw [insertObservation_observations h]
    exact List.prefix_append _ _
  · rw [hsessions]

/-- A mark is put on an observation that holds, so that a reason is not replaced. -/
theorem markStale_appends (s : Store) (file : String) (symbol : Option String) (reason : String) :
    Appends s (s.markStale file symbol reason).1 := by
  refine ⟨⟨.of_extended .refl (List.prefix_refl _), List.prefix_refl _, .of_map fun o => ?_⟩,
    List.prefix_refl _, .of_same rfl⟩
  split
  next hfresh =>
    have holds : o.stale = false := by
      unfold isFreshAbout at hfresh
      simp only [Bool.and_eq_true, Bool.not_eq_true'] at hfresh
      exact hfresh.2
    exact .marked holds reason
  next => exact .same

theorem createSession_appends (s : Store) (id : String) (mode : SessionMode) (label : Option String) :
    Appends s (s.createSession id mode label).1 :=
  ⟨⟨.of_extended .refl (List.prefix_append _ _), List.prefix_refl _,
    .of_extended .refl (List.prefix_refl _)⟩, List.prefix_append _ _, .of_same rfl⟩

theorem addTokens_recalls (s : Store) (id : String) (tokens : Nat) : Recalls s (s.addTokens id tokens) := by
  refine ⟨.of_map fun row => ?_, List.prefix_refl _, .of_extended .refl (List.prefix_refl _)⟩
  split
  · exact ⟨rfl, rfl, rfl⟩
  · exact .refl row

end Store

open Store (Recalls Appends LogsLegibly)

/-! ## §2. What a session writes. -/

theorem SessionWrites.recalls {session : String} {s s' : Store} (h : SessionWrites session s s') :
    Recalls s s' := by
  induction h with
  | none s => exact .refl s
  | create s mode label => exact (Store.createSession_appends s _ mode label).toRecalls
  | tokens s n => exact Store.addTokens_recalls s _ n
  | event logged => exact Store.insertEvent_recalls logged
  | observation recorded => exact (Store.insertObservation_appends recorded).toRecalls
  | stale s file symbol reason => exact (Store.markStale_appends s file symbol reason).toRecalls
  | trans _ _ ih₁ ih₂ => exact ih₁.trans ih₂

theorem CheckOutcome.appends {s s' : Store} {session : String} {now : Time} {fired : Bool}
    (h : CheckOutcome s session now (.ok (s', fired))) : Appends s s' := by
  cases h with
  | quiet => exact .refl s
  | report logged recorded _ readsBack =>
    exact (Store.insertEvent_appends logged readsBack).trans (Store.insertObservation_appends recorded)
  | note recorded => exact Store.insertObservation_appends recorded

theorem CheckOutcome.afterCheck_appends {s : Store} {session : String} {now : Time}
    {result : Except CheckError (Store × Bool)} (h : CheckOutcome s session now result) :
    Appends s (Observer.afterCheck s result) := by
  cases result with
  | error e => exact .refl s
  | ok done => exact h.appends

/-- The failure of a call can be read back from what is logged of it. -/
def ToolCall.IsLegible (call : ToolCall) : Prop :=
  call.isError = true → ∃ read, Json.read? (Observer.errorDetails call).compact = some read

namespace Observer

theorem begin_appends (o : Observer) (s : Store) : Appends s (o.begin s).2 := by
  unfold begin
  split
  · exact .refl s
  · exact Store.createSession_appends s o.session o.mode o.label

/-- The last step of a change. -/
theorem checkDeadEnd_appends (o : Observer) (s : Store) (file : String) (c : SymbolChange) (now : Time) :
    Appends s (if c.kind = .removed then
      afterCheck s (checkDeadEnd false s o.session file c.symbol now) else s) := by
  split
  · exact (checkDeadEnd_outcome _ _ _ _ _ _).afterCheck_appends
  · exact .refl s

/-- A change is logged and observed without counting tokens. -/
theorem onChange_appends {o : Observer} {s s' : Store} {file : String} {c : SymbolChange} {now : Time}
    (h : o.onChange s file c now = .ok s') : Appends s s' := by
  unfold onChange at h
  simp only [bind, Except.bind] at h
  split at h
  next => cases h
  next logged hlogged =>
    -- the event is logged, then what does not hold any more is marked, then the rest is written
    refine (Store.insertEvent_appends (i := logged.2) hlogged
      fun _ => changeDetails_readsBack rfl).trans ?_
    have hmarked : Appends logged.1 (marked logged.1 file c) := by
      unfold marked
      split
      · exact Store.markStale_appends _ _ _ _
      · exact .refl _
    refine hmarked.trans ?_
    unfold marked
    generalize (if c.kind.invalidates then
      (logged.1.markStale file (some c.symbol) c.description).1 else logged.1) = mid at h ⊢
    split at h
    next =>
      cases hrecorded : mid.insertObservation o.session
          ⟨.change, some file, some c.symbol, c.description⟩ now with
      | error e => rw [hrecorded] at h; cases h
      | ok recorded =>
        rw [hrecorded] at h
        injection h with h
        rw [← h]
        exact (Store.insertObservation_appends (i := recorded.2) hrecorded).trans
          (checkDeadEnd_appends o recorded.1 file c now)
    next =>
      injection h with h
      rw [← h]
      exact checkDeadEnd_appends o mid file c now

theorem onChanges_appends (o : Observer) (file : String) (now : Time) (changes : List SymbolChange) :
    ∀ s : Store, Appends s (o.onChanges s file now changes).1 := by
  induction changes with
  | nil => intro s; exact .refl s
  | cons c rest ih =>
    intro s
    unfold onChanges
    split
    next mid hchange => exact (onChange_appends hchange).trans (ih mid)
    next => exact .refl s

/-- **Observing the changes of a file** counts no tokens. -/
theorem onFileDiff_appends (o : Observer) (s : Store) (diff : FileDiff) (now : Time) :
    Appends s (o.onFileDiff s diff now).store := by
  unfold onFileDiff
  split
  · exact .refl s
  · have hbegin := begin_appends o s
    simp only [begin_fst]
    refine hbegin.trans ?_
    generalize (o.begin s).2 = s
    have hchanges := onChanges_appends { o with begun := true } diff.path now diff.changes s
    -- what was written before a change that fails, or a check that does, stays
    split
    next s' e hres => rw [hres] at hchanges; exact hchanges
    next s' hres =>
      rw [hres] at hchanges
      refine hchanges.trans ?_
      have hout := checkThrash_outcome s' o.session now o.thresholds false diff.path
      simp only
      split
      next hok => rw [hok] at hout; exact hout.appends
      next => exact .refl s'
      next => exact .refl s'

/-- What a call logs can be read back, if its failure can. -/
theorem onToolCall_logs (o : Observer) (d : Disk) (s : Store) {call : ToolCall} (now : Time)
    (h : call.IsLegible) : LogsLegibly s (o.onToolCall d s call now).2 := by
  have hbegin := (begin_appends o s).logs
  unfold onToolCall
  simp only
  split
  next hfailed =>
    -- of all that a call logs, only its failure has details that are not flat
    unfold onError
    simp only [begin_fst]
    refine hbegin.trans ?_
    generalize (o.begin s).2 = s
    split
    next => exact .refl s
    next s' i logged =>
      refine (Store.insertEvent_logs logged fun _ => (NewEvent.readsBack_iff rfl).mpr (h hfailed)).trans ?_
      exact (checkToolErrors_outcome _ _ _ _ _ _ _).afterCheck_appends.logs
  next =>
    split
    · split
      · unfold onLookup
        simp only [begin_fst]
        refine hbegin.trans ?_
        generalize (o.begin s).2 = s
        split
        · split
          · split
            next s' i logged => exact Store.insertEvent_logs logged fun _ => toolDetails_readsBack rfl
            next => exact .refl s
          · exact .refl s
        · split
          next => exact .refl s
          next s' i logged =>
            have htokens : LogsLegibly s' (o.countTokens s' call) := .of_same rfl
            refine (Store.insertEvent_logs logged fun _ => toolDetails_readsBack rfl).trans
              (htokens.trans ?_)
            exact (checkRedundantAccess_outcome _ _ _ _ _ _ _ _).afterCheck_appends.logs
      · exact .refl s
    · split
      · unfold onSearch
        simp only [begin_fst]
        refine hbegin.trans ?_
        generalize (o.begin s).2 = s
        split
        · exact .of_same rfl
        · exact (checkFailedSearch_outcome _ _ _ _ _ _ _).afterCheck_appends.logs
      · exact .refl s
    · exact .refl s

end Observer

/-! ## §3. Requests. -/

namespace Request

/-- The requests that write what the index holds of files. -/
def isAboutFiles : Request → Bool
  | .upsertFile _ | .deleteFile _ | .replaceSymbols _ _ | .replaceChunks _ _ | .insertEdge _ _ _
  | .clearEdges _ | .replaceSnapshot _ _ | .computeDiff _ _ => true
  | _ => false

theorem insertSymbols_kept {id : RowId} (symbols : List Symbol) :
    ∀ {s s' : Store}, symbols.foldlM (fun (s : Store) symbol => s.insertSymbol id symbol) s = .ok s' →
      s.SessionsKept s' := by
  induction symbols with
  | nil => intro s s' hok; cases hok; exact .refl s
  | cons symbol rest ih =>
    intro s s' hok
    rw [List.foldlM_cons] at hok
    by_cases hfile : s.hasFile id = true
    · obtain ⟨row, -, -, hrow⟩ := Store.insertSymbol_of_file hfile symbol
      rw [hrow] at hok
      have hrest := ih (s := { s with symbols := s.symbols ++ [row] }) hok
      exact ⟨hrest.sessions, hrest.events, hrest.observations⟩
    · rw [show s.insertSymbol id symbol = .error .foreignKey from if_neg hfile] at hok
      cases hok

theorem insertChunks_kept (id : RowId) (chunks : List Chunk) :
    ∀ s : Store, s.SessionsKept (s.insertChunks id chunks).1 := by
  induction chunks with
  | nil => intro s; exact .refl s
  | cons chunk rest ih =>
    intro s
    unfold Store.insertChunks Store.insertChunk
    split
    next mid hok =>
      split at hok
      · cases hok
      · split at hok
        · cases hok
          have hrest := ih { s with chunks := s.chunks ++ [⟨nextId (s.chunks.map (·.id)), id, chunk⟩] }
          exact ⟨hrest.sessions, hrest.events, hrest.observations⟩
        · cases hok
    next => exact .refl s

theorem appends_attempted {α : Type} {s : Store} {result : Except StoreError α} {shown : α → Store × Json}
    (hok : ∀ a, result = .ok a → Appends s (shown a).1) :
    Appends s (attempted s (result.map shown)).1 := by
  cases result with
  | error e => exact .refl s
  | ok a => exact hok a rfl

theorem appends_checked {s : Store} {session : String} {now : Time}
    {result : Except CheckError (Store × Bool)} (h : CheckOutcome s session now result) :
    Appends s (checked s result).1 := by
  cases result with
  | error e => cases e <;> exact .refl s
  | ok done => exact h.appends

/-- What a request writes about files touches nothing of a session. -/
theorem appends_aboutFiles (t : Thresholds) (nested : Bool) (s : Store) {request : Request}
    (h : request.isAboutFiles = true) : Appends s (runSimple t nested s request).1 := by
  cases request with
  | upsertFile info =>
    show Appends s (s.upsertFile info).1
    rw [Store.upsertFile_frame]
    exact Store.SessionsKept.appends ⟨rfl, rfl, rfl⟩
  | deleteFile path =>
    show Appends s (s.deleteFile path)
    unfold Store.deleteFile
    split <;> exact Store.SessionsKept.appends ⟨rfl, rfl, rfl⟩
  | replaceSymbols id symbols =>
    refine appends_attempted fun s' hok => ?_
    have hkept := insertSymbols_kept symbols hok
    exact Store.SessionsKept.appends ⟨hkept.sessions, hkept.events, hkept.observations⟩
  | replaceChunks id chunks =>
    have hkept : s.SessionsKept (s.replaceChunks id chunks).1 := by
      have hinserted := insertChunks_kept id chunks
        { s with chunks := s.chunks.filter (·.fileId != id) }
      exact ⟨hinserted.sessions, hinserted.events, hinserted.observations⟩
    simp only [runSimple]
    -- the chunks before one that is refused stay
    split
    next s' hres => rw [hres] at hkept; exact hkept.appends
    next s' e hres => rw [hres] at hkept; exact hkept.appends
  | insertEdge fromId toId symbol =>
    refine appends_attempted fun r hok => ?_
    simp only [Store.insertEdge] at hok
    split at hok
    · cases hok; exact .refl s
    · split at hok
      · cases hok; exact Store.SessionsKept.appends ⟨rfl, rfl, rfl⟩
      · cases hok
  | clearEdges fromId => exact Store.SessionsKept.appends ⟨rfl, rfl, rfl⟩
  | replaceSnapshot path entries => exact Store.SessionsKept.appends ⟨rfl, rfl, rfl⟩
  | computeDiff path symbols =>
    show Appends s (s.computeDiff path symbols).1
    rw [Store.computeDiff_frame]
    exact Store.SessionsKept.appends ⟨rfl, rfl, rfl⟩
  | _ => exact absurd h (by simp [isAboutFiles])

/-- Whether a request writes what it is given into a session, whatever that is: an event, or tokens. -/
def isGiven : Request → Bool
  | .insertEvent _ _ _ => true
  | .addTokens _ _ => true
  | _ => false

theorem appends_runSimple (t : Thresholds) (nested : Bool) (s : Store) {request : Request}
    (h : request.isGiven = false) : Appends s (runSimple t nested s request).1 := by
  by_cases hfiles : request.isAboutFiles = true
  · exact appends_aboutFiles t nested s hfiles
  · cases request with
    | addTokens | insertEvent => exact absurd h (by simp [isGiven])
    | getSession session => exact appends_attempted fun _ _ => .refl s
    | listSessions limit => exact appends_attempted fun _ _ => .refl s
    | events session => exact appends_attempted fun _ _ => .refl s
    | insertObservation session observation time =>
      exact appends_attempted fun r hok => Store.insertObservation_appends (i := r.2) hok
    | markStale file symbol reason => exact Store.markStale_appends s file symbol reason
    | checkDeadEnd session file symbol now =>
      exact appends_checked (checkDeadEnd_outcome s session now nested file symbol)
    | checkThrash session file now =>
      exact appends_checked (checkThrash_outcome s session now t nested file)
    | checkRedundantAccess session file symbol count now =>
      exact appends_checked (checkRedundantAccess_outcome s session now t nested file symbol _)
    | checkFailedSearch session query count now =>
      exact appends_checked (checkFailedSearch_outcome s session now t nested query _)
    | checkToolErrors session tool file count now =>
      exact appends_checked (checkToolErrors_outcome s session now t tool file _)
    | upsertFile | deleteFile | replaceSymbols | replaceChunks | insertEdge | clearEdges | replaceSnapshot
    | computeDiff => exact absurd rfl hfiles
    -- everything else only asks
    | _ => exact .refl s

theorem recalls_runSimple (t : Thresholds) (nested : Bool) (s : Store) (request : Request) :
    Recalls s (runSimple t nested s request).1 := by
  cases hgiven : request.isGiven with
  | false => exact (appends_runSimple t nested s hgiven).toRecalls
  | true =>
    cases request with
    | addTokens session tokens => exact Store.addTokens_recalls s session tokens
    | insertEvent session event time =>
      show Recalls s (attempted s ((s.insertEvent session event time).map _)).1
      cases hlogged : s.insertEvent session event time with
      | error e => exact .refl s
      | ok r => exact Store.insertEvent_recalls (i := r.2) hlogged
    | _ => exact absurd hgiven (by simp [isGiven])

/-- **Every request leaves all that is remembered there.** -/
theorem does_recall (t : Thresholds) : Does t (fun _ => True) Recalls where
  nothing := .refl
  both := .trans
  create s id mode label := (Store.createSession_appends s id mode label).toRecalls
  simple nested s request _ _ := recalls_runSimple t nested s request
  body _ _ _ _ := trivial

mutual

/-- The events that a request logs as they are given can be read back. -/
def IsLegible : Request → Prop
  | .insertEvent _ event _ => event.ReadsBack
  | .transaction body _ => AreLegible body
  | _ => True

/-- Each of some requests is so. -/
def AreLegible : List Request → Prop
  | [] => True
  | request :: rest => request.IsLegible ∧ AreLegible rest

end

theorem isLegible_of_mem : ∀ {requests : List Request}, AreLegible requests →
    ∀ request ∈ requests, request.IsLegible
  | [], _ => by simp
  | _ :: _, h => List.forall_mem_cons.mpr ⟨h.1, isLegible_of_mem h.2⟩

theorem logs_runSimple (t : Thresholds) (nested : Bool) (s : Store) {request : Request}
    (h : request.IsLegible) : LogsLegibly s (runSimple t nested s request).1 := by
  cases hgiven : request.isGiven with
  | false => exact (appends_runSimple t nested s hgiven).logs
  | true =>
    cases request with
    | addTokens session tokens => exact .of_same rfl
    | insertEvent session event time =>
      show LogsLegibly s (attempted s ((s.insertEvent session event time).map _)).1
      cases hlogged : s.insertEvent session event time with
      | error e => exact .refl s
      | ok r => exact Store.insertEvent_logs (i := r.2) hlogged fun _ => h
    | _ => exact absurd hgiven (by simp [isGiven])

/-- **Requests whose own events can be read back** log nothing that cannot. -/
theorem does_logLegibly (t : Thresholds) : Does t IsLegible LogsLegibly where
  nothing := .refl
  both := .trans
  create _ _ _ _ := .of_same rfl
  simple nested s _ hlegible _ := logs_runSimple t nested s hlegible
  body _ hlegible := isLegible_of_mem hlegible

end Request

/-! ## §4. Indexing. -/

/-- A store is intact, and sessions have only been added to. -/
structure Store.Grows (s s' : Store) : Prop extends Store.Appends s s' where
  intact : s'.Intact

open Store (Grows)

theorem Store.Grows.refl {s : Store} (hs : s.Intact) : Grows s s := ⟨.refl s, hs⟩

theorem Store.Grows.trans {s mid s' : Store} (first : Grows s mid) (second : Grows mid s') : Grows s s' :=
  ⟨first.toAppends.trans second.toAppends, second.intact⟩

theorem Store.Rewrites.grows {s s' : Store} {path : String} (h : s.Rewrites s' path) : Grows s s' :=
  ⟨h.kept.appends, h.intact⟩

theorem Store.removeFile_grows {s s' : Store} (hs : s.Intact) {path : String} {diff : FileDiff}
    (h : s.removeFile path = some (s', diff)) : Grows s s' := by
  cases hrow : s.file? path with
  | none => rw [Store.removeFile_of_noRow hrow] at h; cases h
  | some row =>
    obtain ⟨after, diff', hremove, hrewrites, -⟩ := Store.removeFile_page hs hrow
    obtain ⟨rfl, -⟩ := Prod.mk.inj (Option.some.inj (h.symm.trans hremove))
    exact hrewrites.grows

namespace Indexer

variable {x : Indexer} {d : Disk} {s s' : Store}

theorem index_grows (hs : s.Intact) {c : FileClass} {path : String} {force : Bool} {o : FileOutcome}
    (h : x.index d s c path force = .ok (s', o)) : Grows s s' := by
  have houtcome := index_outcome x d hs c path force
  rw [h] at houtcome
  cases houtcome with
  | current => exact .refl hs
  | code _ _ _ rewrites => exact rewrites.grows
  | doc _ _ rewrites => exact rewrites.grows

/-- A pass has either done nothing, or indexed and removed files. -/
theorem indexAll_grows (hs : s.Intact) (x : Indexer) (d : Disk) (options : PassOptions) :
    Grows s (x.indexAll d s options).1 := by
  cases hselected : x.selected d options.additional with
  | error e =>
    unfold indexAll
    rw [hselected]
    exact .refl hs
  | ok files =>
    obtain ⟨after, report, hpass, hintact, hkept, -⟩ := indexAll_paths hs hselected
    rw [hpass]
    exact ⟨hkept.appends, hintact⟩

end Indexer

/-! ## §5. Projects. -/

namespace Project

/-- Observing changes only adds to sessions, also where the project breaks on the way. -/
theorem onFileDiffs_grows (diffs : List FileDiff) (now : Time) :
    ∀ {p : Project}, p.store.Intact → Grows p.store (p.onFileDiffs diffs now).store := by
  induction diffs with
  | nil => intro p hs; exact .refl hs
  | cons diff rest ih =>
    intro p hs
    have hfirst : Grows p.store (p.onFileDiff diff now).store := by
      unfold onFileDiff
      split
      · exact ⟨Observer.onFileDiff_appends p.observer p.store diff now,
          (Observer.onFileDiff_writes p.observer p.store diff now).intact hs⟩
      · exact .refl hs
    exact hfirst.trans (ih hfirst.intact)

variable {p : Project} (hs : p.store.Intact) (d : Disk) (now : Time)

include hs

omit hs in
/-- What is observed after the store has been written. -/
theorem onFileDiffs_grows_after {s : Store} (h : Grows p.store s) (diffs : List FileDiff) :
    Grows p.store ({ p with store := s }.onFileDiffs diffs now).store :=
  h.trans (onFileDiffs_grows diffs now (p := { p with store := s }) h.intact)

theorem index_grows (c : FileClass) (path : String) (force : Bool) :
    Grows p.store (p.index d c path force now).1.store := by
  unfold index
  split
  · exact .refl hs
  · split
    next => exact .refl hs
    next s o hindex =>
      rw [unlessCrashed_fst]
      exact onFileDiffs_grows_after now (Indexer.index_grows hs hindex) _

theorem removeFile_grows (path : String) : Grows p.store (p.removeFile path now).1.store := by
  unfold removeFile
  split
  · exact .refl hs
  · split
    next => exact .refl hs
    next s diff hremove =>
      rw [unlessCrashed_fst]
      exact onFileDiffs_grows_after now (Store.removeFile_grows hs hremove) [diff]

theorem indexAll_grows (options : PassOptions) : Grows p.store (p.indexAll d options now).1.store := by
  have hpass := Indexer.indexAll_grows hs p.indexer d options
  have houtcome := indexAll_outcome p d options now
  generalize p.indexAll d options now = result at houtcome
  cases houtcome with
  | broken => exact .refl hs
  | failed sound pass => rw [pass] at hpass; exact hpass
  | crashed sound pass => rw [pass] at hpass; exact onFileDiffs_grows_after now hpass _
  | passed sound pass => rw [pass] at hpass; exact onFileDiffs_grows_after now hpass _

theorem resolvePaths_grows (paths : List String) : Grows p.store (p.resolvePaths d paths).1.store := by
  cases hsound : p.isSound with
  | false =>
    rw [resolvePaths_broken d hsound]
    exact .refl hs
  | true =>
    obtain ⟨s, report, hresolve, hs', honly, -⟩ := resolvePaths_sound d hs hsound paths
    rw [hresolve]
    exact ⟨honly.sessionsKept.appends, hs'⟩

theorem onWatchEvent_grows (event : WatchEvent) : Grows p.store (p.onWatchEvent d event now).1.store := by
  have hwritten : Grows p.store (p.onFileWritten d event.path now).1.store := by
    cases hclass : p.indexer.filter.classify? (p.indexer.relative event.path) with
    | none =>
      rw [onFileWritten_unselected hclass]
      exact .refl hs
    | some c =>
      have hindex := index_grows hs d now c (p.indexer.relative event.path) false
      rcases onFileWritten_selected hclass d now with hresult | hresult
      · rw [hresult]
        exact hindex
      · rw [hresult]
        exact hindex.trans (resolvePaths_grows hindex.intact d _)
  unfold onWatchEvent
  cases event.kind with
  | removed => exact removeFile_grows hs now event.path
  | added => exact hwritten
  | changed => exact hwritten

/-- A project observes something. -/
def see (p : Project) (d : Disk) : Observer.Sight → Project
  | .call call now => p.onToolCall d call now
  | .changes diff now => p.onFileDiff diff now

omit hs in
/-- A project leaves its store to what its observer writes, or alone, if it is broken. -/
theorem see_store (p : Project) (d : Disk) (sight : Observer.Sight) :
    (p.see d sight).store = (p.observer.see d p.store sight).2 ∨ (p.see d sight).store = p.store := by
  cases sight with
  | call call now =>
    unfold Project.see Project.onToolCall
    simp only
    split
    · exact .inl rfl
    · exact .inr rfl
  | changes diff now =>
    unfold Project.see Project.onFileDiff
    simp only
    split
    · exact .inl rfl
    · exact .inr rfl

end Project

/-- **Whatever happens in a world**, sessions are only added to. -/
theorem World.turn_grows {w : World} (hs : w.project.store.Intact) (t : Turn) :
    Grows w.project.store (w.turn t).project.store := by
  cases t with
  | act a =>
    cases a with
    | edit disk => exact .refl hs
    | indexAll options now => exact Project.indexAll_grows hs w.disk now options
    | index c path force now => exact Project.index_grows hs w.disk now c path force
    | remove path now => exact Project.removeFile_grows hs now path
    | watch event now => exact Project.onWatchEvent_grows hs w.disk now event
    | startSession mode label session =>
      show Grows w.project.store (w.project.startSession mode label session).1.store
      unfold Project.startSession
      split <;> exact .refl hs
    | resolve => exact Project.resolvePaths_grows hs w.disk _
  | reopen config session =>
    unfold World.turn
    simp only
    split
    next p hopen =>
      rw [(Project.good_ofStore hs hopen).2]
      exact .refl hs
    next => exact .refl hs

end CodeIndex
