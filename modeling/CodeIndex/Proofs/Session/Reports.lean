import Mathlib
import CodeIndex.Proofs.Session.OnceOnly

/-!
# What a moment adds

A check asks the store about its session only, so what it reports is told by what the session has
logged and observed before. A report is an event and an observation that say the same, and a check
makes one or none (§1). A call is counted as an access, a failed search or a failure, or it is not
counted (§2).

The standing of an observer is what it counts together with what its session has logged and observed.
`Lives` has every way in which a moment takes one standing to the next, with the counts, the entries
and the reports that it adds (§3). What each of them keeps is kept in a crowd, since the others write to
sessions of their own (§4).

Main results: `live_lives`, `Crowd.liveAll_standing`.
-/

namespace CodeIndex

/-! ## §1. Reports. -/

/-- An event and an observation that report a pattern. -/
structure PatternReport where
  event : NewEvent
  observation : NewObservation

namespace PatternReport

/-- A symbol came and went. -/
def deadEnd (file symbol : String) : PatternReport where
  event := ⟨.deadEnd, some file, some symbol, none⟩
  observation := ⟨.antiPattern, some file, some symbol, "\x60" ++ symbol ++ "\x60 in " ++ file
    ++ " was added and removed again in this session (dead end)"⟩

/-- There was much work on a file within the window. -/
def thrash (t : Thresholds) (file : String) (count : Nat) : PatternReport where
  event := ⟨.thrashDetected, some file, none, some (.obj [("events", .nat count)])⟩
  observation := ⟨.antiPattern, some file, none, file ++ " was changed or read " ++ toString count
    ++ " times within " ++ toString t.thrashWindow ++ " seconds (thrashing)"⟩

/-- A subject was accessed too often. -/
def redundantAccess (file : String) (symbol : Option String) (count : Nat) : PatternReport where
  event := ⟨.redundantAccess, some file, symbol, some (.obj [("count", .nat count)])⟩
  observation := ⟨.antiPattern, some file, symbol, subjectKey file symbol ++ " was accessed "
    ++ toString count ++ " times in this session (redundant access)"⟩

/-- A search came back empty too often. -/
def failedSearch (query : String) (attempts : Nat) : PatternReport where
  event := ⟨.failedSearch, none, none, some (.obj [("attempts", .nat attempts), ("query", .str query)])⟩
  observation := ⟨.antiPattern, none, none, "search for \"" ++ query ++ "\" returned no results "
    ++ toString attempts ++ " times"⟩

end PatternReport

/-- Texts with different ends are different. -/
theorem append_ne_of_not_suffix {a b x y : String} (hx : ¬x.toList <:+ y.toList)
    (hy : ¬y.toList <:+ x.toList) : a ++ x ≠ b ++ y := by
  intro heq
  have hlists : a.toList ++ x.toList = b.toList ++ y.toList := by
    rw [← String.toList_append, ← String.toList_append, heq]
  have hsuffix : y.toList <:+ a.toList ++ x.toList := hlists ▸ List.suffix_append _ _
  rcases List.suffix_or_suffix_of_suffix (List.suffix_append a.toList x.toList) hsuffix with h | h
  · exact hx h
  · exact hy h

/-- The two reports about a symbol say different things. -/
theorem PatternReport.redundantAccess_ne_deadEnd (path : String) (subject : Option String) (count : Nat)
    (file symbol : String) :
    (PatternReport.redundantAccess path subject count).observation
      ≠ (PatternReport.deadEnd file symbol).observation := by
  intro hsame
  exact append_ne_of_not_suffix (by decide) (by decide) (congrArg NewObservation.text hsame)

/-- The two reports about a file say different things. -/
theorem PatternReport.redundantAccess_ne_thrash (path : String) (subject : Option String) (count : Nat)
    (t : Thresholds) (file : String) (work : Nat) :
    (PatternReport.redundantAccess path subject count).observation
      ≠ (PatternReport.thrash t file work).observation := by
  intro hsame
  exact append_ne_of_not_suffix (by decide) (by decide) (congrArg NewObservation.text hsame)

/-- How much work on a file has been logged since a time. -/
def workSince (events : List (NewEvent × Time)) (file : String) (since : Time) : Nat :=
  events.countP fun e => e.1.file == some file && since ≤ e.2 && EventType.activity.contains e.1.type

/-- A report of thrashing on a file. -/
def ofThrash (file : String) (e : NewEvent × Time) : Bool :=
  e.1.type == .thrashDetected && e.1.file == some file

/-- The report when a symbol goes: it came before, and no dead end has been reported. -/
def deadEndReports (events : List (NewEvent × Time)) (file symbol : String) : List PatternReport :=
  if events.any (ofSubject .symbolAdded (some file) (some symbol))
      && !events.any (ofSubject .deadEnd (some file) (some symbol)) then [.deadEnd file symbol]
  else []

/-- The report after changes of a file: there was much work within the window, and a whole window has
passed since the last report. -/
def thrashReports (t : Thresholds) (events : List (NewEvent × Time)) (file : String) (now : Time) :
    List PatternReport :=
  match windowStart t now with
  | .error _ => []
  | .ok since =>
    if t.thrashEvents.toNat ≤ workSince events file since
        ∧ ∀ last, ((events.filter (ofThrash file)).map (·.2)).max? = some last →
          t.thrashWindow * 1000 ≤ now - last then
      [.thrash t file (workSince events file since)]
    else []

/-- The report of an access that is counted as the given one. -/
def redundantReports (t : Thresholds) (events : List (NewEvent × Time)) (file : String)
    (symbol : Option String) (count : UInt32) : List PatternReport :=
  if count = t.redundantAccess ∧ events.any (ofSubject .redundantAccess (some file) symbol) = false then
    [.redundantAccess file symbol count]
  else []

/-- The report of a failed search that is counted as the given one. -/
def failedSearchReports (t : Thresholds) (events : List (NewEvent × Time)) (query : String)
    (attempts : UInt32) : List PatternReport :=
  if attempts = t.failedSearch ∧ events.any (ofQuery query) = false then
    [.failedSearch query attempts]
  else []

/-- What is observed of a change: that of a symbol that was accessed is worth knowing. -/
def changeNotes (tally : Tally) (file : String) (c : SymbolChange) : List NewObservation :=
  if tally.wasAccessed file (some c.symbol) then [⟨.change, some file, some c.symbol, c.description⟩]
  else []

/-- What is observed when a failure of a tool is counted as the given one. -/
def failingNotes (t : Thresholds) (observations : List (NewObservation × Time)) (tool : String)
    (file : Option String) (count : UInt32) : List NewObservation :=
  if count = t.toolError ∧ observations.any (ofTool t tool file) = false then
    [⟨.environment, file, none, toolErrorText tool file count⟩]
  else []

theorem mem_deadEndReports {events : List (NewEvent × Time)} {file symbol : String} {r : PatternReport}
    (h : r ∈ deadEndReports events file symbol) : r = .deadEnd file symbol := by
  unfold deadEndReports at h
  split at h <;> simp_all

/-- Of a change nothing is reported but that it brings a symbol to a dead end. -/
theorem mem_changeReports {events : List (NewEvent × Time)} {file : String} {c : SymbolChange}
    {r : PatternReport} (h : r ∈ if c.kind = .removed then deadEndReports events file c.symbol else []) :
    c.kind = .removed ∧ r = .deadEnd file c.symbol := by
  split at h
  next hremoved => exact ⟨hremoved, mem_deadEndReports h⟩
  next => exact absurd h List.not_mem_nil

theorem mem_thrashReports {t : Thresholds} {events : List (NewEvent × Time)} {file : String}
    {now : Time} {r : PatternReport} (h : r ∈ thrashReports t events file now) :
    ∃ count, r = .thrash t file count := by
  unfold thrashReports at h
  split at h
  · simp at h
  · split at h <;> simp_all

theorem mem_redundantReports {t : Thresholds} {events : List (NewEvent × Time)} {file : String}
    {symbol : Option String} {count : UInt32} {r : PatternReport}
    (h : r ∈ redundantReports t events file symbol count) : r = .redundantAccess file symbol count := by
  unfold redundantReports at h
  split at h <;> simp_all

theorem mem_failedSearchReports {t : Thresholds} {events : List (NewEvent × Time)} {query : String}
    {attempts : UInt32} {r : PatternReport} (h : r ∈ failedSearchReports t events query attempts) :
    r = .failedSearch query t.failedSearch := by
  unfold failedSearchReports at h
  split at h <;> simp_all

/-- A report says something else than what is observed of a failure. -/
theorem failingNotes_ne {t : Thresholds} {observations : List (NewObservation × Time)} {tool : String}
    {file : Option String} {count : UInt32} {r : PatternReport} (hr : r.observation.type = .antiPattern) :
    ∀ o ∈ failingNotes t observations tool file count, o ≠ r.observation := by
  rintro o ho rfl
  have htype : r.observation.type = .environment := by
    unfold failingNotes at ho
    split at ho <;> simp_all
  rw [hr] at htype
  exact absurd htype (by decide)

theorem changeNotes_type {tally : Tally} {file : String} {c : SymbolChange} :
    ∀ o ∈ changeNotes tally file c, o.type = .change := by
  intro o ho
  unfold changeNotes at ho
  split at ho <;> simp_all

/-- A report says something else than what is observed of a change. -/
theorem changeNotes_ne {tally : Tally} {file : String} {c : SymbolChange} {r : PatternReport}
    (hr : r.observation.type = .antiPattern) : ∀ o ∈ changeNotes tally file c, o ≠ r.observation := by
  rintro o ho rfl
  exact absurd (hr.symm.trans (changeNotes_type _ ho)) (by decide)

/-- What is remembered once reports have been made. -/
def Memory.reported (m : Memory) (reports : List PatternReport) (now : Time) : Memory :=
  { m with
    events := m.events ++ reports.map fun r => (r.event, now)
    observations := m.observations ++ reports.map fun r => (r.observation, now) }

theorem Memory.reported_nil (m : Memory) (now : Time) : m.reported [] now = m := by
  simp [Memory.reported]

open Observer (afterCheck)

variable {s : Store} {session : String}

/-- A report is written if the session is there. -/
theorem emit_memory (h : s.hasSession session = true) (r : PatternReport) (now : Time) :
    (afterCheck s (reported (emit false s session r.event r.observation now))).memory session
      = (s.memory session).reported [r] now := by
  obtain ⟨mid, i, logged⟩ := Store.insertEvent_accepted h r.event now
  obtain ⟨last, j, recorded⟩ :=
    Store.insertObservation_accepted ((SessionWrites.event logged).hasSession h) r.observation now
  have hreported : reported (emit false s session r.event r.observation now) = .ok (last, true) := by
    simp [reported, emit, logged, recorded, Except.map]
  rw [hreported, afterCheck, Store.insertObservation_memory recorded, if_pos rfl,
    Store.insertEvent_memory logged, if_pos rfl]
  rfl

/-- A report is refused if the session is not there. -/
theorem emit_refused (h : s.hasSession session = false) (event : NewEvent) (observation : NewObservation)
    (now : Time) :
    afterCheck s (reported (emit false s session event observation now)) = s := by
  simp [reported, emit, Store.insertEvent_refused h, Except.map, afterCheck]

theorem hasEvent_ofSubject (type : EventType) (file symbol : Option String) :
    s.hasEvent session type file symbol = (s.memory session).events.any (ofSubject type file symbol) :=
  Store.hasEvent_memory type file symbol

/-- Once a symbol has gone, the check for dead ends reports what is to be reported. -/
theorem checkDeadEnd_memory (h : s.hasSession session = true) (file symbol : String) (now : Time)
    (hgone : (s.memory session).events.any (ofSubject .symbolRemoved (some file) (some symbol)) = true) :
    (afterCheck s (checkDeadEnd false s session file symbol now)).memory session
      = (s.memory session).reported (deadEndReports (s.memory session).events file symbol) now := by
  unfold checkDeadEnd deadEndReports
  simp only [hasEvent_ofSubject, hgone, Bool.not_true, Bool.or_false]
  cases (s.memory session).events.any (ofSubject .symbolAdded (some file) (some symbol)) with
  | false => exact (Memory.reported_nil _ _).symm
  | true =>
    cases (s.memory session).events.any (ofSubject .deadEnd (some file) (some symbol)) with
    | true => exact (Memory.reported_nil _ _).symm
    | false => exact emit_memory h (.deadEnd file symbol) now

theorem checkThrash_memory (t : Thresholds) (h : s.hasSession session = true) (file : String)
    (now : Time) :
    (afterCheck s (checkThrash t false s session file now)).memory session
      = (s.memory session).reported (thrashReports t (s.memory session).events file now) now := by
  unfold checkThrash thrashReports
  cases windowStart t now with
  | error e => exact (Memory.reported_nil _ _).symm
  | ok since =>
    have hcount : s.countEventsSince session EventType.activity file since
        = workSince (s.memory session).events file since := by
      rw [Store.countEventsSince_memory, workSince, List.countP_eq_length_filter]
    have hlast : s.lastEventTime? session .thrashDetected file
        = (((s.memory session).events.filter (ofThrash file)).map (·.2)).max? :=
      Store.lastEventTime?_memory .thrashDetected file
    simp only [bind, Except.bind, hcount, hlast, pure, Except.pure]
    generalize workSince (s.memory session).events file since = count
    generalize (((s.memory session).events.filter (ofThrash file)).map (·.2)).max? = latest
    -- the check asks when to stay quiet, the report when to be made
    have hguard : (decide (count < t.thrashEvents.toNat)
          || !latest.all fun last => decide (t.thrashWindow * 1000 ≤ now - last)) = false
        ↔ t.thrashEvents.toNat ≤ count ∧ ∀ last, latest = some last → t.thrashWindow * 1000 ≤ now - last := by
      cases latest <;> simp
    split
    next hquiet =>
      rw [if_neg (by rw [← hguard, hquiet]; simp), Memory.reported_nil]
      rfl
    next hloud =>
      rw [if_pos (hguard.mp (by simpa using hloud))]
      exact emit_memory h (.thrash t file count) now

theorem checkRedundantAccess_memory (t : Thresholds) (h : s.hasSession session = true) (file : String)
    (symbol : Option String) (count : UInt32) (now : Time) :
    (afterCheck s (checkRedundantAccess t false s session file symbol count now)).memory session
      = (s.memory session).reported
        (redundantReports t (s.memory session).events file symbol count) now := by
  unfold checkRedundantAccess redundantReports
  simp only [hasEvent_ofSubject]
  split
  next hquiet =>
    rw [if_neg (by simpa [or_iff_not_imp_left] using hquiet), Memory.reported_nil]
    rfl
  next hloud =>
    rw [if_pos (by simpa using hloud)]
    exact emit_memory h (.redundantAccess file symbol count) now

theorem checkFailedSearch_memory (t : Thresholds) (h : s.hasSession session = true) (query : String)
    (attempts : UInt32) (now : Time) :
    (afterCheck s (checkFailedSearch t false s session query attempts now)).memory session
      = (s.memory session).reported
        (failedSearchReports t (s.memory session).events query attempts) now := by
  have hevent : s.hasEventFor session .failedSearch query
      = (s.memory session).events.any (ofQuery query) := Store.hasEventFor_memory .failedSearch query
  unfold checkFailedSearch failedSearchReports
  simp only [hevent]
  split
  next hquiet =>
    rw [if_neg (by simpa [or_iff_not_imp_left] using hquiet), Memory.reported_nil]
    rfl
  next hloud =>
    rw [if_pos (by simpa using hloud)]
    exact emit_memory h (.failedSearch query attempts) now

/-- What a tool does that keeps failing is observed if the session is there. -/
theorem checkToolErrors_memory (t : Thresholds) (h : s.hasSession session = true) (tool : String)
    (file : Option String) (count : UInt32) (now : Time) :
    (afterCheck s (checkToolErrors t s session tool file count now)).memory session
      = { s.memory session with observations := (s.memory session).observations
          ++ (failingNotes t (s.memory session).observations tool file count).map (·, now) } := by
  rw [checkToolErrors_eq]
  unfold failingNotes
  by_cases hcount : count = t.toolError
  · subst hcount
    have hobserved : s.hasObservation session .environment file (toolErrorText tool file t.toolError)
        = (s.memory session).observations.any (ofTool t tool file) :=
      Store.hasObservation_memory .environment file _
    obtain ⟨last, i, recorded⟩ := Store.insertObservation_accepted h
      ⟨.environment, file, none, toolErrorText tool file t.toolError⟩ now
    rw [hobserved]
    cases (s.memory session).observations.any (ofTool t tool file) with
    | true => simp [afterCheck]
    | false =>
      simp only [recorded, ne_eq, not_true_eq_false, decide_false, Bool.or_self, Bool.false_eq_true,
        if_false, and_self, if_true, List.map_cons, List.map_nil]
      exact (Store.insertObservation_memory recorded).trans (if_pos rfl)
  · simp [hcount, afterCheck]

/-! ## §2. Calls that are counted. -/

/-- To count a key once more is to count it once more, and no other. -/
theorem Counts.get_bump {α : Type} [BEq α] [LawfulBEq α] [DecidableEq α] (key other : α)
    (c : Counts α) : (c.bump key).get other = c.get other + if other = key then 1 else 0 := by
  induction c with
  | nil =>
    by_cases h : other = key
    · simp [bump, get, h]
    · simp [bump, get, h, List.lookup_cons, beq_false_of_ne h]
  | cons entry rest ih =>
    obtain ⟨first, n⟩ := entry
    unfold get at ih
    by_cases hfirst : first = key
    · by_cases h : other = key
      · simp [bump, get, hfirst, h]
      · simp [bump, get, hfirst, h, List.lookup_cons, beq_false_of_ne h]
    · by_cases h : other = first
      · simp [bump, get, hfirst, h]
      · simp [bump, get, hfirst, List.lookup_cons, beq_false_of_ne h, ih]

/-- What a call is counted as. -/
inductive CountedAs where
  | access (file : String) (symbol : Option String)
  | failedSearch (query : String)
  | failure (tool : String) (file : Option String)
  deriving DecidableEq

/-- What a call is counted as in the project at a root: a lookup of a file that found something, a
search that found nothing, or any call that failed. -/
def ToolCall.countedAs? (root : String) (call : ToolCall) : Option CountedAs :=
  let file := call.targetFile?.map (Path.relative root)
  if call.isError then some (.failure call.tool file)
  else
    match call.kind with
    | .lookup => if call.foundNothing then none else file.map (.access · call.symbolArg?)
    | .search => if call.foundNothing then call.queryArg?.map .failedSearch else none
    | .other => none

/-! ## §3. From one standing to the next. -/

/-- An item of a list that was appended to is an old one or a new one. -/
theorem split_append {α : Type} {old new before after : List α} {x : α}
    (h : old ++ new = before ++ x :: after) :
    (∃ rest, old = before ++ x :: rest ∧ after = rest ++ new)
      ∨ ∃ rest, before = old ++ rest ∧ new = rest ++ x :: after := by
  rcases List.append_eq_append_iff.mp h with ⟨rest, hbefore, hnew⟩ | ⟨rest, hold, hafter⟩
  · exact .inr ⟨rest, hbefore, hnew⟩
  · cases rest with
    | nil => exact .inr ⟨[], by rw [hold, List.append_nil, List.append_nil], hafter.symm⟩
    | cons y rest =>
      rw [List.cons_append, List.cons.injEq] at hafter
      exact .inl ⟨rest, hafter.1 ▸ hold, hafter.2⟩

/-- What an observer counts, and what its session has logged and observed. -/
structure Standing where
  tally : Tally
  events : List (NewEvent × Time)
  observations : List (NewObservation × Time)

namespace Standing

/-- The standing after entries and reports of one time. -/
def after (was : Standing) (tally : Tally) (events : List NewEvent) (observations : List NewObservation)
    (reports : List PatternReport) (now : Time) : Standing where
  tally := tally
  events := was.events ++ (events ++ reports.map (·.event)).map (·, now)
  observations := was.observations ++ (observations ++ reports.map (·.observation)).map (·, now)

/-- The standing by what is remembered of a session. -/
def of (tally : Tally) (m : Memory) : Standing := ⟨tally, m.events, m.observations⟩

variable {tally : Tally} {s s' : Store} {session : String}

theorem of_createSession (mode : SessionMode) (label : Option String) :
    of tally ((s.createSession session mode label).1.memory session) = of tally (s.memory session) := by
  rw [Store.createSession_memory, if_pos rfl]
  rfl

theorem of_addTokens (n : Nat) :
    of tally ((s.addTokens session n).memory session) = of tally (s.memory session) := by
  rw [Store.addTokens_memory, if_pos rfl]
  rfl

theorem of_begin (o : Observer) (s : Store) :
    of tally ((o.begin s).2.memory o.session) = of tally (s.memory o.session) := by
  unfold Observer.begin
  split
  · rfl
  · exact of_createSession o.mode o.label

theorem of_insertEvent {event : NewEvent} {time : Time} {i : RowId}
    (logged : s.insertEvent session event time = .ok (s', i)) :
    of tally (s'.memory session) = (of tally (s.memory session)).after tally [event] [] [] time := by
  rw [Store.insertEvent_memory logged, if_pos rfl]
  simp [of, after]

theorem of_reported (m : Memory) (reports : List PatternReport) (now : Time) :
    of tally (m.reported reports now) = (of tally m).after tally [] [] reports now := by
  simp [of, after, Memory.reported]

end Standing

/-- Reports that follow entries of the same time. -/
theorem Standing.after_reports (was : Standing) (tally tally' : Tally) (events : List NewEvent)
    (observations : List NewObservation) (reports : List PatternReport) (now : Time) :
    (was.after tally events observations [] now).after tally' [] [] reports now
      = was.after tally' events observations reports now := by
  simp [Standing.after]

/-- A report has been made at the given times, and no other of its kind: they are the times of the
events of the kind, and those of the observations that say the same. -/
structure Standing.Made (is : Standing) (kind : NewEvent × Time → Bool) (r : PatternReport)
    (times : List Time) : Prop where
  logged : is.events.filter kind = times.map (r.event, ·)
  observed : is.observations.filter (·.1 == r.observation) = times.map (r.observation, ·)

namespace Standing.Made

variable {was : Standing} {kind : NewEvent × Time → Bool} {r : PatternReport} {times : List Time}
  {tally : Tally} {events : List NewEvent} {observations : List NewObservation}
  {reports : List PatternReport} {now : Time}

/-- Whether there is an event of the kind. -/
theorem any_events (h : was.Made kind r times) : was.events.any kind = !times.isEmpty := by
  cases times with
  | nil =>
    rw [List.isEmpty_nil, Bool.not_true, List.any_eq_false]
    exact List.filter_eq_nil_iff.mp h.logged
  | cons time rest =>
    have hmem : (r.event, time) ∈ was.events.filter kind := by simp [h.logged]
    rw [List.isEmpty_cons, Bool.not_false, List.any_eq_true]
    exact ⟨_, List.mem_filter.mp hmem⟩

/-- Other entries and reports do not matter. -/
theorem kept (h : was.Made kind r times) (hevents : ∀ e ∈ events, kind (e, now) = false)
    (hobservations : ∀ o ∈ observations, o ≠ r.observation)
    (hreports : ∀ r' ∈ reports, kind (r'.event, now) = false ∧ r'.observation ≠ r.observation) :
    (was.after tally events observations reports now).Made kind r times where
  logged := by
    have hnone : ((events ++ reports.map (·.event)).map (·, now)).filter kind = [] := by
      rw [List.filter_eq_nil_iff]
      intro e he
      simp only [List.mem_map, List.mem_append] at he
      obtain ⟨e, hmem | ⟨r', hmem, rfl⟩, rfl⟩ := he
      · simp [hevents e hmem]
      · simp [(hreports r' hmem).1]
    rw [Standing.after, List.filter_append, hnone, List.append_nil, h.logged]
  observed := by
    have hnone : ((observations ++ reports.map (·.observation)).map (·, now)).filter
        (·.1 == r.observation) = [] := by
      rw [List.filter_eq_nil_iff]
      intro o ho
      simp only [List.mem_map, List.mem_append] at ho
      obtain ⟨o, hmem | ⟨r', hmem, rfl⟩, rfl⟩ := ho
      · simp [hobservations o hmem]
      · simp [(hreports r' hmem).2]
    rw [Standing.after, List.filter_append, hnone, List.append_nil, h.observed]

/-- The report is made once more. -/
theorem again (h : was.Made kind r times) (hevents : ∀ e ∈ events, kind (e, now) = false)
    (hobservations : ∀ o ∈ observations, o ≠ r.observation) (hkind : kind (r.event, now) = true) :
    (was.after tally events observations [r] now).Made kind r (times ++ [now]) := by
  have hentered : (was.after tally events observations [] now).Made kind r times :=
    h.kept hevents hobservations (by simp)
  refine ⟨?_, ?_⟩
  · have hone : [(r.event, now)].filter kind = [(r.event, now)] := List.filter_cons_of_pos hkind
    rw [← Standing.after_reports _ tally, Standing.after, List.filter_append, hentered.logged,
      List.map_append]
    simp [hone]
  · rw [← Standing.after_reports _ tally, Standing.after, List.filter_append, hentered.observed,
      List.map_append]
    simp

end Standing.Made

/-- The ways in which a moment takes a standing to the next, in the project at a root. -/
inductive Lives (root : String) (t : Thresholds) (was : Standing) : Observer.Moment → Standing → Prop
    where
  /-- A call that is not counted: that a lookup found nothing in a file may be logged. -/
  | uncounted {d : Disk} {call : ToolCall} {now : Time} {spots : List NewEvent}
      (counted : call.countedAs? root = none) (spot : ∀ e ∈ spots, e.type = .indexBlindSpot) :
      Lives root t was (.call d call now) (was.after was.tally spots [] [] now)
  /-- An access is logged and counted. -/
  | access {d : Disk} {call : ToolCall} {now : Time} {file : String} {symbol : Option String}
      (counted : call.countedAs? root = some (.access file symbol)) :
      Lives root t was (.call d call now) (was.after (was.tally.recordAccess file symbol)
        [⟨.accessed, some file, symbol, some (Observer.toolDetails call)⟩] []
        (redundantReports t was.events file symbol
          ((was.tally.recordAccess file symbol).accessCount file symbol)) now)
  /-- A failed search is counted. -/
  | failedSearch {d : Disk} {call : ToolCall} {now : Time} {query : String}
      (counted : call.countedAs? root = some (.failedSearch query)) :
      Lives root t was (.call d call now) (was.after (was.tally.recordFailedSearch query) [] []
        (failedSearchReports t was.events query
          ((was.tally.recordFailedSearch query).failedSearchCount query)) now)
  /-- A failure is logged and counted. -/
  | failure {d : Disk} {call : ToolCall} {now : Time} {tool : String} {file : Option String}
      (details : Option Json) (counted : call.countedAs? root = some (.failure tool file)) :
      Lives root t was (.call d call now) (was.after (was.tally.recordToolError tool (file.getD ""))
        [⟨.toolError, file, none, details⟩]
        (failingNotes t was.observations tool file
          ((was.tally.recordToolError tool (file.getD "")).toolErrorCount tool (file.getD ""))) [] now)
  /-- A change is logged, and observed if its symbol was accessed. -/
  | change {file : String} {c : SymbolChange} {now : Time} :
      Lives root t was (.change file c now) (was.after was.tally
        [⟨c.kind.eventType, some file, some c.symbol, some (Observer.changeDetails c)⟩]
        (changeNotes was.tally file c)
        (if c.kind = .removed then deadEndReports was.events file c.symbol else []) now)
  /-- The changes of a file have been seen. -/
  | closes {file : String} {now : Time} :
      Lives root t was (.closes file now)
        (was.after was.tally [] [] (thrashReports t was.events file now) now)
  /-- The same where there is no session yet. -/
  | unbegun {file : String} {now : Time} :
      Lives root t was (.closes file now) (was.after was.tally [] [] [] now)

/-- The standing of an observer in a store. -/
def Observer.standing (o : Observer) (s : Store) : Standing := .of o.tally (s.memory o.session)

/-- An event that is not looked for does not matter. -/
theorem any_append_of_not {α : Type} {p : α → Bool} {l : List α} {x : α} (h : p x = false) :
    (l ++ [x]).any p = l.any p := by
  rw [List.any_append, List.any_cons, h, List.any_nil, Bool.or_self, Bool.or_false]

/-- An access is no report. -/
theorem redundantReports_access (t : Thresholds) (events : List (NewEvent × Time)) (file : String)
    (symbol : Option String) (count : UInt32) (details : Option Json) (now : Time) :
    redundantReports t (events ++ [(⟨.accessed, some file, symbol, details⟩, now)]) file symbol count
      = redundantReports t events file symbol count := by
  unfold redundantReports
  rw [any_append_of_not (by simp [ofSubject])]

/-- That a symbol goes is neither that it came nor a report. -/
theorem deadEndReports_removed (events : List (NewEvent × Time)) (file symbol : String)
    (details : Option Json) (now : Time) :
    deadEndReports (events ++ [(⟨.symbolRemoved, some file, some symbol, details⟩, now)]) file symbol
      = deadEndReports events file symbol := by
  unfold deadEndReports
  rw [any_append_of_not (by simp [ofSubject]), any_append_of_not (by simp [ofSubject])]

/-- A call that is not counted may leave nothing. -/
theorem Lives.nothing {root : String} {t : Thresholds} {was : Standing} {d : Disk} {call : ToolCall}
    {now : Time} (counted : call.countedAs? root = none) : Lives root t was (.call d call now) was := by
  have huncounted : Lives root t was (.call d call now) (was.after was.tally [] [] [] now) :=
    .uncounted counted (by simp)
  simpa [Standing.after] using huncounted

namespace Observer

variable {o : Observer} {s : Store}

theorem onLookup_lives (h : o.Ready s) (d : Disk) {call : ToolCall} {file : String} {now : Time}
    (counted : call.countedAs? o.root
      = if call.foundNothing then none else some (.access file call.symbolArg?)) :
    Lives o.root o.thresholds (o.standing s) (.call d call now)
      ((o.onLookup d s call file now).1.standing (o.onLookup d s call file now).2) := by
  have hsession := begin_hasSession h
  have hwas : o.standing s = .of o.tally ((o.begin s).2.memory o.session) := (Standing.of_begin o s).symm
  unfold onLookup
  simp only [begin_fst]
  rw [hwas]
  generalize (o.begin s).2 = s at hsession ⊢
  cases hfound : call.foundNothing with
  | true =>
    rw [hfound, if_pos rfl] at counted
    simp only [if_true]
    cases d.isFile (Path.under o.root file) with
    | true =>
      obtain ⟨mid, i, logged⟩ := Store.insertEvent_accepted hsession
        ⟨.indexBlindSpot, some file, call.symbolArg?, some (toolDetails call)⟩ now
      simp only [logged, if_true, standing, Standing.of_insertEvent logged]
      exact .uncounted counted (by simp)
    | false =>
      exact .nothing counted
  | false =>
    rw [hfound, if_neg Bool.false_ne_true] at counted
    obtain ⟨mid, i, logged⟩ := Store.insertEvent_accepted hsession
      ⟨.accessed, some file, call.symbolArg?, some (toolDetails call)⟩ now
    have hmid : (mid.addTokens o.session (estimateTokens call.result.compact)).hasSession o.session
        = true :=
      ((SessionWrites.event logged).trans (.tokens mid _)).hasSession hsession
    have hevents : ((mid.addTokens o.session (estimateTokens call.result.compact)).memory o.session).events
        = (s.memory o.session).events
          ++ [(⟨.accessed, some file, call.symbolArg?, some (toolDetails call)⟩, now)] := by
      rw [Store.addTokens_memory, if_pos rfl, Store.insertEvent_memory logged, if_pos rfl]
    simp only [logged, Bool.false_eq_true, if_false, standing, countTokens]
    rw [checkRedundantAccess_memory _ hmid, hevents, redundantReports_access, Standing.of_reported,
      Standing.of_addTokens, Standing.of_insertEvent logged, Standing.after_reports]
    exact .access counted

theorem onSearch_lives (h : o.Ready s) (d : Disk) {call : ToolCall} {query : String} {now : Time}
    (counted : call.countedAs? o.root
      = if call.foundNothing then some (.failedSearch query) else none) :
    Lives o.root o.thresholds (o.standing s) (.call d call now)
      ((o.onSearch s call query now).1.standing (o.onSearch s call query now).2) := by
  have hsession := begin_hasSession h
  have hwas : o.standing s = .of o.tally ((o.begin s).2.memory o.session) := (Standing.of_begin o s).symm
  unfold onSearch
  simp only [begin_fst]
  rw [hwas]
  generalize (o.begin s).2 = s at hsession ⊢
  cases hfound : call.foundNothing with
  | true =>
    rw [hfound, if_pos rfl] at counted
    simp only [Bool.not_true, Bool.false_eq_true, if_false, standing]
    rw [checkFailedSearch_memory _ hsession, Standing.of_reported]
    exact .failedSearch counted
  | false =>
    rw [hfound, if_neg Bool.false_ne_true] at counted
    simp only [Bool.not_false, if_true, standing, countTokens, Standing.of_addTokens]
    exact .nothing counted

theorem onError_lives (h : o.Ready s) (d : Disk) {call : ToolCall} {file : Option String} {now : Time}
    (counted : call.countedAs? o.root = some (.failure call.tool file)) :
    Lives o.root o.thresholds (o.standing s) (.call d call now)
      ((o.onError s call file now).1.standing (o.onError s call file now).2) := by
  have hsession := begin_hasSession h
  have hwas : o.standing s = .of o.tally ((o.begin s).2.memory o.session) := (Standing.of_begin o s).symm
  unfold onError
  simp only [begin_fst]
  rw [hwas]
  generalize (o.begin s).2 = s at hsession ⊢
  obtain ⟨mid, i, logged⟩ := Store.insertEvent_accepted hsession
    ⟨.toolError, file, none, some (errorDetails call)⟩ now
  have hmid := (SessionWrites.event logged).hasSession hsession
  simp only [logged, standing]
  rw [checkToolErrors_memory _ hmid, Store.insertEvent_memory logged, if_pos rfl]
  have hfailure : Lives o.root o.thresholds (.of o.tally (s.memory o.session)) (.call d call now) _ :=
    .failure (some (errorDetails call)) counted
  simpa [Standing.after, Standing.of] using hfailure

theorem onToolCall_lives (h : o.Ready s) (d : Disk) (call : ToolCall) (now : Time) :
    Lives o.root o.thresholds (o.standing s) (.call d call now)
      ((o.onToolCall d s call now).1.standing (o.onToolCall d s call now).2) := by
  unfold onToolCall
  simp only
  split
  next hfailed => exact onError_lives h d (by rw [ToolCall.countedAs?, if_pos hfailed])
  next hfailed =>
    -- of the calls that succeed, lookups of a file and searches for a query are counted
    split
    next hkind =>
      split
      next file hfile =>
        exact onLookup_lives h d (by simp [ToolCall.countedAs?, hfailed, hkind, hfile])
      next hfile => exact .nothing (by simp [ToolCall.countedAs?, hfailed, hkind, hfile])
    next hkind =>
      split
      next query hquery =>
        exact onSearch_lives h d (by simp [ToolCall.countedAs?, hfailed, hkind, hquery])
      next hquery => exact .nothing (by simp [ToolCall.countedAs?, hfailed, hkind, hquery])
    next hkind => exact .nothing (by simp [ToolCall.countedAs?, hfailed, hkind])

/-- What becomes of a change whose event is logged and whose observation is recorded. -/
theorem onChange_eq {mid last : Store} {file : String} {c : SymbolChange} {now : Time} {i : RowId}
    (logged : s.insertEvent o.session
      ⟨c.kind.eventType, some file, some c.symbol, some (changeDetails c)⟩ now = .ok (mid, i))
    (observed : if o.tally.wasAccessed file (some c.symbol) then
        ∃ j, (marked mid file c).insertObservation o.session
          ⟨.change, some file, some c.symbol, c.description⟩ now = .ok (last, j)
      else last = marked mid file c) :
    o.onChange s file c now = .ok (if c.kind = .removed then
      afterCheck last (checkDeadEnd false last o.session file c.symbol now) else last) := by
  unfold marked at observed
  unfold onChange
  simp only [logged, bind, Except.bind]
  split at observed
  next haccessed =>
    obtain ⟨j, recorded⟩ := observed
    rw [if_pos haccessed, recorded]
    rfl
  next haccessed =>
    rw [if_neg haccessed, observed]
    rfl

/-- A session that is there lives through every change. -/
theorem onChange_lives (h : s.hasSession o.session = true) (file : String) (c : SymbolChange)
    (now : Time) :
    ∃ s', o.onChange s file c now = .ok s'
      ∧ Lives o.root o.thresholds (o.standing s) (.change file c now) (o.standing s') := by
  obtain ⟨mid, i, logged⟩ := Store.insertEvent_accepted h
    ⟨c.kind.eventType, some file, some c.symbol, some (changeDetails c)⟩ now
  -- that observations go stale is not remembered with what they say
  have hmarks : (marked mid file c).memory o.session = mid.memory o.session := by
    unfold marked
    split
    · exact Store.markStale_memory _ _ _
    · rfl
  have hmarked : (marked mid file c).hasSession o.session = true := by
    rw [Store.hasSession_memory, hmarks, ← Store.hasSession_memory]
    exact (SessionWrites.event logged).hasSession h
  obtain ⟨last, observed, hlast, hmemory⟩ : ∃ last,
      (if o.tally.wasAccessed file (some c.symbol) then
        ∃ j, (marked mid file c).insertObservation o.session
          ⟨.change, some file, some c.symbol, c.description⟩ now = .ok (last, j)
      else last = marked mid file c)
      ∧ last.hasSession o.session = true
      ∧ o.standing last = (o.standing s).after o.tally
        [⟨c.kind.eventType, some file, some c.symbol, some (changeDetails c)⟩]
        (changeNotes o.tally file c) [] now := by
    unfold changeNotes
    by_cases haccessed : o.tally.wasAccessed file (some c.symbol) = true
    · obtain ⟨last, j, recorded⟩ := Store.insertObservation_accepted hmarked
        ⟨.change, some file, some c.symbol, c.description⟩ now
      refine ⟨last, by rw [if_pos haccessed]; exact ⟨j, recorded⟩,
        (SessionWrites.observation recorded).hasSession hmarked, ?_⟩
      rw [standing, Store.insertObservation_memory recorded, if_pos rfl, hmarks,
        Store.insertEvent_memory logged, if_pos rfl, if_pos haccessed]
      simp [standing, Standing.of, Standing.after]
    · refine ⟨marked mid file c, by rw [if_neg haccessed], hmarked, ?_⟩
      rw [standing, hmarks, if_neg haccessed]
      exact Standing.of_insertEvent logged
  have hevents : (last.memory o.session).events = (s.memory o.session).events
      ++ [(⟨c.kind.eventType, some file, some c.symbol, some (changeDetails c)⟩, now)] := by
    simpa [standing, Standing.of, Standing.after] using congrArg Standing.events hmemory
  refine ⟨_, onChange_eq logged observed, ?_⟩
  -- only a removal is followed by a check, and then the removal is in the log
  have hlives : Lives o.root o.thresholds (o.standing s) (.change file c now) _ := .change
  by_cases hremoved : c.kind = .removed
  · have hgone : (last.memory o.session).events.any
        (ofSubject .symbolRemoved (some file) (some c.symbol)) = true := by
      rw [hevents, List.any_append]
      simp [ofSubject, hremoved, ChangeKind.eventType]
    have hreported : o.standing
          (afterCheck last (checkDeadEnd false last o.session file c.symbol now))
        = (o.standing last).after o.tally [] []
          (deadEndReports (s.memory o.session).events file c.symbol) now := by
      rw [standing, checkDeadEnd_memory hlast file c.symbol now hgone, Standing.of_reported, hevents,
        hremoved, ChangeKind.eventType, deadEndReports_removed]
      rfl
    rw [if_pos hremoved] at hlives ⊢
    rw [hreported, hmemory, Standing.after_reports]
    exact hlives
  · rw [if_neg hremoved] at hlives ⊢
    rw [hmemory]
    exact hlives

/-- **Every moment is lived through in one of these ways.** -/
theorem live_lives (h : o.Ready s) (m : Moment) :
    Lives o.root o.thresholds (o.standing s) m ((o.live s m).1.standing (o.live s m).2) := by
  cases m with
  | call d call now => exact onToolCall_lives h d call now
  | change file c now =>
    have hsession : (o.begin s).2.hasSession (o.begin s).1.session = true := by
      rw [begin_fst]
      exact begin_hasSession h
    obtain ⟨s', hchange, hlives⟩ := onChange_lives hsession file c now
    have hlive : o.live s (.change file c now) = ((o.begin s).1, s') := by
      unfold live
      simp only [hchange]
    have hwas : (o.begin s).1.standing (o.begin s).2 = o.standing s := by
      rw [begin_fst]
      exact Standing.of_begin o s
    rw [hlive]
    rw [hwas, begin_fst] at hlives
    rw [begin_fst]
    exact hlives
  | closes file now =>
    cases hsession : s.hasSession o.session with
    | true =>
      have hreported : (o.live s (.closes file now)).1.standing (o.live s (.closes file now)).2
          = (o.standing s).after o.tally [] []
            (thrashReports o.thresholds (s.memory o.session).events file now) now := by
        simp only [live, standing]
        rw [checkThrash_memory o.thresholds hsession file now, Standing.of_reported]
      rw [hreported]
      exact .closes
    | false =>
      -- the store refuses what is to be reported of a session that it does not know
      have hquiet : afterCheck s (checkThrash o.thresholds false s o.session file now) = s := by
        unfold checkThrash
        cases windowStart o.thresholds now with
        | error e => rfl
        | ok since =>
          simp only [bind, Except.bind]
          split
          · rfl
          · exact emit_refused hsession _ _ now
      simp only [live, hquiet]
      have hunbegun : Lives o.root o.thresholds (o.standing s) (.closes file now) _ := .unbegun
      simpa [Standing.after, standing, Standing.of] using hunbegun

theorem live_root (o : Observer) (s : Store) (m : Moment) : (o.live s m).1.root = o.root := by
  cases m with
  | call d call now =>
    unfold live onToolCall onError onLookup onSearch
    simp only [begin_fst]
    repeat' split
    all_goals rfl
  | change file c now =>
    unfold live
    simp only [begin_fst]
    split <;> rfl
  | closes file now => rfl

end Observer

/-! ## §4. Crowds. -/

namespace Crowd

open Observer (Moment)

/-- The standing of one of the observers. -/
def standing {ι : Type} (w : Crowd ι) (i : ι) : Standing := (w.observers i).standing w.store

variable {ι : Type} [DecidableEq ι] {P : List Moment → Standing → Prop}

/-- What every moment of one observer keeps of its standing is kept in a crowd. -/
theorem liveAll_standing {w : Crowd ι} (hready : w.Ready)
    (hsessions : Function.Injective fun j => (w.observers j).session) (i : ι)
    (hstep : ∀ past was m is, Lives (w.observers i).root (w.observers i).thresholds was m is →
      P past was → P (past ++ [m]) is)
    (h : P [] (w.standing i)) (moments : List (ι × Moment)) :
    P (own i moments) ((w.liveAll moments).standing i) := by
  -- the observer stays in its project, with its thresholds, and its session stays in the store
  let kept (past : List Moment) (o : Observer) (m : Memory) : Prop :=
    o.root = (w.observers i).root ∧ o.thresholds = (w.observers i).thresholds
      ∧ (o.begun = true → m.session.isSome) ∧ P past (.of o.tally m)
  have hkept : ∀ past (o : Observer) (s : Store) (m : Moment), kept past o (s.memory o.session) →
      kept (past ++ [m]) (o.live s m).1 ((o.live s m).2.memory o.session) := by
    intro past o s m ⟨hroot, hthresholds, hbegun, hP⟩
    have hready := (fun hb => by rw [Store.hasSession_memory]; exact hbegun hb : o.Ready s)
    have hlives := Observer.live_lives hready m
    rw [hroot, hthresholds] at hlives
    have hlive := Observer.live_ready hready m
    have hsession := Observer.live_session o s m
    refine ⟨(o.live_root s m).trans hroot, (o.live_thresholds s m).trans hthresholds, ?_, ?_⟩
    · intro hbegun'
      rw [← hsession, ← Store.hasSession_memory]
      exact hlive hbegun'
    · rw [← hsession]
      exact hstep past _ m _ hlives hP
  have hstart : kept [] (w.observers i) (w.store.memory (w.observers i).session) := by
    refine ⟨rfl, rfl, fun hbegun => ?_, h⟩
    rw [← Store.hasSession_memory]
    exact hready i hbegun
  have hend := doAll_keeps (a := Observer.living) hkept i moments w [] hsessions hstart
  rw [List.nil_append] at hend
  have hsession : ((w.liveAll moments).observers i).session = (w.observers i).session :=
    doAll_session Observer.living i moments w
  rw [standing, Observer.standing, hsession]
  exact hend.2.2.2

/-- The same for a run, and an observer whose session the store did not know. -/
theorem run_standing {w : Crowd ι} (hready : w.Ready) (hstore : w.store.Intact)
    (hsessions : Function.Injective fun j => (w.observers j).session) (i : ι)
    (hunknown : w.store.hasSession (w.observers i).session = false)
    (hstep : ∀ past was m is, Lives (w.observers i).root (w.observers i).thresholds was m is →
      P past was → P (past ++ [m]) is)
    (h : P [] ⟨(w.observers i).tally, [], []⟩) (encounters : List (Encounter ι)) :
    P (own i (encounters.flatMap Encounter.moments)) ((w.run encounters).standing i) := by
  rw [w.run_eq_liveAll hready]
  refine liveAll_standing hready hsessions i hstep ?_ _
  -- nothing is remembered of a session that is not there
  have hempty : w.store.memory (w.observers i).session = Store.empty.memory (w.observers i).session :=
    sameFor_empty hstore hunknown
  rw [standing, Observer.standing, hempty]
  exact h

/-- The last encounter of a run. -/
theorem run_concat (w : Crowd ι) (encounters : List (Encounter ι)) (e : Encounter ι) :
    w.run (encounters ++ [e]) = (w.run encounters).step e := List.foldl_concat _ _ _ _

theorem run_ready {w : Crowd ι} (h : w.Ready) (encounters : List (Encounter ι)) :
    (w.run encounters).Ready := by
  rw [w.run_eq_liveAll h]
  exact h.liveAll _

/-- The log of an observer that sees something. -/
theorem step_standing (w : Crowd ι) (e : Encounter ι) :
    ((w.step e).standing e.who).events
      = (((w.observers e.who).see e.disk w.store e.sight).2.memory
          (w.observers e.who).session).events := by
  simp only [standing, step, put, Function.update_self, Observer.standing, Standing.of,
    Observer.see_session]

/-- An observer stays with its thresholds. -/
theorem run_thresholds (i : ι) (encounters : List (Encounter ι)) :
    ∀ w : Crowd ι, ((w.run encounters).observers i).thresholds = (w.observers i).thresholds := by
  induction encounters with
  | nil => intro w; rfl
  | cons e rest ih =>
    intro w
    refine (ih (w.step e)).trans ?_
    by_cases hi : i = e.who
    · subst hi
      simp [step, put, Observer.see_thresholds]
    · simp [step, put, hi]

/-- Two observers with the same thresholds that have seen nothing, on an empty store. -/
def leftAndRight (t : Thresholds) : Crowd Bool where
  observers side := .new "/p" t .indexed none (if side then "right" else "left")
  store := .empty

theorem leftAndRight_ready (t : Thresholds) : (leftAndRight t).Ready :=
  fun _ hbegun => absurd hbegun Bool.false_ne_true

theorem leftAndRight_sessions (t : Thresholds) :
    Function.Injective fun side => ((leftAndRight t).observers side).session := by
  show Function.Injective fun side : Bool => if side then "right" else "left"
  decide

end Crowd

end CodeIndex
