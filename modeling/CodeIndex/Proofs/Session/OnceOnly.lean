import Mathlib
import CodeIndex.Proofs.Session.Crowd

/-!
# What a session reports only once

A session reports a dead end or a redundant access once for each subject, a failed search once for each
query, and observes once of each tool and file that the tool keeps failing there. Each report is an
event with an observation that says the same.

The checks prevent repeats by different means: they look for an event about the subject, for an event
with the query in its details, or for an observation of the same text. `Entered` has the guard of each
entry, and the list of what has been entered has no repeats because an entry that passes its guard is
`Novel` (§1, §2). Nothing else that happens in the store changes what a session remembers (§3).

Main result: `patterns_reported_once`.
-/

namespace CodeIndex

/-! ## §1. Lists without repeated reports. -/

/-- An event of a type about exactly this subject. -/
def ofSubject (type : EventType) (file symbol : Option String) (e : NewEvent × Time) : Bool :=
  e.1.type == type && e.1.file == file && e.1.symbol == symbol

/-- A report that searches for a query failed. -/
def ofQuery (query : String) (e : NewEvent × Time) : Bool :=
  e.1.type == .failedSearch && e.1.extra.bind Store.queryText? == some query

/-- An observation that a tool keeps failing on a file. -/
def ofTool (t : Thresholds) (tool : String) (file : Option String) (o : NewObservation × Time) : Bool :=
  o.1.type == .environment && o.1.file == file && o.1.text == toolErrorText tool file t.toolError

/-- Among logged events no report is made twice, and every failed search has its query. -/
structure ReportedOnce (events : List (NewEvent × Time)) : Prop where
  deadEnds : ∀ file symbol, events.countP (ofSubject .deadEnd file symbol) ≤ 1
  redundantAccesses : ∀ file symbol, events.countP (ofSubject .redundantAccess file symbol) ≤ 1
  failedSearches : ∀ query, events.countP (ofQuery query) ≤ 1
  queries : ∀ e ∈ events, e.1.type = .failedSearch → ∃ query, ofQuery query e = true

/-- Among observations of the surroundings each is about a tool that keeps failing, and none is made
twice. -/
structure FailingOnce (t : Thresholds) (observations : List (NewObservation × Time)) : Prop where
  environment : ∀ tool file, observations.countP (ofTool t tool file) ≤ 1
  tools : ∀ o ∈ observations, o.1.type = .environment → ∃ tool, ofTool t tool o.1.file o = true

/-- The subjects and times of the patterns that were logged. -/
def reportedSubjects (events : List (NewEvent × Time)) : List (Option String × Option String × Time) :=
  (events.filter (·.1.type.isReport)).map fun e => (e.1.file, e.1.symbol, e.2)

/-- The subjects and times of the patterns that were observed. -/
def observedSubjects (observations : List (NewObservation × Time)) :
    List (Option String × Option String × Time) :=
  (observations.filter (·.1.type == .antiPattern)).map fun o => (o.1.file, o.1.symbol, o.2)

/-- An event would repeat no report of those there are. -/
structure Novel (events : List (NewEvent × Time)) (event : NewEvent) : Prop where
  deadEnd : event.type = .deadEnd →
    events.any (ofSubject .deadEnd event.file event.symbol) = false
  redundantAccess : event.type = .redundantAccess →
    events.any (ofSubject .redundantAccess event.file event.symbol) = false
  failedSearch : event.type = .failedSearch →
    ∃ query, event.extra.bind Store.queryText? = some query ∧ events.any (ofQuery query) = false

/-- What is there once at most is so after one more item that is not of the kind, or is the first. -/
theorem countP_append_le_one {α : Type} {p : α → Bool} {l : List α} {x : α} (h : l.countP p ≤ 1)
    (hnew : p x = true → l.any p = false) : (l ++ [x]).countP p ≤ 1 := by
  rw [List.countP_append, List.countP_singleton]
  split
  next hx =>
    have hnone : l.countP p = 0 := by
      rw [List.countP_eq_zero]
      exact List.any_eq_false.mp (hnew hx)
    omega
  next => omega

theorem ReportedOnce.append {events : List (NewEvent × Time)} (h : ReportedOnce events)
    {event : NewEvent} (hnovel : Novel events event) (time : Time) :
    ReportedOnce (events ++ [(event, time)]) where
  deadEnds file symbol := by
    refine countP_append_le_one (h.deadEnds file symbol) fun hsame => ?_
    simp only [ofSubject, Bool.and_eq_true, beq_iff_eq] at hsame
    obtain ⟨⟨htype, rfl⟩, rfl⟩ := hsame
    exact hnovel.deadEnd htype
  redundantAccesses file symbol := by
    refine countP_append_le_one (h.redundantAccesses file symbol) fun hsame => ?_
    simp only [ofSubject, Bool.and_eq_true, beq_iff_eq] at hsame
    obtain ⟨⟨htype, rfl⟩, rfl⟩ := hsame
    exact hnovel.redundantAccess htype
  failedSearches query := by
    refine countP_append_le_one (h.failedSearches query) fun hsame => ?_
    simp only [ofQuery, Bool.and_eq_true, beq_iff_eq] at hsame
    obtain ⟨htype, hquery⟩ := hsame
    obtain ⟨query', hquery', hnone⟩ := hnovel.failedSearch htype
    rw [hquery, Option.some.injEq] at hquery'
    exact hquery' ▸ hnone
  queries e he htype := by
    rcases List.mem_append.mp he with he | he
    · exact h.queries e he htype
    · rw [List.mem_singleton] at he
      subst he
      obtain ⟨query, hquery, -⟩ := hnovel.failedSearch htype
      exact ⟨query, by simpa [ofQuery, hquery] using htype⟩

theorem FailingOnce.append {t : Thresholds} {observations : List (NewObservation × Time)}
    (h : FailingOnce t observations) {observation : NewObservation} (time : Time)
    (hnovel : observation.type = .environment → ∃ tool,
      observation.text = toolErrorText tool observation.file t.toolError
        ∧ observations.any (ofTool t tool observation.file) = false) :
    FailingOnce t (observations ++ [(observation, time)]) where
  environment tool file := by
    refine countP_append_le_one (h.environment tool file) fun hsame => ?_
    simp only [ofTool, Bool.and_eq_true, beq_iff_eq] at hsame
    obtain ⟨⟨htype, rfl⟩, htext⟩ := hsame
    obtain ⟨tool', htext', hnone⟩ := hnovel htype
    -- the two tools give the same text, and it is the text that is looked for
    have hsame : ofTool t tool observation.file = ofTool t tool' observation.file := by
      funext o
      simp only [ofTool, ← htext, ← htext']
    rw [hsame]
    exact hnone
  tools o ho htype := by
    rcases List.mem_append.mp ho with ho | ho
    · exact h.tools o ho htype
    · rw [List.mem_singleton] at ho
      subst ho
      obtain ⟨tool, htext, -⟩ := hnovel htype
      exact ⟨tool, by simpa [ofTool, htext] using htype⟩

/-! ## §2. Entries. -/

/-- What a session remembers has no repeated reports, and what it has logged as a pattern is what it
has observed as one. -/
structure OnceOnly (t : Thresholds) (m : Memory) : Prop where
  reports : ReportedOnce m.events
  failing : FailingOnce t m.observations
  /-- The reports and the observed patterns, each in their order, have the same subjects and times. -/
  paired : reportedSubjects m.events = observedSubjects m.observations

/-- An event that is no report repeats none. -/
theorem Novel.of_plain (events : List (NewEvent × Time)) {event : NewEvent}
    (h : event.type.isReport = false) : Novel events event := by
  constructor
  all_goals
    intro htype
    rw [htype] at h
    exact absurd h (by decide)

/-- The guards of the checks are about what the session remembers. -/
theorem Store.Unreported.novel {s : Store} {session : String} {event : NewEvent}
    (h : s.Unreported session event) : Novel (s.memory session).events event where
  deadEnd htype := by
    simp only [Store.Unreported, htype, Store.hasEvent_memory] at h
    exact h
  redundantAccess htype := by
    simp only [Store.Unreported, htype, Store.hasEvent_memory] at h
    exact h
  failedSearch htype := by
    simp only [Store.Unreported, htype, Store.hasEventFor_memory] at h
    exact h

theorem OnceOnly.of_eq {t : Thresholds} {m m' : Memory} (h : OnceOnly t m)
    (hevents : m'.events = m.events) (hobservations : m'.observations = m.observations) :
    OnceOnly t m' :=
  ⟨hevents ▸ h.reports, hobservations ▸ h.failing, by rw [hevents, hobservations, h.paired]⟩

theorem OnceOnly.logged {t : Thresholds} {m : Memory} (h : OnceOnly t m) {event : NewEvent}
    (plain : event.type.isReport = false) (time : Time) :
    OnceOnly t { m with events := m.events ++ [(event, time)] } where
  reports := h.reports.append (.of_plain _ plain) time
  failing := h.failing
  paired := by
    rw [← h.paired]
    simp [reportedSubjects, plain]

theorem OnceOnly.observed {t : Thresholds} {m : Memory} (h : OnceOnly t m)
    {observation : NewObservation} (noPattern : observation.type ≠ .antiPattern) (time : Time)
    (hnovel : observation.type = .environment → ∃ tool,
      observation.text = toolErrorText tool observation.file t.toolError
        ∧ m.observations.any (ofTool t tool observation.file) = false) :
    OnceOnly t { m with observations := m.observations ++ [(observation, time)] } where
  reports := h.reports
  failing := h.failing.append time hnovel
  paired := by
    rw [h.paired]
    simp [observedSubjects, noPattern]

theorem OnceOnly.reported {t : Thresholds} {m : Memory} (h : OnceOnly t m) {event : NewEvent}
    {observation : NewObservation} (hnovel : Novel m.events event)
    (isReport : event.type.isReport = true) (isPattern : observation.type = .antiPattern)
    (file : observation.file = event.file) (symbol : observation.symbol = event.symbol)
    (time : Time) :
    OnceOnly t { m with
      events := m.events ++ [(event, time)]
      observations := m.observations ++ [(observation, time)] } where
  reports := h.reports.append hnovel time
  failing := h.failing.append time fun htype => by
    rw [isPattern] at htype
    exact absurd htype (by decide)
  paired := by
    have hpaired := h.paired
    unfold reportedSubjects observedSubjects at hpaired ⊢
    rw [List.filter_append, List.map_append, hpaired, List.filter_append, List.map_append]
    simp [isReport, isPattern, file, symbol]

/-- **Entries repeat nothing.** -/
theorem Entered.onceOnly {t : Thresholds} {session : String} {s s' : Store}
    (h : Entered t session s s') :
    OnceOnly t (s.memory session) → OnceOnly t (s'.memory session) := by
  induction h with
  | none => exact id
  | create s mode label =>
    intro hs
    rw [Store.createSession_memory, if_pos rfl]
    exact hs.of_eq rfl rfl
  | tokens s n =>
    intro hs
    rw [Store.addTokens_memory, if_pos rfl]
    exact hs.of_eq rfl rfl
  | event logged plain =>
    intro hs
    rw [Store.insertEvent_memory logged, if_pos rfl]
    exact hs.logged plain _
  | change recorded isChange =>
    intro hs
    rw [Store.insertObservation_memory recorded, if_pos rfl]
    exact hs.observed (by simp [isChange]) _ (by simp [isChange])
  | report logged recorded isReport unreported isPattern file symbol =>
    intro hs
    rw [Store.insertObservation_memory recorded, if_pos rfl, Store.insertEvent_memory logged,
      if_pos rfl]
    exact hs.reported unreported.novel isReport isPattern file symbol _
  | @environment s s' tool file time i recorded unrecorded =>
    intro hs
    rw [Store.insertObservation_memory recorded, if_pos rfl]
    refine hs.observed (by simp) _ fun _ => ⟨tool, rfl, ?_⟩
    rw [Store.hasObservation_memory] at unrecorded
    exact unrecorded
  | trans _ _ ih₁ ih₂ => exact fun hs => ih₂ (ih₁ hs)

/-! ## §3. Runs. -/

open Observer (Moment)

namespace Observer

variable {o : Observer} {s : Store}

theorem live_thresholds (o : Observer) (s : Store) (m : Moment) :
    (o.live s m).1.thresholds = o.thresholds := by
  cases m with
  | call d call now =>
    unfold live onToolCall onError onLookup onSearch
    simp only [begin_fst]
    repeat' split
    all_goals rfl
  | change file c now =>
    unfold live
    simp only [begin_fst]
    split <;> rfl
  | closes file now => rfl

theorem see_thresholds (o : Observer) (d : Disk) (s : Store) (sight : Sight) :
    (o.see d s sight).1.thresholds = o.thresholds := by
  cases sight with
  | call call now => exact o.live_thresholds s (.call d call now)
  | changes diff now =>
    unfold see onFileDiff
    simp only [begin_fst]
    repeat' split
    all_goals rfl

theorem live_onceOnly (h : OnceOnly o.thresholds (s.memory o.session)) (m : Moment) :
    OnceOnly o.thresholds ((o.live s m).2.memory o.session) := by
  cases m with
  | call d call now =>
    unfold live
    rcases onToolCall_entered o d s call now with hpassed | hentered
    · simp only [hpassed]
      exact h
    · exact ((begin_entered o s).trans hentered).onceOnly h
  | change file c now =>
    have hbegin := (begin_entered (t := o.thresholds) o s).onceOnly h
    unfold live
    simp only [begin_fst]
    split
    next s' hok =>
      obtain ⟨mid, i, hevent, hentered⟩ := onChange_entered hok
      refine hentered.onceOnly ?_
      -- the change is logged, and marks are not remembered
      have hmid : OnceOnly o.thresholds (mid.memory o.session) := by
        refine (Entered.event hevent ?_).onceOnly hbegin
        cases c.kind <;> rfl
      unfold marked
      split
      · rw [Store.markStale_memory]
        exact hmid
      · exact hmid
    next => exact hbegin
  | closes file now => exact (checkThrash_checked false file now).entered.onceOnly h

end Observer

theorem OnceOnly.of_nothing (t : Thresholds) (session : Option SessionRow) :
    OnceOnly t ⟨session, [], []⟩ where
  reports := ⟨by simp, by simp, by simp, by simp⟩
  failing := ⟨by simp, by simp⟩
  paired := rfl

/-- Every moment of a crowd keeps what a session remembers free of repeats. -/
theorem Crowd.liveAll_onceOnly {ι : Type} [DecidableEq ι] (i : ι) (moments : List (ι × Moment))
    (w : Crowd ι) (hsessions : Function.Injective fun j => (w.observers j).session)
    (h : OnceOnly (w.observers i).thresholds (w.store.memory (w.observers i).session)) :
    OnceOnly (w.observers i).thresholds
      ((w.liveAll moments).store.memory (w.observers i).session) := by
  -- the observers keep their thresholds
  let kept (o : Observer) (m : Memory) : Prop :=
    o.thresholds = (w.observers i).thresholds ∧ OnceOnly o.thresholds m
  have hstep : ∀ (o : Observer) (s : Store) (m : Moment), kept o (s.memory o.session) →
      kept (o.live s m).1 ((o.live s m).2.memory o.session) := by
    intro o s m ⟨hthresholds, honce⟩
    have hsame := Observer.live_thresholds o s m
    exact ⟨hsame.trans hthresholds, hsame ▸ Observer.live_onceOnly honce m⟩
  obtain ⟨hthresholds, honce⟩ := liveAll_keeps hstep i moments w hsessions ⟨rfl, h⟩
  exact hthresholds ▸ honce

/-- **Patterns are reported once.** Observers of different sessions share a store. Whatever they see,
and in whatever order, the session of an observer that the store did not know has at most one dead end
and one redundant access of each subject, one failed search of each query, one observation of each tool
that keeps failing on a file, and its observed patterns are its reports, one for one. -/
theorem patterns_reported_once {ι : Type} [DecidableEq ι] (w : Crowd ι) (hready : w.Ready)
    (hstore : w.store.Intact) (hsessions : Function.Injective fun j => (w.observers j).session)
    (i : ι) (hnew : w.store.hasSession (w.observers i).session = false)
    (encounters : List (Encounter ι)) :
    OnceOnly (w.observers i).thresholds
      ((w.run encounters).store.memory (w.observers i).session) := by
  rw [w.run_eq_liveAll hready]
  refine Crowd.liveAll_onceOnly i _ w hsessions ?_
  -- nothing is remembered of a session that is not there
  have hempty : w.store.memory (w.observers i).session = Store.empty.memory (w.observers i).session :=
    sameFor_empty hstore hnew
  rw [hempty]
  exact .of_nothing _ none

/-- An observer that reports everything at once, and one with other thresholds. -/
def alarmed : Crowd Bool where
  observers side := .new "/p" (if side then Thresholds.default else ⟨1, 1, 1, 1, 1⟩) .indexed none
    (if side then "right" else "left")
  store := .empty

/-- A symbol is looked up twice and comes and goes twice, while two calls of a tool fail. -/
def alarmedRun : List (Encounter Bool) :=
  let lookup := ⟨"get_symbol", .obj [("file", .str "a.py"), ("symbol", .str "f")], .str "def f", false⟩
  let failing := ⟨"run_tests", .null, .str "timeout", true⟩
  let comes := [.of .added "f" .function none none]
  let goes := [.of .removed "f" .function none none]
  [⟨false, ⟨[], []⟩, .call lookup 0⟩, ⟨false, ⟨[], []⟩, .call lookup 1⟩,
    ⟨false, ⟨[], []⟩, .changes ⟨"a.py", false, comes⟩ 2⟩, ⟨true, ⟨[], []⟩, .changes ⟨"a.py", false, goes⟩ 3⟩,
    ⟨false, ⟨[], []⟩, .changes ⟨"a.py", false, goes⟩ 4⟩, ⟨false, ⟨[], []⟩, .changes ⟨"a.py", false, comes⟩ 5⟩,
    ⟨false, ⟨[], []⟩, .changes ⟨"a.py", false, goes⟩ 6⟩, ⟨false, ⟨[], []⟩, .call failing 7⟩,
    ⟨false, ⟨[], []⟩, .call failing 8⟩]

theorem patterns_reported_once_when_alarmed :
    (alarmed.Ready ∧ Function.Injective (fun side => (alarmed.observers side).session)
      ∧ alarmed.store.hasSession "left" = false)
    ∧ OnceOnly (alarmed.observers false).thresholds ((alarmed.run alarmedRun).store.memory "left")
    ∧ ((alarmed.run alarmedRun).store.eventsOf "left").filterMap (fun e =>
        if e.event.type.isReport then some (e.event.type, e.time) else none)
      = [(.redundantAccess, 0), (.thrashDetected, 2), (.deadEnd, 4)] := by
  have hready : alarmed.Ready := by
    intro side hbegun
    exact absurd hbegun Bool.false_ne_true
  have hinjective : Function.Injective fun side => (alarmed.observers side).session := by decide
  refine ⟨⟨hready, hinjective, by decide⟩, ?_, by decide +kernel⟩
  exact patterns_reported_once alarmed hready Store.intact_empty hinjective false (by decide) alarmedRun

end CodeIndex
