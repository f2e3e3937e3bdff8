import Mathlib
import CodeIndex.Proofs.Session.Crowd

/-!
# What was accessed

An observer keeps in mind which files and symbols its session has looked at, and it also logs every
such look as an event. The two are written in different places, and a change is observed or not by what
is in mind alone. They never come apart: the subjects in mind are those of the logged accesses, in the
same order (`AccountKept`), so whatever is asked of the one can be asked of the other.

A session's account is its logged accesses and its observed changes. Of all that an observer writes, one
event in a lookup adds to the former and one observation in a change adds to the latter (§1, §2).

Main result: `accesses_told_by_log`.
-/

namespace CodeIndex

/-! ## §1. The account of a session. -/

/-- The subjects of the accesses that were logged, in their order. -/
def Memory.accessed (m : Memory) : List (Option String × Option String) :=
  (m.events.filter (·.1.type == .accessed)).map fun e => (e.1.file, e.1.symbol)

/-- The changes that were observed, with the times at which they were. -/
def Memory.changes (m : Memory) : List (NewObservation × Time) :=
  m.observations.filter (·.1.type == .change)

/-- What is added to the account of a session: accesses to subjects, and observed changes. -/
structure Accounted (m m' : Memory) (subjects : List (String × Option String))
    (changes : List (NewObservation × Time)) : Prop where
  accessed : m'.accessed = m.accessed ++ subjects.map fun subject => (some subject.1, subject.2)
  changes : m'.changes = m.changes ++ changes

namespace Accounted

variable {m mid m' : Memory} {subjects subjects' : List (String × Option String)}
  {changes changes' : List (NewObservation × Time)}

theorem refl (m : Memory) : Accounted m m [] [] := ⟨by simp, by simp⟩

theorem trans (first : Accounted m mid subjects changes)
    (second : Accounted mid m' subjects' changes') :
    Accounted m m' (subjects ++ subjects') (changes ++ changes') where
  accessed := by rw [second.accessed, first.accessed, List.append_assoc, List.map_append]
  changes := by rw [second.changes, first.changes, List.append_assoc]

/-- The row of the session is no part of its account. -/
theorem of_eq (hevents : m'.events = m.events) (hobservations : m'.observations = m.observations) :
    Accounted m m' [] [] where
  accessed := by rw [Memory.accessed, hevents, List.map_nil, List.append_nil]; rfl
  changes := by rw [Memory.changes, hobservations, List.append_nil]; rfl

variable {session : String} {s s' : Store}

theorem begun (mode : SessionMode) (label : Option String) :
    Accounted (s.memory session) ((s.createSession session mode label).1.memory session) [] [] := by
  rw [Store.createSession_memory, if_pos rfl]
  exact of_eq rfl rfl

theorem tokens (n : Nat) :
    Accounted (s.memory session) ((s.addTokens session n).memory session) [] [] := by
  rw [Store.addTokens_memory, if_pos rfl]
  exact of_eq rfl rfl

theorem access {file : String} {symbol : Option String} {extra : Option Json} {time : Time} {i : RowId}
    (logged : s.insertEvent session ⟨.accessed, some file, symbol, extra⟩ time = .ok (s', i)) :
    Accounted (s.memory session) (s'.memory session) [(file, symbol)] [] := by
  rw [Store.insertEvent_memory logged, if_pos rfl]
  exact ⟨by simp [Memory.accessed], by simp [Memory.changes]⟩

theorem event {event : NewEvent} {time : Time} {i : RowId}
    (logged : s.insertEvent session event time = .ok (s', i)) (other : event.type ≠ .accessed) :
    Accounted (s.memory session) (s'.memory session) [] [] := by
  rw [Store.insertEvent_memory logged, if_pos rfl]
  exact ⟨by simp [Memory.accessed, other], by simp [Memory.changes]⟩

theorem change {file symbol : Option String} {text : String} {time : Time} {i : RowId}
    (recorded : s.insertObservation session ⟨.change, file, symbol, text⟩ time = .ok (s', i)) :
    Accounted (s.memory session) (s'.memory session) [] [(⟨.change, file, symbol, text⟩, time)] := by
  rw [Store.insertObservation_memory recorded, if_pos rfl]
  exact ⟨by simp [Memory.accessed], by simp [Memory.changes]⟩

theorem observation {observation : NewObservation} {time : Time} {i : RowId}
    (recorded : s.insertObservation session observation time = .ok (s', i))
    (other : observation.type ≠ .change) :
    Accounted (s.memory session) (s'.memory session) [] [] := by
  rw [Store.insertObservation_memory recorded, if_pos rfl]
  exact ⟨by simp [Memory.accessed], by simp [Memory.changes, other]⟩

/-- A check accounts for nothing: reports are no accesses, and patterns and surroundings no changes. -/
theorem check {t : Thresholds} (h : Checked t session s s') :
    Accounted (s.memory session) (s'.memory session) [] [] := by
  cases h with
  | quiet => exact refl _
  | report logged recorded isReport _ isPattern =>
    refine (event logged ?_).trans (observation recorded (by simp [isPattern]))
    intro haccessed
    rw [haccessed] at isReport
    exact absurd isReport (by decide)
  | environment recorded => exact observation recorded (by simp)

end Accounted

/-! ## §2. One moment. -/

namespace Observer

variable {o : Observer} {s : Store}

theorem begin_accounted (o : Observer) (s : Store) :
    Accounted (s.memory o.session) ((o.begin s).2.memory o.session) [] [] := by
  unfold begin
  split
  · exact .refl _
  · exact .begun o.mode o.label

/-- What is accessed by a lookup comes into mind as it is logged, or is neither. -/
theorem onLookup_accounted (o : Observer) (d : Disk) (s : Store) (call : ToolCall) (file : String)
    (now : Time) :
    ∃ subjects, (o.onLookup d s call file now).1.tally.seen = subjects.reverse ++ o.tally.seen
      ∧ Accounted ((o.begin s).2.memory o.session) ((o.onLookup d s call file now).2.memory o.session)
          subjects [] := by
  unfold onLookup
  simp only [begin_fst]
  generalize (o.begin s).2 = s
  split
  · split
    · split
      next s' i logged => exact ⟨[], rfl, .event logged (by simp)⟩
      next => exact ⟨[], rfl, .refl _⟩
    · exact ⟨[], rfl, .refl _⟩
  · split
    next => exact ⟨[], rfl, .refl _⟩
    next s' i logged =>
      refine ⟨[(file, call.symbolArg?)], rfl, ?_⟩
      exact (Accounted.access logged).trans
        ((Accounted.tokens _).trans (.check (checkRedundantAccess_checked _ _ _ _ _)))

theorem onSearch_accounted (o : Observer) (s : Store) (call : ToolCall) (query : String) (now : Time) :
    (o.onSearch s call query now).1.tally.seen = o.tally.seen
      ∧ Accounted ((o.begin s).2.memory o.session) ((o.onSearch s call query now).2.memory o.session)
          [] [] := by
  unfold onSearch
  simp only [begin_fst]
  generalize (o.begin s).2 = s
  split
  · exact ⟨rfl, .tokens _⟩
  · exact ⟨rfl, .check (checkFailedSearch_checked _ _ _ _)⟩

theorem onError_accounted (o : Observer) (s : Store) (call : ToolCall) (file : Option String)
    (now : Time) :
    (o.onError s call file now).1.tally.seen = o.tally.seen
      ∧ Accounted ((o.begin s).2.memory o.session) ((o.onError s call file now).2.memory o.session)
          [] [] := by
  unfold onError
  simp only [begin_fst]
  generalize (o.begin s).2 = s
  split
  next => exact ⟨rfl, .refl _⟩
  next s' i logged =>
    exact ⟨rfl, (Accounted.event logged (by simp)).trans (.check (checkToolErrors_checked _ _ _ _))⟩

/-- A call adds what it accessed to the account and to what is in mind. -/
theorem onToolCall_accounted (o : Observer) (d : Disk) (s : Store) (call : ToolCall) (now : Time) :
    ∃ subjects, (o.onToolCall d s call now).1.tally.seen = subjects.reverse ++ o.tally.seen
      ∧ Accounted (s.memory o.session) ((o.onToolCall d s call now).2.memory o.session)
          subjects [] := by
  have hbegin := begin_accounted o s
  unfold onToolCall
  simp only
  split
  · obtain ⟨hseen, haccount⟩ := onError_accounted o s call (call.targetFile?.map (Path.relative o.root)) now
    exact ⟨[], hseen, hbegin.trans haccount⟩
  · split
    · split
      next file _ =>
        obtain ⟨subjects, hseen, haccount⟩ := onLookup_accounted o d s call file now
        exact ⟨subjects, hseen, hbegin.trans haccount⟩
      next => exact ⟨[], rfl, .refl _⟩
    · split
      next query _ =>
        obtain ⟨hseen, haccount⟩ := onSearch_accounted o s call query now
        exact ⟨[], hseen, hbegin.trans haccount⟩
      next => exact ⟨[], rfl, .refl _⟩
    · exact ⟨[], rfl, .refl _⟩

/-- The change that is observed in a moment, by what is in mind. -/
def Moment.observedBy (t : Tally) : Moment → List (NewObservation × Time)
  | .change file c now =>
    if t.wasAccessed file (some c.symbol) then
      [(⟨.change, some file, some c.symbol, c.description⟩, now)]
    else []
  | _ => []

/-- A change is observed if its symbol is in mind, and adds nothing else to the account. -/
theorem onChange_accounted {s' : Store} {file : String} {c : SymbolChange} {now : Time}
    (h : o.onChange s file c now = .ok s') :
    Accounted (s.memory o.session) (s'.memory o.session) []
      ((Moment.change file c now).observedBy o.tally) := by
  obtain ⟨mid, i, last, logged, hobserved, hchecked⟩ := onChange_steps h
  have hevent : Accounted (s.memory o.session) ((marked mid file c).memory o.session) [] [] := by
    have hmarked : (marked mid file c).memory o.session = mid.memory o.session := by
      unfold marked
      split
      · exact Store.markStale_memory _ _ _
      · rfl
    rw [hmarked]
    refine .event logged ?_
    cases c.kind <;> simp [ChangeKind.eventType]
  have hchange : Accounted ((marked mid file c).memory o.session) (last.memory o.session) []
      ((Moment.change file c now).observedBy o.tally) := by
    simp only [Moment.observedBy]
    split at hobserved
    next hmind =>
      obtain ⟨j, recorded⟩ := hobserved
      rw [if_pos hmind]
      exact .change recorded
    next hmind =>
      rw [if_neg hmind, hobserved]
      exact .refl _
  simpa using (hevent.trans hchange).trans (.check hchecked)

/-- **One moment.** What it accesses is logged as it comes into mind, and its change is observed by
what is in mind. -/
theorem live_accounted (h : o.Ready s) (m : Moment) :
    ∃ subjects, (o.live s m).1.tally.seen = subjects.reverse ++ o.tally.seen
      ∧ Accounted (s.memory o.session) ((o.live s m).2.memory o.session) subjects
          (m.observedBy o.tally) := by
  cases m with
  | call d call now => exact onToolCall_accounted o d s call now
  | change file c now =>
    -- with its session in the store the change cannot be refused
    obtain ⟨s', hchange, -, -⟩ :=
      onChange_log (o := (o.begin s).1) (s := (o.begin s).2)
        (by rw [begin_fst]; exact begin_hasSession h) file c now
    have haccount := onChange_accounted hchange
    refine ⟨[], ?_, ?_⟩
    · simp only [live, hchange]
      rw [begin_fst]
      rfl
    · simp only [live, hchange]
      rw [begin_fst] at haccount
      exact (begin_accounted o s).trans haccount
  | closes file now => exact ⟨[], rfl, .check (checkThrash_checked false file now)⟩

end Observer

/-! ## §3. What is in mind is what is logged. -/

/-- The session of an observer is there if it has begun, and its accesses are those in mind. -/
structure AccountKept (o : Observer) (m : Memory) : Prop where
  ready : o.begun = true → m.session.isSome
  told : m.accessed = o.tally.seen.reverse.map fun subject => (some subject.1, subject.2)

theorem Observer.ready_iff {o : Observer} {s : Store} :
    o.Ready s ↔ (o.begun = true → (s.memory o.session).session.isSome) := by
  unfold Observer.Ready
  rw [Store.hasSession_memory]

/-- Every moment of an observer keeps its account. -/
theorem AccountKept.live (o : Observer) (s : Store) (m : Observer.Moment)
    (h : AccountKept o (s.memory o.session)) :
    AccountKept (o.live s m).1 ((o.live s m).2.memory o.session) := by
  have hready := Observer.ready_iff.mpr h.ready
  obtain ⟨subjects, hseen, haccount⟩ := Observer.live_accounted hready m
  refine ⟨?_, ?_⟩
  · have hlive := Observer.ready_iff.mp (Observer.live_ready hready m)
    rwa [Observer.live_session] at hlive
  · rw [haccount.accessed, h.told, hseen, List.reverse_append, List.reverse_reverse, List.map_append]

/-- What an observer has in mind of accesses is what its session has logged of them. -/
structure AccessesTold (o : Observer) (s : Store) : Prop where
  file : ∀ file, o.tally.wasAccessed file none = s.hasEvent o.session .accessed (some file) none
  symbol : ∀ file symbol, o.tally.wasAccessed file (some symbol)
    = (s.hasEvent o.session .accessed (some file) none
      || s.hasEvent o.session .accessed (some file) (some symbol))
  /-- Each access names a file, and the files are counted without repetitions. -/
  named : ∀ e ∈ s.eventsOf o.session, e.event.type = .accessed → e.event.file.isSome = true
  files : o.tally.accessedFiles
    = (((s.eventsOf o.session).filter (·.event.type == .accessed)).map (·.event.file)).toFinset.card

/-- To erase repetitions and count is to count what is different. -/
theorem length_eraseDups {α : Type} [DecidableEq α] (l : List α) :
    l.eraseDups.length = l.toFinset.card := by
  rw [← List.toFinset_card_of_nodup (nodup_eraseDups l)]
  congr 1
  ext a
  simp [List.mem_eraseDups]

namespace AccountKept

variable {o : Observer} {s : Store} (h : AccountKept o (s.memory o.session))

include h

/-- An access is logged for exactly the subjects in mind. -/
theorem hasEvent (file : String) (symbol : Option String) :
    s.hasEvent o.session .accessed (some file) symbol = o.tally.seen.contains (file, symbol) := by
  have hmem : s.hasEvent o.session .accessed (some file) symbol = true ↔
      (some file, symbol) ∈ (s.memory o.session).accessed := by
    rw [Store.hasEvent_memory, List.any_eq_true]
    simp [Memory.accessed, and_assoc]
  rw [Bool.eq_iff_iff, hmem, h.told]
  simp

/-- **From the account, what is in mind is what is logged.** -/
theorem accessesTold : AccessesTold o s := by
  have hlog : ((s.eventsOf o.session).filter (·.event.type == .accessed)).map
      (fun e => (e.event.file, e.event.symbol)) = (s.memory o.session).accessed := by
    unfold Memory.accessed Store.memory
    rw [List.filter_map, List.map_map]
    rfl
  refine ⟨?_, ?_, ?_, ?_⟩
  · intro file
    rw [h.hasEvent, Tally.wasAccessed, Bool.or_self]
  · intro file symbol
    rw [h.hasEvent, h.hasEvent, Tally.wasAccessed]
  · intro e he htype
    have hmem : (e.event.file, e.event.symbol) ∈ (s.memory o.session).accessed := by
      rw [← hlog]
      exact List.mem_map_of_mem (List.mem_filter.mpr ⟨he, by simp [htype]⟩)
    rw [h.told] at hmem
    obtain ⟨subject, -, hsubject⟩ := List.mem_map.mp hmem
    rw [← (Prod.mk.inj hsubject).1]
    rfl
  · -- the files of the log are those in mind, so there are as many different ones
    have hfiles : ((s.eventsOf o.session).filter (·.event.type == .accessed)).map (·.event.file)
        = ((o.tally.seen.map (·.1)).map some).reverse := by
      have hfst := congrArg (List.map (·.1)) (hlog.trans h.told)
      simpa [List.map_map, Function.comp_def] using hfst
    rw [hfiles, Tally.accessedFiles, length_eraseDups, List.toFinset_reverse]
    have himage : ((o.tally.seen.map (·.1)).map some).toFinset
        = (o.tally.seen.map (·.1)).toFinset.image some := by
      ext file
      simp
    rw [himage, Finset.card_image_of_injective _ (Option.some_injective _)]

end AccountKept

/-! ## §4. Runs. -/

open Observer (Moment)

/-- The change that is observed in a moment, by what a session has logged. -/
def Observer.Moment.observedFrom (s : Store) (session : String) :
    Moment → List (NewObservation × Time)
  | .change file c now =>
    if s.hasEvent session .accessed (some file) none
        || s.hasEvent session .accessed (some file) (some c.symbol) then
      [(⟨.change, some file, some c.symbol, c.description⟩, now)]
    else []
  | _ => []

theorem AccessesTold.observed {o : Observer} {s : Store} (h : AccessesTold o s) (m : Moment) :
    m.observedBy o.tally = m.observedFrom s o.session := by
  cases m with
  | change file c now => rw [Moment.observedBy, Moment.observedFrom, h.symbol]
  | call | closes => rfl

/-- What the log of one observer's session tells of its accesses, throughout a run that is told in
moments. -/
structure ToldThroughout {ι : Type} [DecidableEq ι] (w : Crowd ι) (i : ι)
    (encounters : List (Encounter ι)) : Prop where
  run : w.run encounters = w.liveAll (encounters.flatMap Encounter.moments)
  /-- At every point, what is in mind is what is logged. -/
  accesses : ∀ before after, encounters.flatMap Encounter.moments = before ++ after →
    AccessesTold ((w.liveAll before).observers i) (w.liveAll before).store
  /-- A change that the observer sees is observed if its symbol, or the whole file, was logged as
  accessed before; nothing else adds a change to what its session has observed. -/
  changes : ∀ before m after, encounters.flatMap Encounter.moments = before ++ m :: after →
    ((w.liveAll (before ++ [m])).store.memory (w.observers i).session).changes
      = ((w.liveAll before).store.memory (w.observers i).session).changes
        ++ if m.1 = i then m.2.observedFrom (w.liveAll before).store (w.observers i).session else []

/-- **Accesses are told by the log.** Observers of different sessions share a store, and see calls and
changes of files in any order. What an observer that had seen nothing keeps in mind of accesses is, at
every moment, what its session has logged, and each change is observed or not by that log. -/
theorem accesses_told_by_log {ι : Type} [DecidableEq ι] (w : Crowd ι) (hready : w.Ready)
    (hstore : w.store.Intact) (hsessions : Function.Injective fun j => (w.observers j).session)
    (i : ι) {root session : String} {t : Thresholds} {mode : SessionMode} {label : Option String}
    (hnew : w.observers i = .new root t mode label session) (hunknown : w.store.hasSession session = false)
    (encounters : List (Encounter ι)) : ToldThroughout w i encounters := by
  have hname : (w.observers i).session = session := by rw [hnew]; rfl
  -- an observer that has seen nothing has no access in mind, and nothing is remembered of its session
  have hstart : AccountKept (w.observers i) (w.store.memory (w.observers i).session) := by
    have hempty : w.store.memory (w.observers i).session = Store.empty.memory (w.observers i).session :=
      sameFor_empty hstore (by rw [hname]; exact hunknown)
    rw [hempty, hnew]
    exact ⟨fun hbegun => absurd hbegun Bool.false_ne_true, rfl⟩
  have hsession : ∀ moments j, ((w.liveAll moments).observers j).session = (w.observers j).session := by
    intro moments j
    rw [w.liveAll_eq_doAll]
    exact w.doAll_session Observer.living j moments
  have hkept : ∀ moments, AccountKept ((w.liveAll moments).observers i)
      ((w.liveAll moments).store.memory ((w.liveAll moments).observers i).session) := by
    intro moments
    rw [hsession moments i]
    exact Crowd.liveAll_keeps AccountKept.live i moments w hsessions hstart
  refine ⟨w.run_eq_liveAll hready encounters, ?_, ?_⟩
  · intro before after _
    exact (hkept before).accessesTold
  · intro before m after _
    have htold := (hkept before).accessesTold
    rw [w.liveAll_append]
    show (((w.liveAll before).live m).store.memory _).changes = _
    rw [← hsession before i]
    by_cases hi : m.1 = i
    · subst hi
      obtain ⟨_, -, haccount⟩ := Observer.live_accounted (hready.liveAll before m.1) m.2
      rw [if_pos rfl, ← htold.observed]
      exact haccount.changes
    · have hinjective : Function.Injective fun j => ((w.liveAll before).observers j).session := by
        simpa only [hsession] using hsessions
      have hother := Crowd.act_memory_of_ne Observer.living hinjective (Ne.symm hi) m.2
      rw [if_neg hi, List.append_nil, ← hother]
      rfl

/-- Two observers that have seen nothing, on an empty store. -/
def readers : Crowd Bool where
  observers side := .new "/p" Thresholds.default .indexed none (if side then "right" else "left")
  store := .empty

/-- The left one looks a symbol up in one file and reads another one. A lookup by the right one finds
nothing. Then both see the symbol and another one of its file go, and the left one sees a change of
what it read. -/
def readersRun : List (Encounter Bool) :=
  let disk : Disk := ⟨[], []⟩
  let gone := ⟨"a.py", false, [.of .removed "f" .function none none, .of .removed "g" .function none none]⟩
  [⟨false, disk, .call ⟨"get_symbol", .obj [("file", .str "a.py"), ("symbol", .str "f")], .str "def f", false⟩ 0⟩,
    ⟨true, disk, .call ⟨"get_symbol", .obj [("file", .str "a.py"), ("symbol", .str "f")], .null, false⟩ 1⟩,
    ⟨false, disk, .call ⟨"read_file", .obj [("path", .str "/p/b.py")], .str "x = 1", false⟩ 2⟩,
    ⟨false, disk, .changes gone 3⟩, ⟨true, disk, .changes gone 4⟩,
    ⟨false, disk, .changes ⟨"b.py", false, [.of .added "h" .method none none]⟩ 5⟩]

theorem accesses_told_by_log_of_readers :
    (readers.Ready ∧ Function.Injective (fun side => (readers.observers side).session)
      ∧ readers.store.hasSession "left" = false)
    ∧ ToldThroughout readers false readersRun
    ∧ ((readers.run readersRun).store.memory "left").changes.map (fun o => (o.1.file, o.1.symbol, o.2))
      = [(some "a.py", some "f", 3), (some "b.py", some "h", 5)] := by
  have hready : readers.Ready := by
    intro side hbegun
    exact absurd hbegun Bool.false_ne_true
  have hinjective : Function.Injective fun side => (readers.observers side).session := by decide
  refine ⟨⟨hready, hinjective, by decide⟩, ?_, by decide +kernel⟩
  exact accesses_told_by_log readers hready Store.intact_empty hinjective false rfl (by decide) readersRun

end CodeIndex
