import Mathlib
import CodeIndex.Proofs.Session.Memory

/-!
# The log of changes

Among the events of all sessions, in the order of their rows, some log that a symbol of a file came,
went or changed. An observer that is told of the changes of a file logs each of them once, in their
order, and nothing that it logs besides is a change. Nothing can stop it half-way: its session is in
the store before it writes.

Main result: `onFileDiff_log`.
-/

namespace CodeIndex

/-! ## §1. The log. -/

/-- A change that is logged: the file, the name of the symbol and what happened to it. -/
structure LoggedChange where
  file : String
  name : String
  kind : ChangeKind
  deriving DecidableEq, Repr

/-- The change that an event logs. -/
def NewEvent.change? (e : NewEvent) : Option LoggedChange := do
  return ⟨← e.file, ← e.symbol, ← e.type.change?⟩

/-- The changes that a report lists. -/
def FileDiff.listed (diff : FileDiff) : List LoggedChange :=
  diff.changes.map fun c => ⟨diff.path, c.symbol, c.kind⟩

namespace Store

/-- The changes that sessions have logged, in the order of the rows. -/
def changeLog (s : Store) : List LoggedChange := s.events.filterMap (·.event.change?)

/-- What has been logged of one name in one file. -/
def changeLogOf (s : Store) (file name : String) : List ChangeKind :=
  (s.changeLog.filter fun c => c.file == file && c.name == name).map (·.kind)

variable {s s' : Store} {session : String}

theorem insertEvent_changeLog {event : NewEvent} {time : Time} {i : RowId}
    (h : s.insertEvent session event time = .ok (s', i)) :
    s'.changeLog = s.changeLog ++ event.change?.toList := by
  unfold insertEvent at h
  split at h
  next =>
    injection h with h
    injection h with h
    subst h
    unfold changeLog
    rw [List.filterMap_append]
    cases hchange : event.change? <;> simp [hchange]
  next => exact absurd h (by simp)

theorem insertObservation_changeLog {observation : NewObservation} {time : Time} {i : RowId}
    (h : s.insertObservation session observation time = .ok (s', i)) :
    s'.changeLog = s.changeLog := by
  unfold insertObservation at h
  split at h
  next =>
    injection h with h
    injection h with h
    subst h
    rfl
  next => exact absurd h (by simp)

theorem markStale_changeLog (file : String) (symbol : Option String) (reason : String) :
    (s.markStale file symbol reason).1.changeLog = s.changeLog := rfl

theorem createSession_changeLog (mode : SessionMode) (label : Option String) :
    (s.createSession session mode label).1.changeLog = s.changeLog := rfl

end Store

/-- An event that is no change adds nothing to the log. -/
theorem NewEvent.change?_of_type {e : NewEvent} (h : e.type.change? = none) : e.change? = none := by
  unfold NewEvent.change?
  rw [h]
  cases e.file <;> cases e.symbol <;> rfl

/-- A session that is in the store stays there. -/
theorem SessionWrites.hasSession {session id : String} {s s' : Store} (h : SessionWrites session s s')
    (hid : s.hasSession id = true) : s'.hasSession id = true := by
  induction h with
  | none => exact hid
  | create s mode label =>
    unfold Store.hasSession Store.createSession at *
    rw [List.any_append, hid]
    rfl
  | tokens s n =>
    rw [Store.hasSession_memory] at hid ⊢
    rw [Store.addTokens_memory]
    split
    · simpa using hid
    · exact hid
  | event logged =>
    rw [Store.hasSession_memory] at hid ⊢
    rw [Store.insertEvent_memory logged]
    split <;> exact hid
  | observation recorded =>
    rw [Store.hasSession_memory] at hid ⊢
    rw [Store.insertObservation_memory recorded]
    split <;> exact hid
  | stale => exact hid
  | trans _ _ ih₁ ih₂ => exact ih₂ (ih₁ hid)

/-- What a check writes is no change. -/
theorem CheckOutcome.changeLog {s s' : Store} {session : String} {now : Time} {fired : Bool}
    (h : CheckOutcome s session now (.ok (s', fired))) : s'.changeLog = s.changeLog := by
  cases h with
  | quiet => rfl
  | report logged recorded noChange =>
    rw [Store.insertObservation_changeLog recorded, Store.insertEvent_changeLog logged,
      NewEvent.change?_of_type noChange]
    simp
  | note recorded => rw [Store.insertObservation_changeLog recorded]

theorem CheckOutcome.afterCheck_changeLog {s : Store} {session : String} {now : Time}
    {result : Except CheckError (Store × Bool)} (h : CheckOutcome s session now result) :
    (Observer.afterCheck s result).changeLog = s.changeLog := by
  cases result with
  | error e => rfl
  | ok done => exact h.changeLog

/-! ## §2. Observing changes. -/

namespace Observer

/-- A change is logged. -/
theorem onChange_log {o : Observer} {s : Store} (h : s.hasSession o.session = true) (file : String)
    (c : SymbolChange) (now : Time) :
    ∃ s', o.onChange s file c now = .ok s' ∧ s'.hasSession o.session = true
      ∧ s'.changeLog = s.changeLog ++ [⟨file, c.symbol, c.kind⟩] := by
  obtain ⟨mid, i, hevent⟩ := Store.insertEvent_accepted h
    ⟨c.kind.eventType, some file, some c.symbol, some (changeDetails c)⟩ now
  have hmid : mid.changeLog = s.changeLog ++ [⟨file, c.symbol, c.kind⟩] := by
    rw [Store.insertEvent_changeLog hevent]
    simp [NewEvent.change?, change?_eventType]
  have hmidsession := (SessionWrites.event hevent).hasSession h
  -- what is marked as stale changes nothing about the session or the log
  obtain ⟨stale, hstale, hstalesession, hstalelog⟩ : ∃ stale,
      (if c.kind.invalidates then (mid.markStale file (some c.symbol) c.description).1 else mid) = stale
        ∧ stale.hasSession o.session = true ∧ stale.changeLog = mid.changeLog := by
    split
    · exact ⟨_, rfl, hmidsession, Store.markStale_changeLog _ _ _⟩
    · exact ⟨_, rfl, hmidsession, rfl⟩
  -- nor does an observation of the change
  obtain ⟨last, hlast, hlastlog⟩ : ∃ last,
      (if o.tally.wasAccessed file (some c.symbol) then
        (·.1) <$> stale.insertObservation o.session
          ⟨.change, some file, some c.symbol, c.description⟩ now
        else pure stale) = .ok last ∧ last.changeLog = stale.changeLog := by
    split
    · obtain ⟨last, j, hobservation⟩ := Store.insertObservation_accepted hstalesession
        ⟨.change, some file, some c.symbol, c.description⟩ now
      exact ⟨last, by rw [hobservation]; rfl, Store.insertObservation_changeLog hobservation⟩
    · exact ⟨stale, rfl, rfl⟩
  have hok : o.onChange s file c now = .ok (if c.kind = .removed then
      afterCheck last (checkDeadEnd false last o.session file c.symbol now) else last) := by
    unfold onChange
    simp only [hevent, bind, Except.bind, hstale]
    by_cases haccessed : o.tally.wasAccessed file (some c.symbol) = true
    · rw [if_pos haccessed] at hlast ⊢
      rw [hlast]
      rfl
    · rw [if_neg haccessed] at hlast ⊢
      rw [hlast]
      rfl
  refine ⟨_, hok, (onChange_writes hok).hasSession h, ?_⟩
  have hlog : (if c.kind = .removed then
      afterCheck last (checkDeadEnd false last o.session file c.symbol now) else last).changeLog
      = last.changeLog := by
    split
    · exact (checkDeadEnd_outcome _ _ _ _ _ _).afterCheck_changeLog
    · rfl
  rw [hlog, hlastlog, hstalelog, hmid]

theorem onChanges_log {o : Observer} (file : String) (now : Time) (changes : List SymbolChange) :
    ∀ {s : Store}, s.hasSession o.session = true →
      ∃ s', o.onChanges s file now changes = (s', .ok ()) ∧ s'.hasSession o.session = true
        ∧ s'.changeLog = s.changeLog ++ changes.map fun c => ⟨file, c.symbol, c.kind⟩ := by
  induction changes with
  | nil => intro s h; exact ⟨s, rfl, h, by simp⟩
  | cons c rest ih =>
    intro s h
    obtain ⟨mid, hchange, hmid, hlog⟩ := onChange_log h file c now
    obtain ⟨s', hrest, hs', hlog'⟩ := ih hmid
    refine ⟨s', ?_, hs', ?_⟩
    · rw [onChanges, hchange]
      exact hrest
    · rw [hlog', hlog, List.append_assoc]
      rfl

/-- An observer whose session has begun finds it in the store. -/
def Ready (o : Observer) (s : Store) : Prop := o.begun = true → s.hasSession o.session = true

theorem begin_hasSession {o : Observer} {s : Store} (h : o.Ready s) :
    (o.begin s).2.hasSession o.session = true := by
  unfold begin
  split
  next hbegun => exact h hbegun
  next => simp [Store.hasSession, Store.createSession]

theorem begin_changeLog (o : Observer) (s : Store) : (o.begin s).2.changeLog = s.changeLog := by
  unfold begin
  split
  · rfl
  · exact Store.createSession_changeLog _ _

/-- **The changes of a file are logged**, each once and in their order, whatever the checks come to.
A first reading has no changes. -/
theorem onFileDiff_log {o : Observer} {s : Store} (h : o.Ready s) {diff : FileDiff}
    (hfirst : diff.isFirst = true → diff.changes = []) (now : Time) :
    (o.onFileDiff s diff now).store.changeLog = s.changeLog ++ diff.listed
      ∧ (o.onFileDiff s diff now).observer.Ready (o.onFileDiff s diff now).store := by
  have hwrites := onFileDiff_writes o s diff now
  unfold onFileDiff at hwrites ⊢
  split
  next hnone =>
    have hempty : diff.changes = [] := by
      rcases Bool.or_eq_true_iff.mp hnone with hf | he
      · exact hfirst hf
      · exact List.isEmpty_iff.mp he
    exact ⟨by simp [FileDiff.listed, hempty], h⟩
  next hsome =>
    rw [if_neg hsome] at hwrites
    have hsession := begin_hasSession h
    have hbegin := begin_changeLog o s
    simp only [begin_fst] at hwrites ⊢
    generalize (o.begin s).2 = mid at hsession hbegin hwrites ⊢
    obtain ⟨last, hchanges, hlast, hlog⟩ :=
      @onChanges_log { o with begun := true } diff.path now diff.changes mid hsession
    rw [hchanges] at hwrites ⊢
    simp only at hwrites ⊢
    have hout := checkThrash_outcome last o.session now o.thresholds false diff.path
    have hlisted : last.changeLog = s.changeLog ++ diff.listed := by rw [hlog, hbegin]; rfl
    -- the check for thrashing adds no change, and a crash in it comes after the changes
    split
    next s'' fired hok =>
      rw [hok] at hout
      exact ⟨hout.changeLog.trans hlisted, fun _ => (SessionWrites.of_outcome hout).hasSession hlast⟩
    next => exact ⟨hlisted, fun _ => hlast⟩
    next => exact ⟨hlisted, fun _ => hlast⟩

end Observer

end CodeIndex
