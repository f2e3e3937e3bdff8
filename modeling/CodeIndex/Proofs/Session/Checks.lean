import Mathlib
import CodeIndex.Proofs.Session.Details

/-!
# What a check can do

The five checks look at different things, but there is little that a check can come to: it says
nothing, it fails, it writes a report (an event and an observation), or it writes an observation
alone. What holds of a store whatever a check does to it is proved from these four cases, and not
from the checks.
-/

namespace CodeIndex

/-- The change of a symbol that a type of event logs. -/
def EventType.change? : EventType → Option ChangeKind
  | .symbolAdded => some .added
  | .symbolRemoved => some .removed
  | .sigChanged => some .sigChanged
  | _ => none

theorem change?_eventType (kind : ChangeKind) : kind.eventType.change? = some kind := by
  cases kind <;> rfl

/-- What a check of a session may come to. -/
inductive CheckOutcome (s : Store) (session : String) (now : Time) :
    Except CheckError (Store × Bool) → Prop where
  /-- There is nothing to report. -/
  | quiet : CheckOutcome s session now (.ok (s, false))
  /-- Something was to be reported, or a time could not be told, and the check failed. -/
  | failed (e : CheckError) : CheckOutcome s session now (.error e)
  /-- An event and an observation were written; the event is no change of a symbol, and the count that it
  may have is one of 64 bits as long as the log has no more events than that. -/
  | report {event : NewEvent} {observation : NewObservation} {mid s' : Store} {i j : RowId}
      (logged : s.insertEvent session event now = .ok (mid, i))
      (recorded : mid.insertObservation session observation now = .ok (s', j))
      (noChange : event.type.change? = none)
      (readsBack : s.events.length < unsignedEnd → event.ReadsBack) :
      CheckOutcome s session now (.ok (s', true))
  /-- An observation was written. -/
  | note {observation : NewObservation} {s' : Store} {i : RowId}
      (recorded : s.insertObservation session observation now = .ok (s', i)) :
      CheckOutcome s session now (.ok (s', true))

variable (s : Store) (session : String) (now : Time)

theorem reported_outcome (nested : Bool) (event : NewEvent) (observation : NewObservation)
    (noChange : event.type.change? = none)
    (readsBack : s.events.length < unsignedEnd → event.ReadsBack) :
    CheckOutcome s session now (reported (emit nested s session event observation now)) := by
  unfold reported emit
  cases nested with
  -- a report is a transaction, which cannot begin inside another
  | true => exact .failed _
  | false =>
    cases hevent : s.insertEvent session event now with
    | error e => exact .failed _
    | ok logged =>
      obtain ⟨mid, i⟩ := logged
      cases hobs : mid.insertObservation session observation now with
      | error e => simpa [Except.map, hobs] using CheckOutcome.failed (.store e)
      | ok recorded =>
        obtain ⟨s', j⟩ := recorded
        simpa [Except.map, hobs] using CheckOutcome.report hevent hobs noChange readsBack

/-- No more events are counted than are logged. -/
theorem countEventsSince_le (types : List EventType) (file : String) (since : Time) :
    s.countEventsSince session types file since ≤ s.events.length := by
  unfold Store.countEventsSince Store.eventsOf
  exact (List.length_filter_le _ _).trans (List.length_filter_le _ _)

theorem checkDeadEnd_outcome (nested : Bool) (file symbol : String) :
    CheckOutcome s session now (checkDeadEnd nested s session file symbol now) := by
  unfold checkDeadEnd
  split
  · exact .quiet
  · exact reported_outcome s session now nested _ _ rfl fun _ => NewEvent.readsBack_of_none rfl

theorem checkThrash_outcome (t : Thresholds) (nested : Bool) (file : String) :
    CheckOutcome s session now (checkThrash t nested s session file now) := by
  unfold checkThrash
  cases windowStart t now with
  | error e => exact .failed e
  | ok since =>
    simp only [bind, Except.bind]
    split
    · exact .quiet
    · refine reported_outcome s session now nested _ _ rfl fun hlog => ?_
      have hcount := lt_of_le_of_lt (countEventsSince_le s session EventType.activity file since) hlog
      exact NewEvent.readsBack_of_flat rfl (by simpa using Json.isWhole_nat hcount) rfl

theorem checkRedundantAccess_outcome (t : Thresholds) (nested : Bool) (file : String)
    (symbol : Option String) (count : UInt32) :
    CheckOutcome s session now (checkRedundantAccess t nested s session file symbol count now) := by
  unfold checkRedundantAccess
  split
  · exact .quiet
  · refine reported_outcome s session now nested _ _ rfl fun _ => ?_
    exact NewEvent.readsBack_of_flat rfl (by simpa using Json.isWhole_count count) rfl

theorem checkFailedSearch_outcome (t : Thresholds) (nested : Bool) (query : String)
    (attempts : UInt32) :
    CheckOutcome s session now (checkFailedSearch t nested s session query attempts now) := by
  unfold checkFailedSearch
  split
  · exact .quiet
  · refine reported_outcome s session now nested _ _ rfl fun _ => ?_
    exact NewEvent.readsBack_of_flat rfl
      (by simpa using ⟨Json.isWhole_count attempts, Json.IsWhole.str query⟩) rfl

/-- The text of what is observed about a tool that keeps failing. -/
def toolErrorText (tool : String) (file : Option String) (count : Nat) : String :=
  tool ++ " failed " ++ toString count ++ " times"
    ++ (match file with
      | some file => " on " ++ file
      | none => "")

theorem checkToolErrors_eq (t : Thresholds) (tool : String) (file : Option String) (count : UInt32) :
    checkToolErrors t s session tool file count now =
      if count ≠ t.toolError
          || s.hasObservation session .environment file (toolErrorText tool file count) then
        .ok (s, false)
      else
        match s.insertObservation session
            ⟨.environment, file, none, toolErrorText tool file count⟩ now with
        | .ok (s, _) => .ok (s, true)
        | .error e => .error (.store e) := rfl

theorem checkToolErrors_outcome (t : Thresholds) (tool : String) (file : Option String)
    (count : UInt32) :
    CheckOutcome s session now (checkToolErrors t s session tool file count now) := by
  rw [checkToolErrors_eq]
  split
  · exact .quiet
  · split
    next s' i hobs => exact .note hobs
    next => exact .failed _

end CodeIndex
