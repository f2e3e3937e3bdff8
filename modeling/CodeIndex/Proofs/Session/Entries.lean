import Mathlib
import CodeIndex.Proofs.Session.Interleaving
import CodeIndex.Proofs.Session.ChangeLog

/-!
# What an observer enters into its session

`SessionWrites` tells the writes of an observer apart by table. Here they are told apart by what they
are for, with the guard under which each of them is made:

  event         logs a call or a change
  change        observes that something which was looked at has changed
  report        logs a pattern and observes it, unless the pattern has been reported
  environment   observes that a tool keeps failing, unless that has been observed

Marks on stale observations are no entries. An observer makes entries only, but for one mark in the
middle of a change that invalidates what is known (`onChange_steps`). A check makes reports and
observations of the surroundings only (`Checked`).
-/

namespace CodeIndex

/-! ## §1. Entries. -/

/-- Whether a type of event reports a pattern. -/
def EventType.isReport : EventType → Bool
  | .deadEnd => true
  | .thrashDetected => true
  | .redundantAccess => true
  | .failedSearch => true
  | _ => false

/-- What a report would say has not been reported by the session: of its subject, or of its query.
Thrashing may be reported again. -/
def Store.Unreported (s : Store) (session : String) (event : NewEvent) : Prop :=
  match event.type with
  | .deadEnd => s.hasEvent session .deadEnd event.file event.symbol = false
  | .redundantAccess => s.hasEvent session .redundantAccess event.file event.symbol = false
  | .failedSearch => ∃ query, event.extra.bind Store.queryText? = some query
      ∧ s.hasEventFor session .failedSearch query = false
  | _ => True

/-- A store is reached from another by entries of a session, under given thresholds. -/
inductive Entered (t : Thresholds) (session : String) : Store → Store → Prop where
  | none (s : Store) : Entered t session s s
  | create (s : Store) (mode : SessionMode) (label : Option String) :
      Entered t session s (s.createSession session mode label).1
  | tokens (s : Store) (n : Nat) : Entered t session s (s.addTokens session n)
  | event {s s' : Store} {event : NewEvent} {time : Time} {i : RowId}
      (logged : s.insertEvent session event time = .ok (s', i)) (plain : event.type.isReport = false) :
      Entered t session s s'
  | change {s s' : Store} {observation : NewObservation} {time : Time} {i : RowId}
      (recorded : s.insertObservation session observation time = .ok (s', i))
      (isChange : observation.type = .change) : Entered t session s s'
  | report {s mid s' : Store} {event : NewEvent} {observation : NewObservation} {time : Time} {i j : RowId}
      (logged : s.insertEvent session event time = .ok (mid, i))
      (recorded : mid.insertObservation session observation time = .ok (s', j))
      (isReport : event.type.isReport = true) (unreported : s.Unreported session event)
      (isPattern : observation.type = .antiPattern) (file : observation.file = event.file)
      (symbol : observation.symbol = event.symbol) : Entered t session s s'
  | environment {s s' : Store} {tool : String} {file : Option String} {time : Time} {i : RowId}
      (recorded : s.insertObservation session
        ⟨.environment, file, Option.none, toolErrorText tool file t.toolError⟩ time = .ok (s', i))
      (unrecorded : s.hasObservation session .environment file
        (toolErrorText tool file t.toolError) = false) : Entered t session s s'
  | trans {s mid s' : Store} (first : Entered t session s mid) (second : Entered t session mid s') :
      Entered t session s s'

variable {t : Thresholds} {session : String} {s s' : Store}

theorem Entered.writes (h : Entered t session s s') : SessionWrites session s s' := by
  induction h with
  | none s => exact .none s
  | create s mode label => exact .create s mode label
  | tokens s n => exact .tokens s n
  | event logged => exact .event logged
  | change recorded => exact .observation recorded
  | report logged recorded => exact (SessionWrites.event logged).trans (.observation recorded)
  | environment recorded => exact .observation recorded
  | trans _ _ ih₁ ih₂ => exact ih₁.trans ih₂

theorem Store.insertEvent_observations {event : NewEvent} {time : Time} {i : RowId}
    (h : s.insertEvent session event time = .ok (s', i)) : s'.observations = s.observations := by
  unfold Store.insertEvent at h
  split at h
  · injection h with h
    injection h with h
    subst h
    rfl
  · exact absurd h (by simp)

theorem Store.insertObservation_observations {observation : NewObservation} {time : Time} {i : RowId}
    (h : s.insertObservation session observation time = .ok (s', i)) :
    s'.observations = s.observations ++ [⟨i, session, observation, false, none, time⟩] := by
  unfold Store.insertObservation at h
  split at h
  · injection h with h
    injection h with h h'
    subst h h'
    rfl
  · exact absurd h (by simp)

/-- Nothing has been said against the observation. -/
def ObservationRow.Fresh (o : ObservationRow) : Prop := o.stale = false ∧ o.staleReason = Option.none

/-- Entries leave the observations there are alone, and add fresh ones. -/
theorem Entered.observations (h : Entered t session s s') :
    ∃ new, s'.observations = s.observations ++ new ∧ ∀ o ∈ new, o.Fresh := by
  -- each entry adds one observation at most
  have hone : ∀ {s s' : Store} {observation : NewObservation} {time : Time} {i : RowId},
      s.insertObservation session observation time = .ok (s', i) →
      ∃ new, s'.observations = s.observations ++ new ∧ ∀ o ∈ new, o.Fresh := by
    intro s s' observation time i recorded
    refine ⟨_, Store.insertObservation_observations recorded, fun o ho => ?_⟩
    rw [List.mem_singleton.mp ho]
    exact ⟨rfl, rfl⟩
  induction h with
  | none | create | tokens => exact ⟨[], (List.append_nil _).symm, by simp⟩
  | event logged =>
    exact ⟨[], by rw [Store.insertEvent_observations logged, List.append_nil], by simp⟩
  | change recorded => exact hone recorded
  | report logged recorded =>
    rw [← Store.insertEvent_observations logged]
    exact hone recorded
  | environment recorded => exact hone recorded
  | trans _ _ ih₁ ih₂ =>
    obtain ⟨new₁, heq₁, hfresh₁⟩ := ih₁
    obtain ⟨new₂, heq₂, hfresh₂⟩ := ih₂
    refine ⟨new₁ ++ new₂, by rw [heq₂, heq₁, List.append_assoc], fun o ho => ?_⟩
    rcases List.mem_append.mp ho with ho | ho
    · exact hfresh₁ o ho
    · exact hfresh₂ o ho

/-! ## §2. Checks. -/

/-- What a check of a session may write: a report, or that a tool keeps failing. -/
inductive Checked (t : Thresholds) (session : String) : Store → Store → Prop where
  | quiet (s : Store) : Checked t session s s
  | report {s mid s' : Store} {event : NewEvent} {observation : NewObservation} {time : Time} {i j : RowId}
      (logged : s.insertEvent session event time = .ok (mid, i))
      (recorded : mid.insertObservation session observation time = .ok (s', j))
      (isReport : event.type.isReport = true) (unreported : s.Unreported session event)
      (isPattern : observation.type = .antiPattern) (file : observation.file = event.file)
      (symbol : observation.symbol = event.symbol) : Checked t session s s'
  | environment {s s' : Store} {tool : String} {file : Option String} {time : Time} {i : RowId}
      (recorded : s.insertObservation session
        ⟨.environment, file, Option.none, toolErrorText tool file t.toolError⟩ time = .ok (s', i))
      (unrecorded : s.hasObservation session .environment file
        (toolErrorText tool file t.toolError) = false) : Checked t session s s'

theorem Checked.entered (h : Checked t session s s') : Entered t session s s' := by
  cases h with
  | quiet => exact .none s
  | report logged recorded isReport unreported isPattern file symbol =>
    exact .report logged recorded isReport unreported isPattern file symbol
  | environment recorded unrecorded => exact .environment recorded unrecorded

open Observer (afterCheck)

/-- A report that was to be made is what the check writes, or the store takes none of it. -/
theorem reported_checked (nested : Bool) {event : NewEvent} {observation : NewObservation} (now : Time)
    (isReport : event.type.isReport = true) (unreported : s.Unreported session event)
    (isPattern : observation.type = .antiPattern) (file : observation.file = event.file)
    (symbol : observation.symbol = event.symbol) :
    Checked t session s (afterCheck s (reported (emit nested s session event observation now))) := by
  unfold reported emit
  split
  · exact .quiet s
  · cases hevent : s.insertEvent session event now with
    | error e => exact .quiet s
    | ok logged =>
      obtain ⟨mid, i⟩ := logged
      cases hobservation : mid.insertObservation session observation now with
      | error e => simpa [Except.map, hobservation, afterCheck] using Checked.quiet s
      | ok recorded =>
        obtain ⟨s', j⟩ := recorded
        simpa [Except.map, hobservation, afterCheck] using
          Checked.report hevent hobservation isReport unreported isPattern file symbol

theorem checkDeadEnd_checked (nested : Bool) (file symbol : String) (now : Time) :
    Checked t session s (afterCheck s (checkDeadEnd nested s session file symbol now)) := by
  unfold checkDeadEnd
  split
  · exact .quiet s
  next hguard =>
    refine reported_checked nested now rfl ?_ rfl rfl rfl
    show s.hasEvent session .deadEnd (some file) (some symbol) = false
    simp only [Bool.or_eq_true, not_or, Bool.not_eq_true] at hguard
    exact hguard.2

theorem checkThrash_checked (nested : Bool) (file : String) (now : Time) :
    Checked t session s (afterCheck s (checkThrash t nested s session file now)) := by
  unfold checkThrash
  cases windowStart t now with
  | error e => exact .quiet s
  | ok since =>
    simp only [bind, Except.bind]
    split
    · exact .quiet s
    · exact reported_checked nested now rfl trivial rfl rfl rfl

theorem checkRedundantAccess_checked (nested : Bool) (file : String) (symbol : Option String)
    (count : UInt32) (now : Time) :
    Checked t session s
      (afterCheck s (checkRedundantAccess t nested s session file symbol count now)) := by
  unfold checkRedundantAccess
  split
  · exact .quiet s
  next hguard =>
    refine reported_checked nested now rfl ?_ rfl rfl rfl
    show s.hasEvent session .redundantAccess (some file) symbol = false
    simp only [Bool.or_eq_true, not_or, Bool.not_eq_true] at hguard
    exact hguard.2

theorem checkFailedSearch_checked (nested : Bool) (query : String) (attempts : UInt32) (now : Time) :
    Checked t session s
      (afterCheck s (checkFailedSearch t nested s session query attempts now)) := by
  unfold checkFailedSearch
  split
  · exact .quiet s
  next hguard =>
    refine reported_checked nested now rfl ⟨query, rfl, ?_⟩ rfl rfl rfl
    simp only [Bool.or_eq_true, not_or, Bool.not_eq_true] at hguard
    exact hguard.2

/-- The text names the threshold, since that is the count at which it is written. -/
theorem checkToolErrors_checked (tool : String) (file : Option String) (count : UInt32) (now : Time) :
    Checked t session s (afterCheck s (checkToolErrors t s session tool file count now)) := by
  rw [checkToolErrors_eq]
  split
  · exact .quiet s
  next hguard =>
    simp only [Bool.or_eq_true, decide_eq_true_eq, not_or, not_not, Bool.not_eq_true] at hguard
    obtain ⟨hcount, hunrecorded⟩ := hguard
    subst hcount
    cases hobservation : s.insertObservation session
        ⟨.environment, file, none, toolErrorText tool file t.toolError⟩ now with
    | error e => exact .quiet s
    | ok recorded => exact .environment hobservation hunrecorded

/-! ## §3. Calls. -/

namespace Observer

variable {o : Observer}

theorem begin_entered (o : Observer) (s : Store) : Entered t o.session s (o.begin s).2 := by
  unfold begin
  split
  · exact .none s
  · exact .create s o.mode o.label

theorem onLookup_entered (o : Observer) (d : Disk) (s : Store) (call : ToolCall) (file : String)
    (now : Time) :
    Entered o.thresholds o.session (o.begin s).2 (o.onLookup d s call file now).2 := by
  unfold onLookup
  simp only [begin_fst]
  generalize (o.begin s).2 = s
  split
  · split
    · split
      next s' i logged => exact .event logged rfl
      next => exact .none s
    · exact .none s
  · split
    next => exact .none s
    next s' i logged =>
      -- the access is logged and its tokens are counted before the check looks
      refine (Entered.event logged rfl).trans ?_
      refine (Entered.tokens s' (estimateTokens call.result.compact)).trans ?_
      exact (checkRedundantAccess_checked _ _ _ _ _).entered

theorem onSearch_entered (o : Observer) (s : Store) (call : ToolCall) (query : String) (now : Time) :
    Entered o.thresholds o.session (o.begin s).2 (o.onSearch s call query now).2 := by
  unfold onSearch
  simp only [begin_fst]
  generalize (o.begin s).2 = s
  split
  · exact .tokens s _
  · exact (checkFailedSearch_checked _ _ _ _).entered

theorem onError_entered (o : Observer) (s : Store) (call : ToolCall) (file : Option String)
    (now : Time) : Entered o.thresholds o.session (o.begin s).2 (o.onError s call file now).2 := by
  unfold onError
  simp only [begin_fst]
  generalize (o.begin s).2 = s
  split
  next => exact .none s
  next s' i logged => exact (Entered.event logged rfl).trans (checkToolErrors_checked _ _ _ _).entered

/-- A call is passed over, or the session is begun and entries are made. -/
theorem onToolCall_entered (o : Observer) (d : Disk) (s : Store) (call : ToolCall) (now : Time) :
    o.onToolCall d s call now = (o, s)
      ∨ Entered o.thresholds o.session (o.begin s).2 (o.onToolCall d s call now).2 := by
  unfold onToolCall
  simp only
  split
  · exact .inr (onError_entered o s call _ now)
  · split
    · split
      · exact .inr (onLookup_entered o d s call _ now)
      · exact .inl rfl
    · split
      · exact .inr (onSearch_entered o s call _ now)
      · exact .inl rfl
    · exact .inl rfl

/-! ## §4. Changes. -/

/-- The store after what a change invalidates has been marked. -/
def marked (s : Store) (file : String) (c : SymbolChange) : Store :=
  if c.kind.invalidates then (s.markStale file (some c.symbol) c.description).1 else s

/-- A change is logged, and what it invalidates is marked. Then the change is observed if its symbol
was accessed, and the check for a dead end comes last. -/
theorem onChange_steps {file : String} {c : SymbolChange} {now : Time}
    (h : o.onChange s file c now = .ok s') :
    ∃ mid i last, s.insertEvent o.session
        ⟨c.kind.eventType, some file, some c.symbol, some (changeDetails c)⟩ now = .ok (mid, i)
      ∧ (if o.tally.wasAccessed file (some c.symbol) then
          ∃ j, (marked mid file c).insertObservation o.session
            ⟨.change, some file, some c.symbol, c.description⟩ now = .ok (last, j)
        else last = marked mid file c)
      ∧ Checked o.thresholds o.session last s' := by
  unfold onChange at h
  cases hevent : s.insertEvent o.session
      ⟨c.kind.eventType, some file, some c.symbol, some (changeDetails c)⟩ now with
  | error e => rw [hevent] at h; exact absurd h (by simp [bind, Except.bind])
  | ok logged =>
    obtain ⟨mid, i⟩ := logged
    rw [hevent] at h
    simp only [bind, Except.bind] at h
    obtain ⟨last, hobserved, hchecked⟩ : ∃ last,
        (if o.tally.wasAccessed file (some c.symbol) then
          ∃ j, (marked mid file c).insertObservation o.session
            ⟨.change, some file, some c.symbol, c.description⟩ now = .ok (last, j)
        else last = marked mid file c)
        ∧ Checked o.thresholds o.session last s' := by
      -- from here on it does not matter what was marked
      unfold marked
      generalize (if c.kind.invalidates then
        (mid.markStale file (some c.symbol) c.description).1 else mid) = stale at h ⊢
      have hcheck : ∀ last : Store, Checked o.thresholds o.session last
          (if c.kind = .removed then
            afterCheck last (checkDeadEnd false last o.session file c.symbol now) else last) := by
        intro last
        split
        · exact checkDeadEnd_checked _ _ _ _
        · exact .quiet last
      split at h
      next haccessed =>
        cases hobservation : stale.insertObservation o.session
            ⟨.change, some file, some c.symbol, c.description⟩ now with
        | error e => rw [hobservation] at h; exact absurd h (by simp [Functor.map, Except.map])
        | ok recorded =>
          obtain ⟨last, j⟩ := recorded
          rw [hobservation] at h
          simp only [Functor.map, Except.map, pure, Except.pure, Except.ok.injEq] at h
          exact ⟨last, by simp [haccessed], h ▸ hcheck last⟩
      next haccessed =>
        simp only [pure, Except.pure, Except.ok.injEq] at h
        exact ⟨stale, by simp [haccessed], h ▸ hcheck stale⟩
    exact ⟨mid, i, last, rfl, hobserved, hchecked⟩

/-- A change is logged, then what it invalidates is marked, and only then is anything observed. -/
theorem onChange_entered {file : String} {c : SymbolChange} {now : Time}
    (h : o.onChange s file c now = .ok s') :
    ∃ mid i, s.insertEvent o.session
        ⟨c.kind.eventType, some file, some c.symbol, some (changeDetails c)⟩ now = .ok (mid, i)
      ∧ Entered o.thresholds o.session (marked mid file c) s' := by
  obtain ⟨mid, i, last, hevent, hobserved, hchecked⟩ := onChange_steps h
  refine ⟨mid, i, hevent, .trans ?_ hchecked.entered⟩
  split at hobserved
  next =>
    obtain ⟨j, hobservation⟩ := hobserved
    exact .change hobservation rfl
  next => exact hobserved ▸ .none _

end Observer

end CodeIndex
