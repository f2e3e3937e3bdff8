import Mathlib
import CodeIndex.Proofs.Session.Checks
import CodeIndex.Proofs.Store.Integrity
import CodeIndex.Session.Observer

/-!
# What an observer writes

Handling a call or a change takes many ways through the observer and its checks, but all of them come
down to five writes: the session is begun, its tokens are counted, an event or an observation is added
to it, and observations of any session are marked as stale. A store that an observer leaves is reached
from the one it found by such writes of its own session.

What these writes keep is kept by everything that an observer does: an intact store stays intact, and
the tables of the index are not touched.
-/

namespace CodeIndex

/-- A store is reached from another by writes of a session. -/
inductive SessionWrites (session : String) : Store → Store → Prop where
  /-- Nothing is written. -/
  | none (s : Store) : SessionWrites session s s
  /-- The session is begun. -/
  | create (s : Store) (mode : SessionMode) (label : Option String) :
      SessionWrites session s (s.createSession session mode label).1
  /-- Tokens of the session are counted. -/
  | tokens (s : Store) (n : Nat) : SessionWrites session s (s.addTokens session n)
  /-- The session logs an event. -/
  | event {s s' : Store} {event : NewEvent} {time : Time} {i : RowId}
      (logged : s.insertEvent session event time = .ok (s', i)) : SessionWrites session s s'
  /-- The session records an observation. -/
  | observation {s s' : Store} {observation : NewObservation} {time : Time} {i : RowId}
      (recorded : s.insertObservation session observation time = .ok (s', i)) :
      SessionWrites session s s'
  /-- Observations of any session are marked as stale. -/
  | stale (s : Store) (file : String) (symbol : Option String) (reason : String) :
      SessionWrites session s (s.markStale file symbol reason).1
  /-- Writes follow each other. -/
  | trans {s mid s' : Store} (first : SessionWrites session s mid)
      (second : SessionWrites session mid s') : SessionWrites session s s'

namespace SessionWrites

variable {session : String} {s s' : Store}

/-! ## §1. What the writes keep. -/

theorem intact (h : SessionWrites session s s') (hs : s.Intact) : s'.Intact := by
  induction h with
  | none => exact hs
  | create => exact hs.createSession _ _ _
  | tokens => exact hs.addTokens _ _
  | event logged => exact hs.insertEvent logged
  | observation recorded => exact hs.insertObservation recorded
  | stale => exact hs.markStale _ _ _
  | trans _ _ ih₁ ih₂ => exact ih₂ (ih₁ hs)

/-- The tables of the index are as they were. -/
structure IndexKept (s s' : Store) : Prop where
  files : s'.files = s.files
  symbols : s'.symbols = s.symbols
  chunks : s'.chunks = s.chunks
  edges : s'.edges = s.edges
  snapshotFiles : s'.snapshotFiles = s.snapshotFiles
  snapshots : s'.snapshots = s.snapshots

theorem IndexKept.refl (s : Store) : IndexKept s s := ⟨rfl, rfl, rfl, rfl, rfl, rfl⟩

theorem IndexKept.trans {mid : Store} (first : IndexKept s mid) (second : IndexKept mid s') :
    IndexKept s s' :=
  ⟨second.files.trans first.files, second.symbols.trans first.symbols,
    second.chunks.trans first.chunks, second.edges.trans first.edges,
    second.snapshotFiles.trans first.snapshotFiles, second.snapshots.trans first.snapshots⟩

theorem indexKept (h : SessionWrites session s s') : IndexKept s s' := by
  induction h with
  | none | create | tokens | stale => exact ⟨rfl, rfl, rfl, rfl, rfl, rfl⟩
  | event logged =>
    unfold Store.insertEvent at logged
    split at logged
    next =>
      injection logged with logged
      injection logged with logged
      subst logged
      exact ⟨rfl, rfl, rfl, rfl, rfl, rfl⟩
    next => exact absurd logged (by simp)
  | observation recorded =>
    unfold Store.insertObservation at recorded
    split at recorded
    next =>
      injection recorded with recorded
      injection recorded with recorded
      subst recorded
      exact ⟨rfl, rfl, rfl, rfl, rfl, rfl⟩
    next => exact absurd recorded (by simp)
  | trans _ _ ih₁ ih₂ => exact ih₁.trans ih₂

/-! ## §2. Checks. -/

theorem of_outcome {now : Time} {fired : Bool}
    (h : CheckOutcome s session now (.ok (s', fired))) : SessionWrites session s s' := by
  cases h with
  | quiet => exact none s
  | report logged recorded => exact (event logged).trans (observation recorded)
  | note recorded => exact observation recorded

theorem of_afterCheck {now : Time} {result : Except CheckError (Store × Bool)}
    (h : CheckOutcome s session now result) :
    SessionWrites session s (Observer.afterCheck s result) := by
  cases result with
  | error e => exact none s
  | ok done => exact of_outcome h

end SessionWrites

open SessionWrites

/-! ## §3. Calls. -/

namespace Observer

/-- Beginning a session changes nothing about the observer but that it has begun. -/
theorem begin_fst (o : Observer) (s : Store) : (o.begin s).1 = { o with begun := true } := by
  unfold begin
  split
  next h => rw [← h]
  next => rfl

theorem begin_writes (o : Observer) (s : Store) : SessionWrites o.session s (o.begin s).2 := by
  unfold begin
  split
  · exact .none s
  · exact .create s o.mode o.label

theorem onLookup_writes (o : Observer) (d : Disk) (s : Store) (call : ToolCall) (file : String)
    (now : Time) : SessionWrites o.session s (o.onLookup d s call file now).2 := by
  have hbegin := begin_writes o s
  unfold onLookup
  simp only [begin_fst]
  refine hbegin.trans ?_
  generalize (o.begin s).2 = s
  -- a lookup that found nothing logs a blind spot at most, any other an access
  split
  · split
    · split
      next s' i logged => exact .event logged
      next => exact .none s
    · exact .none s
  · split
    next => exact .none s
    next s' i logged =>
      have htokens := @SessionWrites.tokens o.session s' (estimateTokens call.result.compact)
      refine (SessionWrites.event logged).trans (htokens.trans ?_)
      exact of_afterCheck (checkRedundantAccess_outcome _ _ _ _ _ _ _ _)

theorem onSearch_writes (o : Observer) (s : Store) (call : ToolCall) (query : String) (now : Time) :
    SessionWrites o.session s (o.onSearch s call query now).2 := by
  have hbegin := begin_writes o s
  unfold onSearch
  simp only [begin_fst]
  refine hbegin.trans ?_
  generalize (o.begin s).2 = s
  split
  · exact .tokens s _
  · exact of_afterCheck (checkFailedSearch_outcome _ _ _ _ _ _ _)

theorem onError_writes (o : Observer) (s : Store) (call : ToolCall) (file : Option String)
    (now : Time) : SessionWrites o.session s (o.onError s call file now).2 := by
  have hbegin := begin_writes o s
  unfold onError
  simp only [begin_fst]
  refine hbegin.trans ?_
  generalize (o.begin s).2 = s
  split
  next => exact .none s
  next s' i logged =>
    refine (SessionWrites.event logged).trans ?_
    exact of_afterCheck (checkToolErrors_outcome _ _ _ _ _ _ _)

/-- What a call makes an observer write belongs to its session. -/
theorem onToolCall_writes (o : Observer) (d : Disk) (s : Store) (call : ToolCall) (now : Time) :
    SessionWrites o.session s (o.onToolCall d s call now).2 := by
  unfold onToolCall
  simp only
  split
  · exact onError_writes o s call _ now
  · split
    · split
      · exact onLookup_writes o d s call _ now
      · exact .none s
    · split
      · exact onSearch_writes o s call _ now
      · exact .none s
    · exact .none s

/-! ## §4. Changes of files. -/

theorem onChange_writes {o : Observer} {s s' : Store} {file : String} {c : SymbolChange} {now : Time}
    (h : o.onChange s file c now = .ok s') : SessionWrites o.session s s' := by
  unfold onChange at h
  cases hevent : s.insertEvent o.session
      ⟨c.kind.eventType, some file, some c.symbol, some (changeDetails c)⟩ now with
  | error e => rw [hevent] at h; exact absurd h (by simp [bind, Except.bind])
  | ok logged =>
    obtain ⟨mid, i⟩ := logged
    rw [hevent] at h
    simp only [bind, Except.bind] at h
    refine (SessionWrites.event hevent).trans ?_
    -- the observations made stale
    have hstale : SessionWrites o.session mid
        (if c.kind.invalidates then (mid.markStale file (some c.symbol) c.description).1 else mid) := by
      split
      · exact .stale mid _ _ _
      · exact .none mid
    refine hstale.trans ?_
    generalize (if c.kind.invalidates then
      (mid.markStale file (some c.symbol) c.description).1 else mid) = mid at h ⊢
    -- the observation of the change, then the check for a dead end
    have hcheck : ∀ last : Store, SessionWrites o.session last
        (if c.kind = .removed then
          afterCheck last (checkDeadEnd false last o.session file c.symbol now) else last) := by
      intro last
      split
      · exact of_afterCheck (checkDeadEnd_outcome _ _ _ _ _ _)
      · exact .none last
    split at h
    next =>
      cases hobs : mid.insertObservation o.session
          ⟨.change, some file, some c.symbol, c.description⟩ now with
      | error e => rw [hobs] at h; exact absurd h (by simp [Functor.map, Except.map])
      | ok recorded =>
        obtain ⟨last, j⟩ := recorded
        rw [hobs] at h
        simp only [Functor.map, Except.map, pure, Except.pure, Except.ok.injEq] at h
        exact h ▸ (SessionWrites.observation hobs).trans (hcheck last)
    next =>
      simp only [pure, Except.pure, Except.ok.injEq] at h
      exact h ▸ hcheck mid

theorem onChanges_writes (o : Observer) (file : String) (now : Time) (changes : List SymbolChange) :
    ∀ s : Store, SessionWrites o.session s (o.onChanges s file now changes).1 := by
  induction changes with
  | nil => intro s; exact .none s
  | cons c rest ih =>
    intro s
    unfold onChanges
    -- the changes after one that is refused are not observed
    split
    next s' hok => exact (onChange_writes hok).trans (ih s')
    next => exact .none s

/-- What the changes of a file make an observer write belongs to its session, but for the marks on
observations that are stale. -/
theorem onFileDiff_writes (o : Observer) (s : Store) (diff : FileDiff) (now : Time) :
    SessionWrites o.session s (o.onFileDiff s diff now).store := by
  unfold onFileDiff
  split
  · exact .none s
  · have hbegin := begin_writes o s
    simp only [begin_fst]
    refine hbegin.trans ?_
    generalize (o.begin s).2 = s
    have hchanges := onChanges_writes { o with begun := true } diff.path now diff.changes s
    split
    next s' e hres => rw [hres] at hchanges; exact hchanges
    next s' hres =>
      rw [hres] at hchanges
      refine hchanges.trans ?_
      have hout := checkThrash_outcome s' o.session now o.thresholds false diff.path
      simp only
      split
      next s'' fired hok => rw [hok] at hout; exact of_outcome hout
      next => exact .none s'
      next => exact .none s'

end Observer

end CodeIndex
