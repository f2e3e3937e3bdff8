import Mathlib
import CodeIndex.Proofs.Session.Memory

/-!
# Sessions that share a store

Two observers work on one store, their calls and changes in any order. Each of them leaves in the
store what it would have left there alone: its log, its observations and its tokens. Only the marks
on stale observations depend on the other.

The proof runs an observer on two stores at once, the shared one and one of its own, and keeps the
relation that both remember the same of its session. A step of the observer keeps the relation
because it asks about its own session only (§1 – §4), and a step of the other observer because it
writes to the other session only (`SessionWrites.memory_of_ne`).
-/

namespace CodeIndex

/-- Two stores remember the same of a session. -/
def SameFor (id : String) (s s' : Store) : Prop := s.memory id = s'.memory id

/-- Two attempts end alike: both fail, and in the same way, or both succeed with results that are
related. -/
inductive Alike {ε α : Type} (related : α → α → Prop) : Except ε α → Except ε α → Prop where
  /-- Both succeed. -/
  | ok {a b : α} (h : related a b) : Alike related (.ok a) (.ok b)
  /-- Both fail. -/
  | error (e : ε) : Alike related (.error e) (.error e)

/-- Two stores with something beside each remember the same of a session. -/
def SameBeside {α : Type} (id : String) (r r' : Store × α) : Prop := SameFor id r.1 r'.1

namespace SameFor

variable {id : String} {s s' : Store}

/-! ## §1. Writes. -/

theorem hasSession (h : SameFor id s s') : s.hasSession id = s'.hasSession id := by
  rw [Store.hasSession_memory, Store.hasSession_memory, h]

theorem insertEvent (h : SameFor id s s') (event : NewEvent) (time : Time) :
    Alike (SameBeside id) (s.insertEvent id event time) (s'.insertEvent id event time) := by
  cases hs : s.hasSession id with
  | false =>
    rw [Store.insertEvent_refused hs, Store.insertEvent_refused (h.hasSession ▸ hs)]
    exact .error _
  | true =>
    obtain ⟨t, i, ht⟩ := Store.insertEvent_accepted hs event time
    obtain ⟨t', i', ht'⟩ := Store.insertEvent_accepted (h.hasSession ▸ hs) event time
    rw [ht, ht']
    refine .ok ?_
    show t.memory id = t'.memory id
    rw [Store.insertEvent_memory ht, Store.insertEvent_memory ht', if_pos rfl, if_pos rfl, h]

theorem insertObservation (h : SameFor id s s') (observation : NewObservation) (time : Time) :
    Alike (SameBeside id) (s.insertObservation id observation time)
      (s'.insertObservation id observation time) := by
  cases hs : s.hasSession id with
  | false =>
    rw [Store.insertObservation_refused hs, Store.insertObservation_refused (h.hasSession ▸ hs)]
    exact .error _
  | true =>
    obtain ⟨t, i, ht⟩ := Store.insertObservation_accepted hs observation time
    obtain ⟨t', i', ht'⟩ := Store.insertObservation_accepted (h.hasSession ▸ hs) observation time
    rw [ht, ht']
    refine .ok ?_
    show t.memory id = t'.memory id
    rw [Store.insertObservation_memory ht, Store.insertObservation_memory ht', if_pos rfl,
      if_pos rfl, h]

theorem createSession (h : SameFor id s s') (mode : SessionMode) (label : Option String) :
    SameFor id (s.createSession id mode label).1 (s'.createSession id mode label).1 := by
  unfold SameFor
  rw [Store.createSession_memory, Store.createSession_memory, h]

theorem addTokens (h : SameFor id s s') (n : Nat) :
    SameFor id (s.addTokens id n) (s'.addTokens id n) := by
  unfold SameFor
  rw [Store.addTokens_memory, Store.addTokens_memory, h]

/-- What is marked as stale makes no difference, not even where only one of the stores is marked. -/
theorem markStale (h : SameFor id s s') (file : String) (symbol : Option String) (reason : String) :
    SameFor id (s.markStale file symbol reason).1 (s'.markStale file symbol reason).1 := by
  unfold SameFor
  rw [Store.markStale_memory, Store.markStale_memory, h]

/-! ## §2. Checks. -/

variable (h : SameFor id s s') (now : Time)

include h

theorem reported (nested : Bool) (event : NewEvent) (observation : NewObservation) :
    Alike (SameBeside id) (CodeIndex.reported (emit nested s id event observation now))
      (CodeIndex.reported (emit nested s' id event observation now)) := by
  unfold CodeIndex.reported emit
  cases nested with
  | true => exact .error _
  | false =>
    rw [if_neg (by simp), if_neg (by simp)]
    have hevent := h.insertEvent event now
    generalize s.insertEvent id event now = r, s'.insertEvent id event now = r' at hevent
    cases hevent with
    | error e => exact .error _
    | @ok mid mid' logged =>
      have hobservation := insertObservation logged observation now
      simp only
      generalize mid.1.insertObservation id observation now = r,
        mid'.1.insertObservation id observation now = r' at hobservation
      cases hobservation with
      | error e => exact .error _
      | ok recorded => exact .ok recorded

theorem checkDeadEnd (nested : Bool) (file symbol : String) :
    Alike (SameBeside id) (CodeIndex.checkDeadEnd nested s id file symbol now)
      (CodeIndex.checkDeadEnd nested s' id file symbol now) := by
  unfold CodeIndex.checkDeadEnd
  rw [Store.hasEvent_memory, Store.hasEvent_memory, Store.hasEvent_memory, h,
    ← Store.hasEvent_memory, ← Store.hasEvent_memory, ← Store.hasEvent_memory]
  split
  · exact .ok h
  · exact h.reported now nested _ _

theorem checkThrash (t : Thresholds) (nested : Bool) (file : String) :
    Alike (SameBeside id) (CodeIndex.checkThrash t nested s id file now)
      (CodeIndex.checkThrash t nested s' id file now) := by
  have hmemory : s.memory id = s'.memory id := h
  unfold CodeIndex.checkThrash
  cases windowStart t now with
  | error e => exact .error e
  | ok since =>
    simp only [bind, Except.bind, Store.countEventsSince_memory, Store.lastEventTime?_memory, hmemory]
    split
    · exact .ok h
    · exact h.reported now nested _ _

theorem checkRedundantAccess (t : Thresholds) (nested : Bool) (file : String)
    (symbol : Option String) (count : UInt32) :
    Alike (SameBeside id) (CodeIndex.checkRedundantAccess t nested s id file symbol count now)
      (CodeIndex.checkRedundantAccess t nested s' id file symbol count now) := by
  unfold CodeIndex.checkRedundantAccess
  rw [Store.hasEvent_memory, h, ← Store.hasEvent_memory]
  split
  · exact .ok h
  · exact h.reported now nested _ _

theorem checkFailedSearch (t : Thresholds) (nested : Bool) (query : String) (attempts : UInt32) :
    Alike (SameBeside id) (CodeIndex.checkFailedSearch t nested s id query attempts now)
      (CodeIndex.checkFailedSearch t nested s' id query attempts now) := by
  unfold CodeIndex.checkFailedSearch
  rw [Store.hasEventFor_memory, h, ← Store.hasEventFor_memory]
  split
  · exact .ok h
  · exact h.reported now nested _ _

/-- A tool that failed is told from the observations, those that are stale as well as the others. -/
theorem checkToolErrors (t : Thresholds) (tool : String) (file : Option String) (count : UInt32) :
    Alike (SameBeside id) (CodeIndex.checkToolErrors t s id tool file count now)
      (CodeIndex.checkToolErrors t s' id tool file count now) := by
  rw [checkToolErrors_eq, checkToolErrors_eq, Store.hasObservation_memory, h,
    ← Store.hasObservation_memory]
  split
  · exact .ok h
  · have hobservation := h.insertObservation
      ⟨.environment, file, none, toolErrorText tool file count⟩ now
    generalize s.insertObservation _ _ _ = r, s'.insertObservation _ _ _ = r' at hobservation
    cases hobservation with
    | error e => exact .error _
    | ok recorded => exact .ok recorded

theorem afterCheck {result result' : Except CheckError (Store × Bool)}
    (checked : Alike (SameBeside id) result result') :
    SameFor id (Observer.afterCheck s result) (Observer.afterCheck s' result') := by
  cases checked with
  | error e => exact h
  | ok checked => exact checked

end SameFor

/-! ## §3. Calls. -/

/-- Two observers with their stores are the same but for what the stores hold of other sessions. -/
def SameSight (id : String) (r r' : Observer × Store) : Prop := r.1 = r'.1 ∧ SameFor id r.2 r'.2

namespace Observer

variable {o : Observer} {s s' : Store}

theorem begin_same (h : SameFor o.session s s') : SameFor o.session (o.begin s).2 (o.begin s').2 := by
  unfold begin
  split
  · exact h
  · exact h.createSession o.mode o.label

theorem onLookup_same (h : SameFor o.session s s') (d : Disk) (call : ToolCall) (file : String)
    (now : Time) : SameSight o.session (o.onLookup d s call file now) (o.onLookup d s' call file now) := by
  have hbegin := begin_same h
  unfold onLookup
  simp only [begin_fst]
  generalize (o.begin s).2 = s, (o.begin s').2 = s' at hbegin ⊢
  split
  · split
    · have hevent := hbegin.insertEvent
        ⟨.indexBlindSpot, some file, call.symbolArg?, some (toolDetails call)⟩ now
      generalize s.insertEvent _ _ _ = r, s'.insertEvent _ _ _ = r' at hevent
      cases hevent with
      | error e => exact ⟨rfl, hbegin⟩
      | ok logged => exact ⟨rfl, logged⟩
    · exact ⟨rfl, hbegin⟩
  · have hevent := hbegin.insertEvent
      ⟨.accessed, some file, call.symbolArg?, some (toolDetails call)⟩ now
    generalize s.insertEvent _ _ _ = r, s'.insertEvent _ _ _ = r' at hevent
    cases hevent with
    | error e => exact ⟨rfl, hbegin⟩
    | ok logged =>
      have htokens := SameFor.addTokens logged (estimateTokens call.result.compact)
      exact ⟨rfl, htokens.afterCheck (htokens.checkRedundantAccess now _ _ _ _ _)⟩

theorem onSearch_same (h : SameFor o.session s s') (call : ToolCall) (query : String) (now : Time) :
    SameSight o.session (o.onSearch s call query now) (o.onSearch s' call query now) := by
  have hbegin := begin_same h
  unfold onSearch
  simp only [begin_fst]
  generalize (o.begin s).2 = s, (o.begin s').2 = s' at hbegin ⊢
  split
  · exact ⟨rfl, hbegin.addTokens _⟩
  · exact ⟨rfl, hbegin.afterCheck (hbegin.checkFailedSearch now _ _ _ _)⟩

theorem onError_same (h : SameFor o.session s s') (call : ToolCall) (file : Option String)
    (now : Time) : SameSight o.session (o.onError s call file now) (o.onError s' call file now) := by
  have hbegin := begin_same h
  unfold onError
  simp only [begin_fst]
  generalize (o.begin s).2 = s, (o.begin s').2 = s' at hbegin ⊢
  have hevent := hbegin.insertEvent ⟨.toolError, file, none,
    some (errorDetails call)⟩ now
  generalize s.insertEvent _ _ _ = r, s'.insertEvent _ _ _ = r' at hevent
  cases hevent with
  | error e => exact ⟨rfl, hbegin⟩
  | ok logged =>
    exact ⟨rfl, SameFor.afterCheck logged (SameFor.checkToolErrors logged now _ _ _ _)⟩

theorem onToolCall_same (h : SameFor o.session s s') (d : Disk) (call : ToolCall) (now : Time) :
    SameSight o.session (o.onToolCall d s call now) (o.onToolCall d s' call now) := by
  unfold onToolCall
  simp only
  split
  · exact onError_same h call _ now
  · split
    · split
      · exact onLookup_same h d call _ now
      · exact ⟨rfl, h⟩
    · split
      · exact onSearch_same h call _ now
      · exact ⟨rfl, h⟩
    · exact ⟨rfl, h⟩

/-! ## §4. Changes of files. -/

theorem onChange_same (h : SameFor o.session s s') (file : String) (c : SymbolChange) (now : Time) :
    Alike (SameFor o.session) (o.onChange s file c now) (o.onChange s' file c now) := by
  unfold onChange
  have hevent := h.insertEvent
    ⟨c.kind.eventType, some file, some c.symbol, some (changeDetails c)⟩ now
  generalize s.insertEvent _ _ _ = r, s'.insertEvent _ _ _ = r' at hevent
  cases hevent with
  | error e => exact .error e
  | @ok mid mid' logged =>
    simp only [bind, Except.bind]
    have hstale : SameFor o.session
        (if c.kind.invalidates then (mid.1.markStale file (some c.symbol) c.description).1 else mid.1)
        (if c.kind.invalidates then
          (mid'.1.markStale file (some c.symbol) c.description).1 else mid'.1) := by
      split
      · exact SameFor.markStale logged _ _ _
      · exact logged
    generalize (if c.kind.invalidates then _ else mid.1) = mid,
      (if c.kind.invalidates then _ else mid'.1) = mid' at hstale ⊢
    -- the check for a dead end comes last, after the observation or without one
    have hcheck : ∀ last last' : Store, SameFor o.session last last' → SameFor o.session
        (if c.kind = .removed then
          afterCheck last (checkDeadEnd false last o.session file c.symbol now) else last)
        (if c.kind = .removed then
          afterCheck last' (checkDeadEnd false last' o.session file c.symbol now) else last') := by
      intro last last' hlast
      split
      · exact hlast.afterCheck (hlast.checkDeadEnd now _ _ _)
      · exact hlast
    split
    · have hobservation := hstale.insertObservation
        ⟨.change, some file, some c.symbol, c.description⟩ now
      generalize mid.insertObservation _ _ _ = r, mid'.insertObservation _ _ _ = r' at hobservation
      cases hobservation with
      | error e => exact .error e
      | @ok last last' recorded => exact .ok (hcheck last.1 last'.1 recorded)
    · exact .ok (hcheck mid mid' hstale)

theorem onChanges_same (file : String) (now : Time) (changes : List SymbolChange) :
    ∀ {s s' : Store}, SameFor o.session s s' →
      (o.onChanges s file now changes).2 = (o.onChanges s' file now changes).2
      ∧ SameFor o.session (o.onChanges s file now changes).1 (o.onChanges s' file now changes).1 := by
  induction changes with
  | nil => intro s s' h; exact ⟨rfl, h⟩
  | cons c rest ih =>
    intro s s' h
    have hchange := onChange_same h file c now
    unfold onChanges
    generalize o.onChange s file c now = r, o.onChange s' file c now = r' at hchange
    cases hchange with
    | error e => exact ⟨rfl, h⟩
    | ok hmid => exact ih hmid

theorem onFileDiff_same (h : SameFor o.session s s') (diff : FileDiff) (now : Time) :
    (o.onFileDiff s diff now).observer = (o.onFileDiff s' diff now).observer
    ∧ SameFor o.session (o.onFileDiff s diff now).store (o.onFileDiff s' diff now).store := by
  unfold onFileDiff
  split
  · exact ⟨rfl, h⟩
  · have hbegin := begin_same h
    simp only [begin_fst]
    generalize (o.begin s).2 = s, (o.begin s').2 = s' at hbegin ⊢
    have hchanges := @onChanges_same { o with begun := true } diff.path now diff.changes s s' hbegin
    generalize onChanges { o with begun := true } s diff.path now diff.changes = r,
      onChanges { o with begun := true } s' diff.path now diff.changes = r' at hchanges
    obtain ⟨last, result⟩ := r
    obtain ⟨last', result'⟩ := r'
    obtain ⟨hresult, hlast⟩ := hchanges
    simp only at hresult hlast
    subst hresult
    cases result with
    | error e => exact ⟨rfl, hlast⟩
    | ok done =>
      have hthrash := SameFor.checkThrash hlast now o.thresholds false diff.path
      simp only
      generalize checkThrash o.thresholds false last o.session diff.path now = r,
        checkThrash o.thresholds false last' o.session diff.path now = r' at hthrash
      cases hthrash with
      | ok checked => exact ⟨rfl, checked⟩
      | error e => cases e <;> exact ⟨rfl, hlast⟩

/-! ## §5. One observer. -/

/-- What an observer is told: a call of a tool, or the changes of a file. -/
inductive Sight where
  | call (call : ToolCall) (now : Time)
  | changes (diff : FileDiff) (now : Time)

/-- Observe what there is to see. -/
def see (o : Observer) (d : Disk) (s : Store) : Sight → Observer × Store
  | .call call now => o.onToolCall d s call now
  | .changes diff now => ((o.onFileDiff s diff now).observer, (o.onFileDiff s diff now).store)

/-- Observe one thing after another. -/
def seeAll (d : Disk) : Observer → Store → List Sight → Observer × Store
  | o, s, [] => (o, s)
  | o, s, sight :: rest => seeAll d (o.see d s sight).1 (o.see d s sight).2 rest

theorem see_same (h : SameFor o.session s s') (d : Disk) (sight : Sight) :
    SameSight o.session (o.see d s sight) (o.see d s' sight) := by
  cases sight with
  | call call now => exact onToolCall_same h d call now
  | changes diff now => exact onFileDiff_same h diff now

theorem see_writes (o : Observer) (d : Disk) (s : Store) (sight : Sight) :
    SessionWrites o.session s (o.see d s sight).2 := by
  cases sight with
  | call call now => exact onToolCall_writes o d s call now
  | changes diff now => exact onFileDiff_writes o s diff now

theorem onToolCall_session (o : Observer) (d : Disk) (s : Store) (call : ToolCall) (now : Time) :
    (o.onToolCall d s call now).1.session = o.session := by
  unfold onToolCall onError onLookup onSearch
  simp only [begin_fst]
  repeat' split
  all_goals rfl

theorem onFileDiff_session (o : Observer) (s : Store) (diff : FileDiff) (now : Time) :
    (o.onFileDiff s diff now).observer.session = o.session := by
  unfold onFileDiff
  simp only [begin_fst]
  repeat' split
  all_goals rfl

/-- An observer stays with its session. -/
theorem see_session (o : Observer) (d : Disk) (s : Store) (sight : Sight) :
    (o.see d s sight).1.session = o.session := by
  cases sight with
  | call call now => exact onToolCall_session o d s call now
  | changes diff now => exact onFileDiff_session o s diff now

end Observer

/-! ## §6. Two observers. -/

open Observer (Sight)

/-- Two observers and the store they share. -/
structure Shared where
  left : Observer
  right : Observer
  store : Store

/-- One of the observers sees something. -/
def Shared.step (d : Disk) (w : Shared) : Sight ⊕ Sight → Shared
  | .inl sight => ⟨(w.left.see d w.store sight).1, w.right, (w.left.see d w.store sight).2⟩
  | .inr sight => ⟨w.left, (w.right.see d w.store sight).1, (w.right.see d w.store sight).2⟩

/-- The observers see what a schedule says, in its order. -/
def Shared.run (d : Disk) (w : Shared) (schedule : List (Sight ⊕ Sight)) : Shared :=
  schedule.foldl (Shared.step d) w

/-- What the left observer sees. -/
def leftPart (schedule : List (Sight ⊕ Sight)) : List Sight := schedule.filterMap Sum.getLeft?

/-- What the right observer sees. -/
def rightPart (schedule : List (Sight ⊕ Sight)) : List Sight := schedule.filterMap Sum.getRight?

theorem run_left (d : Disk) (schedule : List (Sight ⊕ Sight)) :
    ∀ (w : Shared) (s : Store), w.left.session ≠ w.right.session →
      SameFor w.left.session w.store s →
      SameFor w.left.session (w.run d schedule).store
        (w.left.seeAll d s (leftPart schedule)).2 := by
  induction schedule with
  | nil => intro w s _ h; exact h
  | cons step rest ih =>
    intro w s hne h
    cases step with
    | inl sight =>
      -- in both stores the observer comes to the same, since it asks of its own session only
      obtain ⟨hobserver, hstore⟩ := Observer.see_same h d sight
      have hsession := Observer.see_session w.left d w.store sight
      have hrest := ih (w.step d (.inl sight)) (w.left.see d s sight).2
        (fun heq => hne (hsession ▸ heq)) (hsession.symm ▸ hstore)
      show SameFor w.left.session _ (Observer.seeAll d (w.left.see d s sight).1 _ _).2
      rw [← hobserver]
      exact hsession ▸ hrest
    | inr sight =>
      -- the other observer's step leaves the memory of this session alone
      have hother := (Observer.see_writes w.right d w.store sight).memory_of_ne hne
      have hsession := Observer.see_session w.right d w.store sight
      exact ih (w.step d (.inr sight)) s (fun heq => hne (heq.trans hsession)) (hother.trans h)

/-- The observers change sides. -/
def Shared.swap (w : Shared) : Shared := ⟨w.right, w.left, w.store⟩

theorem run_swap (d : Disk) (schedule : List (Sight ⊕ Sight)) :
    ∀ w : Shared, w.swap.run d (schedule.map Sum.swap) = (w.run d schedule).swap := by
  induction schedule with
  | nil => intro w; rfl
  | cons step rest ih =>
    intro w
    have hstep : w.swap.step d step.swap = (w.step d step).swap := by cases step <;> rfl
    show Shared.run d (w.swap.step d step.swap) (rest.map Sum.swap) = _
    rw [hstep, ih]
    rfl

theorem leftPart_swap (schedule : List (Sight ⊕ Sight)) :
    leftPart (schedule.map Sum.swap) = rightPart schedule := by
  unfold leftPart rightPart
  rw [List.filterMap_map]
  congr 1
  funext step
  cases step <;> rfl

theorem run_intact (d : Disk) (schedule : List (Sight ⊕ Sight)) :
    ∀ w : Shared, w.store.Intact → (w.run d schedule).store.Intact := by
  induction schedule with
  | nil => intro w h; exact h
  | cons step rest ih =>
    intro w h
    cases step with
    | inl sight => exact ih _ ((Observer.see_writes w.left d w.store sight).intact h)
    | inr sight => exact ih _ ((Observer.see_writes w.right d w.store sight).intact h)

theorem seeAll_intact (d : Disk) (sights : List Sight) :
    ∀ (o : Observer) (s : Store), s.Intact → (o.seeAll d s sights).2.Intact := by
  induction sights with
  | nil => intro o s h; exact h
  | cons sight rest ih => intro o s h; exact ih _ _ ((Observer.see_writes o d s sight).intact h)

/-- Two stores have the same record of a session: its log, what it has observed, in the order of the
rows and as it is listed, and the session itself with its tokens. -/
structure SameRecord (id : String) (s s' : Store) : Prop where
  events : (s.eventsOf id).map (fun e => (e.event, e.time))
    = (s'.eventsOf id).map fun e => (e.event, e.time)
  observations : (s.observations.filter (·.sessionId == id)).map (fun o => (o.observation, o.time))
    = (s'.observations.filter (·.sessionId == id)).map fun o => (o.observation, o.time)
  listed : ∀ limit, (s.listObservations (some id) true limit).map (fun o => (o.observation, o.time))
    = (s'.listObservations (some id) true limit).map fun o => (o.observation, o.time)
  session : s.session id = s'.session id

theorem SameFor.sameRecord {id : String} {s s' : Store} (h : SameFor id s s') (hs : s.Intact)
    (hs' : s'.Intact) : SameRecord id s s' where
  events := congrArg Memory.events h
  observations := congrArg Memory.observations h
  listed limit := by
    rw [Store.listObservations_memory hs, Store.listObservations_memory hs', h]
  session := by rw [Store.session_memory, Store.session_memory, h]

/-- Nothing is remembered of a session that is not in the store. -/
theorem sameFor_empty {id : String} {s : Store} (hs : s.Intact) (h : s.hasSession id = false) :
    SameFor id s Store.empty := by
  have hsession : s.sessions.find? (·.id == id) = none := by
    rw [List.find?_eq_none]
    exact List.any_eq_false.mp h
  -- whatever belongs to a session belongs to one that is there
  have hother : ∀ {name : String}, s.hasSession name = true → (name == id) = false := by
    intro name hname
    rw [beq_eq_false_iff_ne]
    rintro rfl
    rw [h] at hname
    exact absurd hname (by simp)
  have hevents : s.eventsOf id = [] :=
    List.filter_eq_nil_iff.mpr fun e he => by rw [hother (hs.events e he)]; simp
  have hobservations : s.observations.filter (·.sessionId == id) = [] :=
    List.filter_eq_nil_iff.mpr fun o ho => by rw [hother (hs.observations o ho)]; simp
  unfold SameFor Store.memory
  rw [hsession, hevents, hobservations]
  rfl

theorem sameRecord_left (d : Disk) (w : Shared) (hne : w.left.session ≠ w.right.session)
    (hs : w.store.Intact) (hleft : w.store.hasSession w.left.session = false)
    (schedule : List (Sight ⊕ Sight)) :
    SameRecord w.left.session (w.run d schedule).store
      (w.left.seeAll d Store.empty (leftPart schedule)).2 :=
  (run_left d schedule w Store.empty hne (sameFor_empty hs hleft)).sameRecord
    (run_intact d schedule w hs) (seeAll_intact d _ _ _ Store.intact_empty)

/-- **Sessions do not interfere.** Two observers of different sessions share a store that knows
neither session yet. Whatever they see, and in whatever order their calls and changes come, each
leaves the record that it leaves alone in a store of its own. -/
theorem sessions_do_not_interfere (d : Disk) (left right : Observer)
    (hne : left.session ≠ right.session) (s : Store) (hs : s.Intact)
    (hleft : s.hasSession left.session = false) (hright : s.hasSession right.session = false)
    (schedule : List (Sight ⊕ Sight)) :
    SameRecord left.session (Shared.run d ⟨left, right, s⟩ schedule).store
        (left.seeAll d Store.empty (leftPart schedule)).2
      ∧ SameRecord right.session (Shared.run d ⟨left, right, s⟩ schedule).store
        (right.seeAll d Store.empty (rightPart schedule)).2 := by
  constructor
  · exact sameRecord_left d ⟨left, right, s⟩ hne hs hleft schedule
  · -- the right observer is the left one of the schedule with the sides changed
    have h := sameRecord_left d ⟨right, left, s⟩ hne.symm hs hright (schedule.map Sum.swap)
    rw [leftPart_swap] at h
    have hswap : Shared.run d ⟨right, left, s⟩ (schedule.map Sum.swap)
        = (Shared.run d ⟨left, right, s⟩ schedule).swap := run_swap d schedule ⟨left, right, s⟩
    rw [hswap] at h
    exact h

/-- Two observers with thresholds of their own on an empty store. -/
def twoObservers : Shared where
  left := .new "/p" { Thresholds.default with toolError := 1 } .indexed none "left"
  right := .new "/p" Thresholds.default .baseline none "right"
  store := .empty

/-- The left one looks a symbol up, the right one sees it go, and a call of the left one fails. -/
def twoViews : List (Sight ⊕ Sight) :=
  [.inl (.call ⟨"get_symbol", .obj [("file", .str "a.py"), ("symbol", .str "f")], .str "def f", false⟩ 0),
    .inr (.changes ⟨"a.py", false, [.of .removed "f" .function (some "def f()") none]⟩ 1),
    .inl (.call ⟨"search", .obj [("file", .str "a.py")], .str "timeout", true⟩ 2)]

theorem sessions_do_not_interfere_on_removal :
    (twoObservers.left.session ≠ twoObservers.right.session
      ∧ twoObservers.store.hasSession twoObservers.left.session = false
      ∧ twoObservers.store.hasSession twoObservers.right.session = false)
    ∧ (SameRecord "left" (twoObservers.run ⟨[], []⟩ twoViews).store
        (twoObservers.left.seeAll ⟨[], []⟩ Store.empty (leftPart twoViews)).2
      ∧ SameRecord "right" (twoObservers.run ⟨[], []⟩ twoViews).store
        (twoObservers.right.seeAll ⟨[], []⟩ Store.empty (rightPart twoViews)).2)
    ∧ ((twoObservers.run ⟨[], []⟩ twoViews).store.events.map fun e => (e.sessionId, e.event.type))
      = [("left", .accessed), ("right", .symbolRemoved), ("left", .toolError)] := by
  refine ⟨⟨by decide, by decide, by decide⟩, ?_, ?_⟩
  · exact sessions_do_not_interfere ⟨[], []⟩ twoObservers.left twoObservers.right (by decide)
      Store.empty Store.intact_empty (by decide) (by decide) twoViews
  · decide +kernel

end CodeIndex
