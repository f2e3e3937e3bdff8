import Mathlib
import CodeIndex.Proofs.Store.Names

/-!
# A transaction is kept as a whole or given up as a whole

A transaction is a list of requests with an outcome, and the list is any: some of its requests may fail
half-way, some may be checks that have something to report, and some may be transactions. Reporting
begins a transaction too, and no transaction begins inside another. So inside an open one a request
does what it does outside (`run_inside`), unless it tries to begin a transaction (`begins`): then it is
refused, nothing of it is done, and the open transaction goes on.

From that the two outcomes follow.

  kept       what is left is what the requests that were not refused leave, asked one after another
             outside any transaction (`runAll_inside`);
  given up   every table is as it was. The one thing that is not taken back is how many sessions have
             begun, by which the next ones are named, and that does not matter: what is asked later
             does the same and assigns the same numbers, up to these names (`runAll_after_skipped`).

Main result: `transaction_all_or_nothing`.
-/

namespace CodeIndex

/-! ## §1. Requests that begin a transaction. -/

/-- Whether a check outside a transaction came to write a report, be it that the writing failed. -/
def reports : Except CheckError (Store × Bool) → Bool
  | .ok (_, fired) => fired
  | .error (.store _) => true
  | .error .timeOverflow => false

/-- What a check comes to inside a transaction, by what it comes to outside. -/
def refusedIfReport (outside : Except CheckError (Store × Bool)) : Except CheckError (Store × Bool) :=
  if reports outside then .error (.store .nestedTransaction) else outside

section Checks

variable (s : Store) (session : String) (now : Time)

theorem reports_reported_emit (event : NewEvent) (observation : NewObservation) :
    reports (reported (emit false s session event observation now)) = true := by
  unfold reported emit
  cases hevent : s.insertEvent session event now with
  | error e => rfl
  | ok logged =>
    obtain ⟨mid, i⟩ := logged
    cases hobservation : mid.insertObservation session observation now with
    | error e => simp [Except.map, hobservation, reports]
    | ok recorded => simp [Except.map, hobservation, reports]

/-- A report is a transaction. -/
theorem reported_emit_inside (event : NewEvent) (observation : NewObservation) :
    reported (emit true s session event observation now)
      = refusedIfReport (reported (emit false s session event observation now)) := by
  unfold refusedIfReport
  rw [if_pos (reports_reported_emit s session now event observation)]
  rfl

theorem checkDeadEnd_inside (file symbol : String) :
    checkDeadEnd true s session file symbol now
      = refusedIfReport (checkDeadEnd false s session file symbol now) := by
  unfold checkDeadEnd
  split
  · rfl
  · exact reported_emit_inside s session now _ _

theorem windowStart_error {t : Thresholds} {now : Time} {e : CheckError}
    (h : windowStart t now = .error e) : e = .timeOverflow := by
  simp only [windowStart] at h
  split at h
  · cases h; rfl
  · split at h
    · cases h
    · cases h; rfl

theorem checkThrash_inside (t : Thresholds) (file : String) :
    checkThrash t true s session file now
      = refusedIfReport (checkThrash t false s session file now) := by
  unfold checkThrash
  cases hwindow : windowStart t now with
  -- the window is looked at before anything is reported
  | error e => rw [windowStart_error hwindow]; rfl
  | ok since =>
    simp only [bind, Except.bind]
    split
    · rfl
    · exact reported_emit_inside s session now _ _

theorem checkRedundantAccess_inside (t : Thresholds) (file : String) (symbol : Option String)
    (count : UInt32) :
    checkRedundantAccess t true s session file symbol count now
      = refusedIfReport (checkRedundantAccess t false s session file symbol count now) := by
  unfold checkRedundantAccess
  split
  · rfl
  · exact reported_emit_inside s session now _ _

theorem checkFailedSearch_inside (t : Thresholds) (query : String) (attempts : UInt32) :
    checkFailedSearch t true s session query attempts now
      = refusedIfReport (checkFailedSearch t false s session query attempts now) := by
  unfold checkFailedSearch
  split
  · rfl
  · exact reported_emit_inside s session now _ _

end Checks

namespace Request

/-- Whether a request tries to begin a transaction: it is one, or a check that has something to
report. -/
def begins (t : Thresholds) (s : Store) : Request → Bool
  | .transaction _ _ => true
  | .checkDeadEnd session file symbol now =>
    reports (CodeIndex.checkDeadEnd false s session file symbol now)
  | .checkThrash session file now => reports (CodeIndex.checkThrash t false s session file now)
  | .checkRedundantAccess session file symbol count now =>
    reports (CodeIndex.checkRedundantAccess t false s session file symbol count.toUInt32 now)
  | .checkFailedSearch session query count now =>
    reports (CodeIndex.checkFailedSearch t false s session query count.toUInt32 now)
  | _ => false

/-! ## §2. Inside a transaction. -/

theorem checked_refusedIfReport (s : Store) (outside : Except CheckError (Store × Bool)) :
    checked s (refusedIfReport outside)
      = if reports outside then (s, .failed .nestedTransaction) else checked s outside := by
  unfold refusedIfReport
  split <;> rfl

/-- A check inside a transaction is refused if it has something to report. -/
theorem run_check_inside {t : Thresholds} {state : Request.State} {request : Request}
    {outside inside : Except CheckError (Store × Bool)} (hinside : inside = refusedIfReport outside)
    (hfalse : run t false state request
      = (⟨(checked state.store outside).1, state.sessions⟩, (checked state.store outside).2))
    (htrue : run t true state request
      = (⟨(checked state.store inside).1, state.sessions⟩, (checked state.store inside).2)) :
    run t true state request = if reports outside then (state, .failed .nestedTransaction)
      else run t false state request := by
  rw [htrue, hfalse, hinside, checked_refusedIfReport]
  split <;> rfl

/-- **A request inside a transaction does what it does outside, or is refused**: it is refused if it
tries to begin a transaction, and then it does nothing. -/
theorem run_inside (t : Thresholds) (state : Request.State) (request : Request) :
    run t true state request = if request.begins t state.store then (state, .failed .nestedTransaction)
      else run t false state request := by
  cases request with
  | transaction body giveUp => exact run_transaction_nested t state body giveUp
  | checkDeadEnd session file symbol now =>
    exact run_check_inside (checkDeadEnd_inside state.store session now file symbol) rfl rfl
  | checkThrash session file now =>
    exact run_check_inside (checkThrash_inside state.store session now t file) rfl rfl
  | checkRedundantAccess session file symbol count now =>
    exact run_check_inside (checkRedundantAccess_inside state.store session now t file symbol _)
      rfl rfl
  | checkFailedSearch session query count now =>
    exact run_check_inside (checkFailedSearch_inside state.store session now t query _) rfl rfl
  | _ => rfl

/-- The requests that do not try to begin a transaction where their turn comes. -/
def kept (t : Thresholds) (state : Request.State) : List Request → List Request
  | [] => []
  | request :: rest =>
    if request.begins t state.store then kept t state rest
    else request :: kept t (run t false state request).1 rest

/-- **What a list of requests leaves inside a transaction is what those leave outside that do not try
to begin one**, and their replies are among its replies. -/
theorem runAll_inside (t : Thresholds) (requests : List Request) : ∀ state : Request.State,
    (runAll t true state requests).1 = (runAll t false state (kept t state requests)).1
      ∧ (runAll t false state (kept t state requests)).2.Sublist (runAll t true state requests).2 := by
  induction requests with
  | nil => exact fun state => ⟨rfl, .refl _⟩
  | cons request rest ih =>
    intro state
    have hstep := run_inside t state request
    by_cases hbegins : request.begins t state.store = true
    · -- the request is refused, and the rest finds the state as it was
      rw [if_pos hbegins] at hstep
      have hrest := ih state
      simp only [runAll_cons, kept, if_pos hbegins, hstep]
      exact ⟨hrest.1, hrest.2.cons _⟩
    · rw [if_neg hbegins] at hstep
      have hrest := ih (run t false state request).1
      simp only [runAll_cons, kept, if_neg hbegins, hstep]
      exact ⟨hrest.1, hrest.2.cons_cons _⟩

/-! ## §3. A transaction that is given up. -/

/-- Whether a request begins a session. -/
def isSession : Request → Bool
  | .createSession _ _ => true
  | _ => false

/-- How many sessions the requests of a transaction begin. -/
def begun (requests : List Request) : Nat := requests.countP isSession

theorem run_inside_sessions (t : Thresholds) (state : Request.State) (request : Request) :
    (run t true state request).1.sessions = state.sessions + if request.isSession then 1 else 0 := by
  cases request with
  | transaction body giveUp => rw [run_transaction_nested]; rfl
  | _ => rfl

/-- A transaction inside does not run, so that the sessions that begin are those of the list itself. -/
theorem runAll_inside_sessions (t : Thresholds) (requests : List Request) : ∀ state : Request.State,
    (runAll t true state requests).1.sessions = state.sessions + begun requests := by
  induction requests with
  | nil => exact fun state => rfl
  | cons request rest ih =>
    intro state
    have hrest := ih (run t true state request).1
    rw [run_inside_sessions] at hrest
    unfold begun at hrest ⊢
    rw [List.countP_cons]
    simp only [runAll_cons, hrest]
    omega

/-- What is given up leaves the tables as they were. -/
theorem run_givenUp (t : Thresholds) (state : Request.State) (body : List Request) :
    run t false state (.transaction body true)
      = (⟨state.store, state.sessions + begun body⟩, .failed .givenUp) := by
  rw [run_transaction_givenUp, runAll_inside_sessions t body state]

/-- The replies that two runs give and the states in which they end are the same but for names. -/
structure SameUpTo (π : String → String) (one other : Request.State × List Reply) : Prop where
  states : Renaming π one.1 other.1
  replies : List.Forall₂ (Reply.Alike π) one.2 other.2

/-- **Names that were skipped do not matter later.** -/
theorem runAll_after_skipped {state : Request.State} (h : state.Fresh) (skipped : Nat) (t : Thresholds)
    (later : List Request) :
    SameUpTo (postponed state skipped) (runAll t false state later)
      (runAll t false ⟨state.store, state.sessions + skipped⟩
        (renameAll (postponed state skipped) later)) := by
  have hrun := runAll_renamed (renaming_postponed h skipped) t false later
  exact ⟨hrun.1, hrun.2⟩

/-! ## §4. All or nothing. -/

/-- **A transaction is kept as a whole or given up as a whole, whatever is in it.** A request in it that
tries to begin a transaction, such as any transaction, is refused with a message, does nothing, and
does not end the open one. Given up, a transaction leaves every table as it was, and whatever is asked
later does what it would have done, up to the names of sessions that had not begun. Kept, it leaves the
state that its requests leave outside any transaction, without those that tried to begin one. -/
theorem transaction_all_or_nothing (t : Thresholds) (state : Request.State) (body : List Request) :
    ((∀ inner giveUp s, begins t s (.transaction inner giveUp) = true)
      ∧ (∀ (during : Request.State) (request : Request), request.begins t during.store = true →
        run t true during request = (during, .failed .nestedTransaction))
      ∧ StoreError.nestedTransaction.message = "cannot start a transaction within a transaction")
    ∧ (run t false state (.transaction body true)
        = (⟨state.store, state.sessions + begun body⟩, .failed .givenUp)
      ∧ (state.Fresh → ∃ π : String → String, (∀ name, ¬ IsLater state name → π name = name)
        ∧ ∀ later, SameUpTo π (runAll t false state later)
          (runAll t false (run t false state (.transaction body true)).1 (renameAll π later))))
    ∧ (∃ replies, run t false state (.transaction body false)
        = ((runAll t false state (kept t state body)).1, .list replies)
      ∧ (runAll t false state (kept t state body)).2.Sublist replies) := by
  refine ⟨⟨fun _ _ _ => rfl, fun during request hbegins => ?_, rfl⟩, ⟨run_givenUp t state body, ?_⟩, ?_⟩
  · rw [run_inside, if_pos hbegins]
  · intro hfresh
    refine ⟨postponed state (begun body), fun name hname => postponed_of_not hname _, fun later => ?_⟩
    rw [run_givenUp]
    exact runAll_after_skipped hfresh (begun body) t later
  · obtain ⟨hstate, hreplies⟩ := runAll_inside t body state
    refine ⟨(runAll t true state body).2, ?_, hreplies⟩
    rw [run_transaction_committed, hstate]

/-- A store with one session in it. -/
def searching : Request.State := (runAll .default false ⟨.empty, 0⟩ [.createSession .indexed none]).1

/-- A document with two chunks of one number, searches that came back empty too often, a session, and a
transaction. -/
def searchingBody : List Request :=
  [.upsertFile ⟨"a.md", "markdown", "0", 1, 1, .doc⟩,
    .replaceChunks 1 [⟨0, none, 1, 1, "x"⟩, ⟨0, none, 2, 2, "y"⟩],
    .checkFailedSearch "S1" "x" 3 0,
    .createSession .indexed (some "again"),
    .transaction [.deleteFile "a.md", .transaction [] true] false,
    .checkFailedSearch "S1" "x" 2 0]

theorem transaction_all_or_nothing_searching :
    (searching.Fresh ∧ begins .default searching.store (.checkFailedSearch "S1" "x" 3 0) = true)
    ∧ run .default true searching (.checkFailedSearch "S1" "x" 3 0)
      = (searching, .failed .nestedTransaction)
    ∧ run .default false searching (.transaction searchingBody true)
      = (⟨searching.store, 2⟩, .failed .givenUp)
    ∧ (∃ π : String → String, π "S1" = "S1"
      ∧ ∀ later, SameUpTo π (runAll .default false searching later)
        (runAll .default false (run .default false searching (.transaction searchingBody true)).1
          (renameAll π later)))
    ∧ (∃ replies, run .default false searching (.transaction searchingBody false)
      = ((runAll .default false searching
          [.upsertFile ⟨"a.md", "markdown", "0", 1, 1, .doc⟩,
            .replaceChunks 1 [⟨0, none, 1, 1, "x"⟩, ⟨0, none, 2, 2, "y"⟩],
            .createSession .indexed (some "again"), .checkFailedSearch "S1" "x" 2 0]).1, .list replies)) := by
  have hfresh : searching.Fresh := (fresh_runAll .default false State.Fresh.empty _).1
  have hbegins : begins .default searching.store (.checkFailedSearch "S1" "x" 3 0) = true := by
    decide +kernel
  obtain ⟨⟨-, hrefused, -⟩, ⟨hgiven, hlater⟩, replies, hkept, -⟩ :=
    transaction_all_or_nothing .default searching searchingBody
  obtain ⟨π, hfixed, hsame⟩ := hlater hfresh
  refine ⟨⟨hfresh, hbegins⟩, hrefused searching _ hbegins, hgiven, ⟨π, hfixed "S1" ?_, hsame⟩,
    replies, hkept⟩
  rintro ⟨number, hnumber, hname⟩
  have hone : 1 = number := sessionName_injective hname
  have hmore : 1 < number := hnumber
  omega

end Request

end CodeIndex
