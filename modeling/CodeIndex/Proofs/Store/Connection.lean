import Mathlib
import CodeIndex.Store.Request

/-!
# Transactions in a connection

A transaction begins, its requests are put, and it is rolled back or committed. No request ends the
transaction that it finds open, and none leaves one open (`put_saved`). So the requests of a transaction
all find it open, and its end goes back to the store with which it began (`run_transaction_givenUp`) or
keeps what they have written (`run_transaction_committed`); a commit is never refused. Where one is open,
another is refused before any of its requests is put (`run_transaction_nested`).

What is kept to go back to is not seen by a request (`put_beside`). That is why a list of requests runs as
its first request and then the others (`runAll_cons`).
-/

namespace CodeIndex.Request

/-! ## §1. Connections. -/

namespace Connection

variable {c : Connection}

theorem begin_open (h : c.isOpen = true) : c.begin = .error .nestedTransaction := if_pos h

theorem begin_closed (h : c.isOpen = false) : c.begin = .ok { c with saved := some c.store } :=
  if_neg (by simp [h])

/-- A transaction that is open is committed. -/
theorem commit_open (h : c.isOpen = true) : c.commit = .ok { c with saved := none } := if_pos h

theorem saved_of_closed (h : c.isOpen = false) : c.saved = none := by
  simpa [isOpen] using h

end Connection

/-- A request that begins no session and no transaction. -/
def isSimple : Request → Bool
  | .createSession _ _ => false
  | .transaction _ _ => false
  | _ => true

theorem put_simple {request : Request} (h : request.isSimple = true) (t : Thresholds) (c : Connection) :
    put t c request = ({ c with store := (runSimple t c.isOpen c.store request).1 },
      (runSimple t c.isOpen c.store request).2) := by
  cases request with
  | createSession mode label => exact absurd h (by simp [isSimple])
  | transaction body giveUp => exact absurd h (by simp [isSimple])
  | _ => rfl

/-! ## §2. The transaction that is open. -/

mutual

/-- **A request leaves a transaction open exactly if it found it open**, and the store to go back to as it
was. -/
theorem put_saved (t : Thresholds) (c : Connection) (request : Request) :
    (put t c request).1.saved = c.saved := by
  cases request with
  | createSession mode label => rfl
  | transaction body giveUp =>
    unfold put
    cases hopen : c.isOpen with
    | true => rw [Connection.begin_open hopen]
    | false =>
      -- the requests find the transaction open and leave it so, and its end closes it
      rw [Connection.begin_closed hopen, Connection.saved_of_closed hopen]
      have hbody := putAll_saved t { c with saved := some c.store } body
      cases giveUp with
      | true => rfl
      | false =>
        have hstill : (putAll t { c with saved := some c.store } body).1.isOpen = true := by
          rw [Connection.isOpen, hbody]
          rfl
        simp only [Connection.commit_open hstill, Bool.false_eq_true, if_false]
  | _ => rfl

/-- So do requests one after another. -/
theorem putAll_saved (t : Thresholds) (c : Connection) :
    ∀ requests : List Request, (putAll t c requests).1.saved = c.saved
  | [] => rfl
  | request :: rest => (putAll_saved t (put t c request).1 rest).trans (put_saved t c request)

end

section Transactions

variable {c : Connection} (t : Thresholds) (body : List Request)

theorem put_transaction_open (h : c.isOpen = true) (giveUp : Bool) :
    put t c (.transaction body giveUp) = (c, .failed .nestedTransaction) := by
  unfold put
  rw [Connection.begin_open h]

/-- Rolled back, a transaction leaves the store with which it began. -/
theorem put_transaction_givenUp (h : c.isOpen = false) :
    put t c (.transaction body true)
      = ({ c with sessions := (putAll t { c with saved := some c.store } body).1.sessions },
        .failed .givenUp) := by
  have hsaved := putAll_saved t { c with saved := some c.store } body
  unfold put
  rw [Connection.begin_closed h]
  simp only [if_true, Connection.rollback, hsaved, Option.getD_some, Connection.saved_of_closed h]

/-- Committed, a transaction leaves what its requests have written. -/
theorem put_transaction_committed (h : c.isOpen = false) :
    put t c (.transaction body false)
      = ({ (putAll t { c with saved := some c.store } body).1 with saved := none },
        .list (putAll t { c with saved := some c.store } body).2) := by
  have hstill : (putAll t { c with saved := some c.store } body).1.isOpen = true := by
    rw [Connection.isOpen, putAll_saved]
    rfl
  unfold put
  rw [Connection.begin_closed h]
  simp only [Connection.commit_open hstill, Bool.false_eq_true, if_false]

end Transactions

/-! ## §3. What a request sees. -/

/-- **A request does not see the store to go back to**, only whether there is one. -/
theorem put_beside (t : Thresholds) (c : Connection) {other : Option Store}
    (h : other.isSome = c.saved.isSome) (request : Request) :
    put t { c with saved := other } request
      = ({ (put t c request).1 with saved := other }, (put t c request).2) := by
  have hsight : ({ c with saved := other } : Connection).isOpen = c.isOpen := h
  cases request with
  | createSession mode label => rfl
  | transaction body giveUp =>
    cases hopen : c.isOpen with
    | true => rw [put_transaction_open t body (hsight.trans hopen), put_transaction_open t body hopen]
    | false =>
      -- there is none in either
      obtain rfl : other = c.saved := by
        rw [Connection.saved_of_closed hopen]
        exact Connection.saved_of_closed (hsight.trans hopen)
      have hsaved := put_saved t c (.transaction body giveUp)
      show put t c (.transaction body giveUp) = _
      generalize put t c (.transaction body giveUp) = result at hsaved ⊢
      obtain ⟨⟨state, saved⟩, reply⟩ := result
      exact congrArg (fun s => ((⟨state, s⟩ : Connection), reply)) hsaved
  | _ => rw [put_simple rfl, put_simple rfl, hsight]

/-- Nor do requests one after another. -/
theorem putAll_beside (t : Thresholds) (other : Option Store) (requests : List Request) :
    ∀ c : Connection, other.isSome = c.saved.isSome →
      putAll t { c with saved := other } requests
        = ({ (putAll t c requests).1 with saved := other }, (putAll t c requests).2) := by
  induction requests with
  | nil => exact fun c _ => rfl
  | cons request rest ih =>
    intro c h
    have hrest := ih (put t c request).1 (by rw [put_saved]; exact h)
    simp only [putAll, put_beside t c h, hrest]

/-! ## §4. Runs. -/

section Runs

variable (t : Thresholds) (nested : Bool) (state : Request.State)

theorem connect_isOpen : (state.connect nested).isOpen = nested := by
  cases nested <;> rfl

theorem run_of_simple {request : Request} (h : request.isSimple = true) :
    run t nested state request = (⟨(runSimple t nested state.store request).1, state.sessions⟩,
      (runSimple t nested state.store request).2) := by
  unfold run
  rw [put_simple h, connect_isOpen]
  rfl

/-- A transaction inside another is refused. -/
theorem run_transaction_nested (body : List Request) (giveUp : Bool) :
    run t true state (.transaction body giveUp) = (state, .failed .nestedTransaction) := by
  unfold run
  rw [put_transaction_open t body rfl]
  rfl

/-- A transaction that is given up has written nothing. -/
theorem run_transaction_givenUp (body : List Request) :
    run t false state (.transaction body true)
      = (⟨state.store, (runAll t true state body).1.sessions⟩, .failed .givenUp) := by
  unfold run
  rw [put_transaction_givenUp t body rfl]
  rfl

/-- A transaction that is kept has written what its requests have. -/
theorem run_transaction_committed (body : List Request) :
    run t false state (.transaction body false)
      = ((runAll t true state body).1, .list (runAll t true state body).2) := by
  unfold run
  rw [put_transaction_committed t body rfl]
  rfl

/-- Requests run one after another. -/
theorem runAll_cons (request : Request) (rest : List Request) :
    runAll t nested state (request :: rest)
      = ((runAll t nested (run t nested state request).1 rest).1,
        (run t nested state request).2 :: (runAll t nested (run t nested state request).1 rest).2) := by
  -- the rest runs in the connection of the first, which differs in the store to go back to
  have hsaved := put_saved t (state.connect nested) request
  have hrest := putAll_beside t (if nested then some (run t nested state request).1.store else none) rest
    (put t (state.connect nested) request).1 (by rw [hsaved]; cases nested <;> rfl)
  have hconnect : (run t nested state request).1.connect nested
      = { (put t (state.connect nested) request).1 with
          saved := if nested then some (run t nested state request).1.store else none } := rfl
  simp only [runAll, hconnect, hrest]
  rfl

end Runs

/-! ## §5. What requests do to a store. -/

/-- What is done to a store by each request of some kind that begins no session and no transaction, and by
the beginning of a session: `R` tells what was done. -/
structure Does (t : Thresholds) (Kind : Request → Prop) (R : Store → Store → Prop) : Prop where
  nothing : ∀ s, R s s
  both : ∀ {s mid s' : Store}, R s mid → R mid s' → R s s'
  create : ∀ (s : Store) id mode label, R s (s.createSession id mode label).1
  simple : ∀ nested s request, Kind request → request.isSimple = true → R s (runSimple t nested s request).1
  /-- A transaction is of the kind if its requests are. -/
  body : ∀ body, Kind (.transaction body false) → ∀ request ∈ body, Kind request

namespace Does

variable {t : Thresholds} {Kind : Request → Prop} {R : Store → Store → Prop}

mutual

/-- **Any request of the kind does that**, inside a transaction or outside. One that is refused or given up
has done nothing. -/
theorem run (h : Does t Kind R) (nested : Bool) (state : State) (request : Request) (hkind : Kind request) :
    R state.store (Request.run t nested state request).1.store := by
  cases request with
  | createSession mode label => exact h.create state.store _ mode label
  | transaction body giveUp =>
    cases nested with
    | true => rw [run_transaction_nested]; exact h.nothing _
    | false =>
      cases giveUp with
      | true => rw [run_transaction_givenUp]; exact h.nothing _
      | false => rw [run_transaction_committed]; exact h.runAll true state body (h.body body hkind)
  | _ => rw [run_of_simple t nested state rfl]; exact h.simple nested state.store _ hkind rfl

/-- So do requests one after another. -/
theorem runAll (h : Does t Kind R) (nested : Bool) (state : State) :
    ∀ requests : List Request, (∀ request ∈ requests, Kind request) →
      R state.store (Request.runAll t nested state requests).1.store
  | [], _ => h.nothing _
  | request :: rest, hkind => by
    rw [runAll_cons]
    exact h.both (h.run nested state request (hkind request List.mem_cons_self))
      (h.runAll nested _ rest fun other hother => hkind other (List.mem_cons_of_mem _ hother))

end

end Does

end CodeIndex.Request
