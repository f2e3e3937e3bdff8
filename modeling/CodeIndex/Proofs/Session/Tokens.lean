import Mathlib
import CodeIndex.Proofs.Session.Rounding
import CodeIndex.Proofs.Store.Names

/-!
# What a session is told to have been served

Every request to count tokens adds an amount to a session. The store keeps the sum alone, so a ledger is kept here
beside it: for each session the amounts it was asked to count, one by one, without those of transactions that were
given up. As long as the amounts of a session add up to an unsigned 64 bit number, the ledger says what the store
tells of the session. It tells the sum, unless an amount has tipped it: the sum so far and the amount both lay below
the end of the signed 64 bit numbers, and together they do not. From then on the row holds a rounded number, and
neither the session can be read nor any list of sessions that reaches it.

The proof follows a run. A row counts what its account lists (`Counts`), and does so after another amount
(`Counts.add`); all rows agree with their accounts (`Ledger.Agrees`) after each request (`agrees_run`) and each list
of requests (`agrees_runAll`).

Main result:
  * `session_tokens_of_run` — after any requests, what is told of a session, and of the latest ones in a list.
-/

namespace CodeIndex

/-! ## §1. Amounts that tip a sum. -/

namespace Served

/-- Among some amounts is one that makes the sum of those before it and itself leave the signed numbers, while
neither the sum nor the amount had left them. -/
def Tips (amounts : List Nat) : Prop :=
  ∃ before amount after, amounts = before ++ amount :: after ∧ Crosses before.sum amount

variable {served : Served} {amounts : List Nat} {n : Nat}

theorem not_tips_nil : ¬ Tips [] := by
  rintro ⟨before, amount, after, h, -⟩
  simp at h

theorem tips_concat : Tips (amounts ++ [n]) ↔ Tips amounts ∨ Crosses amounts.sum n := by
  constructor
  · rintro ⟨before, amount, after, h, hcrosses⟩
    rcases List.eq_nil_or_concat after with rfl | ⟨others, last, rfl⟩
    · obtain ⟨rfl, hamount⟩ := List.append_inj' h rfl
      obtain rfl : n = amount := by simpa using hamount
      exact .inr hcrosses
    · have hsplit : amounts ++ [n] = (before ++ amount :: others) ++ [last] := by
        rw [h]
        simp
      exact .inl ⟨before, amount, others, (List.append_inj' hsplit rfl).1, hcrosses⟩
  · rintro (⟨before, amount, after, rfl, hcrosses⟩ | hcrosses)
    · exact ⟨before, amount, after ++ [n], by simp, hcrosses⟩
    · exact ⟨amounts, n, [], rfl, hcrosses⟩

/-- Amounts that stay below the end of the signed numbers do not tip their sum. -/
theorem Tips.signedEnd_le (h : Tips amounts) : signedEnd ≤ amounts.sum := by
  obtain ⟨before, amount, after, rfl, hcrosses⟩ := h
  have hend := hcrosses.2.2
  rw [List.sum_append, List.sum_cons]
  omega

/-- A sum counts some amounts: it is exact, or one of them has tipped it and it lies past the signed numbers. -/
structure Counts (served : Served) (amounts : List Nat) : Prop where
  exact : ¬ Tips amounts → served = .exact (signed64 amounts.sum)
  rounded : Tips amounts → ∃ x, served = .rounded x ∧ (signedEnd : Int) ≤ x

theorem Counts.nothing : Counts (.exact 0) [] where
  exact _ := rfl
  rounded h := absurd h not_tips_nil

/-- **A sum goes on to count** as another amount is added, whatever happened before. -/
theorem Counts.add (h : Counts served amounts) (hfits : (amounts ++ [n]).sum < unsignedEnd) :
    Counts (served.add (signed64 n)) (amounts ++ [n]) := by
  have hsum : (amounts ++ [n]).sum = amounts.sum + n := by simp
  rw [hsum] at hfits
  by_cases htipped : Tips amounts
  · have hend := htipped.signedEnd_le
    obtain ⟨x, rfl, hx⟩ := h.rounded htipped
    have hn : n < signedEnd := by
      unfold unsignedEnd at hfits
      unfold signedEnd at hend ⊢
      omega
    exact ⟨fun hnot => absurd (tips_concat.mpr (.inl htipped)) hnot, fun _ => add_rounded hx hn⟩
  · obtain rfl := h.exact htipped
    by_cases hcrosses : Crosses amounts.sum n
    · exact ⟨fun hnot => absurd (tips_concat.mpr (.inr hcrosses)) hnot, fun _ => add_crossing hcrosses⟩
    · refine ⟨fun _ => ?_, fun htips => absurd (tips_concat.mp htips) (not_or.mpr ⟨htipped, hcrosses⟩)⟩
      rw [hsum]
      exact add_exact hfits hcrosses

end Served

/-! ## §2. The ledger. -/

/-- The amounts that a session was asked to count, the first one first. -/
structure Account where
  session : String
  amounts : List Nat

/-- All that a session was asked to count. -/
def Account.total (a : Account) : Nat := a.amounts.sum

/-- The accounts of the sessions of a store, and how many sessions have been begun in it. -/
structure Ledger where
  accounts : List Account
  begun : Nat

namespace Ledger

/-- The ledger of an empty store. -/
def empty : Ledger := ⟨[], 0⟩

/-- The account of a session. -/
def account? (ledger : Ledger) (session : String) : Option Account :=
  ledger.accounts.find? (·.session == session)

/-- The accounts of the latest sessions, latest first. -/
def latest (ledger : Ledger) (limit : Nat) : List Account := takeLimit limit ledger.accounts.reverse

/-- A session begins, and has counted nothing. -/
def openAccount (ledger : Ledger) : Ledger :=
  ⟨ledger.accounts ++ [⟨Request.sessionName (ledger.begun + 1), []⟩], ledger.begun + 1⟩

/-- A session is asked to count an amount. -/
def enter (ledger : Ledger) (session : String) (amount : Nat) : Ledger :=
  { ledger with accounts := ledger.accounts.map fun a =>
      if a.session == session then { a with amounts := a.amounts ++ [amount] } else a }

mutual

/-- The ledger after a request; `nested` says that a transaction is open. -/
def after (nested : Bool) (ledger : Ledger) : Request → Ledger
  | .createSession _ _ => ledger.openAccount
  | .addTokens session amount => ledger.enter session amount
  | .transaction body giveUp =>
    if nested then ledger
    else
      let done := afterAll true ledger body
      if giveUp then ⟨ledger.accounts, done.begun⟩ else done
  | _ => ledger

/-- The ledger after requests one after another. -/
def afterAll (nested : Bool) (ledger : Ledger) : List Request → Ledger
  | [] => ledger
  | request :: rest => afterAll nested (after nested ledger request) rest

end

/-- A row of a session counts what its account lists, as long as that is an unsigned number. -/
structure Keeps (r : SessionRow) (a : Account) : Prop where
  session : r.id = a.session
  counts : a.total < unsignedEnd → r.served.Counts a.amounts

/-- The sessions of a store have their accounts, in the order they began. -/
structure Agrees (state : Request.State) (ledger : Ledger) : Prop where
  begun : state.sessions = ledger.begun
  accounts : List.Forall₂ Keeps state.store.sessions ledger.accounts

variable {state : Request.State} {ledger : Ledger} {rows : List SessionRow} {accounts : List Account}

theorem agrees_empty : Agrees ⟨.empty, 0⟩ .empty := ⟨rfl, .nil⟩

/-! ## §3. Requests. -/

theorem Agrees.createSession (h : Agrees state ledger) (mode : SessionMode) (label : Option String) :
    Agrees ⟨(state.store.createSession (Request.sessionName (state.sessions + 1)) mode label).1,
      state.sessions + 1⟩ ledger.openAccount := by
  refine ⟨congrArg (· + 1) h.begun, List.rel_append h.accounts ?_⟩
  rw [h.begun]
  exact .cons ⟨rfl, fun _ => .nothing⟩ .nil

theorem Keeps.add {r : SessionRow} {a : Account} (h : Keeps r a) (amount : Nat) :
    Keeps { r with served := r.served.add (signed64 amount) } { a with amounts := a.amounts ++ [amount] } := by
  refine ⟨h.session, fun hfits => (h.counts ?_).add hfits⟩
  unfold Account.total at hfits ⊢
  rw [List.sum_append] at hfits
  omega

theorem Agrees.addTokens (h : Agrees state ledger) (session : String) (amount : Nat) :
    Agrees ⟨state.store.addTokens session amount, state.sessions⟩ (ledger.enter session amount) := by
  refine ⟨h.begun, ?_⟩
  show List.Forall₂ Keeps (state.store.sessions.map _) (ledger.accounts.map _)
  rw [List.forall₂_map_left_iff, List.forall₂_map_right_iff]
  refine h.accounts.imp fun r a hkeeps => ?_
  have hsame : (r.id == session) = (a.session == session) := by rw [hkeeps.session]
  rw [hsame]
  split
  · exact hkeeps.add amount
  · exact hkeeps

/-- Where no row of a session changes, the accounts still agree. -/
theorem Agrees.of_sessions {s : Store} (h : Agrees state ledger) (hs : s.sessions = state.store.sessions) :
    Agrees ⟨s, state.sessions⟩ ledger := by
  refine ⟨h.begun, ?_⟩
  rw [hs]
  exact h.accounts

mutual

/-- **The ledger agrees** with the store after a request, if it did before. -/
theorem agrees_run (t : Thresholds) (nested : Bool) {state : Request.State} {ledger : Ledger}
    (h : Agrees state ledger) (request : Request) :
    Agrees (request.run t nested state).1 (ledger.after nested request) := by
  cases request with
  | createSession mode label => exact h.createSession mode label
  | addTokens session amount => exact h.addTokens session amount
  | transaction body giveUp =>
    cases nested with
    | true =>
      rw [Request.run_transaction_nested]
      exact h
    | false =>
      have hbody := agrees_runAll t true h body
      cases giveUp with
      | true =>
        -- the sessions are as they were, but names have been given
        rw [Request.run_transaction_givenUp]
        exact ⟨hbody.begun, h.accounts⟩
      | false =>
        rw [Request.run_transaction_committed]
        exact hbody
  | _ =>
    rw [Request.run_of_simple t nested state rfl]
    exact h.of_sessions (Request.sessions_runSimple t nested state.store rfl)

/-- So it does after requests one after another. -/
theorem agrees_runAll (t : Thresholds) (nested : Bool) {state : Request.State} {ledger : Ledger}
    (h : Agrees state ledger) : ∀ requests : List Request,
      Agrees (Request.runAll t nested state requests).1 (ledger.afterAll nested requests)
  | [] => h
  | request :: rest => by
    rw [Request.runAll_cons]
    exact agrees_runAll t nested (agrees_run t nested h request) rest

end

/-! ## §4. What is told. -/

theorem Keeps.read {r : SessionRow} {a : Account} (h : Keeps r a) (hfits : a.total < unsignedEnd) :
    (¬ Served.Tips a.amounts → Store.readSession r = .ok ⟨a.session, r.mode, r.label, a.total⟩)
      ∧ (Served.Tips a.amounts → Store.readSession r = .error .roundedTokens) := by
  have hcounts := h.counts hfits
  unfold Store.readSession
  constructor
  · intro hexact
    have htokens : (Served.exact (signed64 a.amounts.sum)).tokens = .ok a.total := Served.tokens_exact hfits
    rw [hcounts.exact hexact, htokens, h.session]
    rfl
  · intro htips
    obtain ⟨x, hrounded, -⟩ := hcounts.rounded htips
    rw [hrounded]
    rfl

/-- The row of an account is found by the same name. -/
theorem find?_of_keeps (h : List.Forall₂ Keeps rows accounts) {session : String} {a : Account}
    (haccount : accounts.find? (·.session == session) = some a) :
    ∃ r, rows.find? (·.id == session) = some r ∧ Keeps r a := by
  induction h with
  | nil => cases haccount
  | @cons r b _ _ hkeeps _ ih =>
    rw [List.find?_cons] at haccount ⊢
    rw [hkeeps.session]
    cases hname : b.session == session with
    | true =>
      rw [hname] at haccount
      cases haccount
      exact ⟨r, rfl, hkeeps⟩
    | false =>
      rw [hname] at haccount
      exact ih haccount

/-- A session is told as its account has it. -/
theorem Agrees.session (h : Agrees state ledger) {session : String} {a : Account}
    (haccount : ledger.account? session = some a) (hfits : a.total < unsignedEnd) :
    (¬ Served.Tips a.amounts →
      ∃ told, state.store.session session = .ok (some told) ∧ told.id = session ∧ told.tokens = a.total)
      ∧ (Served.Tips a.amounts → state.store.session session = .error .roundedTokens) := by
  obtain ⟨r, hrow, hkeeps⟩ := find?_of_keeps h.accounts haccount
  have hname : a.session = session := by simpa using List.find?_some haccount
  have hread := hkeeps.read hfits
  unfold Store.session
  rw [hrow]
  constructor
  · intro hexact
    refine ⟨⟨a.session, r.mode, r.label, a.total⟩, ?_, hname, rfl⟩
    simp only [hread.1 hexact]
    rfl
  · intro htips
    simp only [hread.2 htips]
    rfl

/-- Rows are read one by one where no sum is tipped. -/
theorem mapM_read_of_exact (h : List.Forall₂ Keeps rows accounts) (hfits : ∀ a ∈ accounts, a.total < unsignedEnd)
    (hexact : ∀ a ∈ accounts, ¬ Served.Tips a.amounts) :
    ∃ told, rows.mapM Store.readSession = .ok told
      ∧ told.map (fun v => (v.id, v.tokens)) = accounts.map fun a => (a.session, a.total) := by
  induction h with
  | nil => exact ⟨[], rfl, rfl⟩
  | @cons r a rows accounts hkeeps _ ih =>
    have hread := (hkeeps.read (hfits a List.mem_cons_self)).1 (hexact a List.mem_cons_self)
    obtain ⟨told, hrest, htold⟩ := ih (fun b hb => hfits b (List.mem_cons_of_mem a hb))
      fun b hb => hexact b (List.mem_cons_of_mem a hb)
    refine ⟨⟨a.session, r.mode, r.label, a.total⟩ :: told, ?_, ?_⟩
    · rw [List.mapM_cons, hread, hrest]
      rfl
    · rw [List.map_cons, List.map_cons, htold]

/-- One tipped sum spoils the whole list. -/
theorem mapM_read_of_tips (h : List.Forall₂ Keeps rows accounts) (hfits : ∀ a ∈ accounts, a.total < unsignedEnd)
    (htips : ∃ a ∈ accounts, Served.Tips a.amounts) :
    rows.mapM Store.readSession = .error .roundedTokens := by
  induction h with
  | nil => simp at htips
  | @cons r a rows accounts hkeeps _ ih =>
    have hread := hkeeps.read (hfits a List.mem_cons_self)
    rw [List.mapM_cons]
    by_cases hfirst : Served.Tips a.amounts
    · rw [hread.2 hfirst]
      rfl
    · have hlater : ∃ b ∈ accounts, Served.Tips b.amounts := by
        obtain ⟨b, hb, hbtips⟩ := htips
        rcases List.mem_cons.mp hb with rfl | hb
        · exact absurd hbtips hfirst
        · exact ⟨b, hb, hbtips⟩
      rw [hread.1 hfirst, ih (fun b hb => hfits b (List.mem_cons_of_mem a hb)) hlater]
      rfl

theorem Agrees.latest (h : Agrees state ledger) (limit : Nat) :
    List.Forall₂ Keeps (takeLimit limit state.store.sessions.reverse) (ledger.latest limit) := by
  have hreverse := List.forall₂_reverse_iff.mpr h.accounts
  unfold Ledger.latest takeLimit
  split
  · exact List.forall₂_take limit hreverse
  · exact hreverse

/-- **What is told of sessions after any requests.** Whatever has been asked of a store, a session whose amounts add
up to an unsigned 64 bit number is told with exactly their sum, unless one of them has tipped the sum: then it
cannot be read. A list of the latest sessions, each of which has counted such a number, tells all of them with their
sums, unless the sum of one of them is tipped: then there is no list. -/
theorem session_tokens_of_run (t : Thresholds) (requests : List Request) :
    let store := (Request.runAll t false ⟨.empty, 0⟩ requests).1.store
    let ledger := Ledger.empty.afterAll false requests
    (∀ session a, ledger.account? session = some a → a.total < unsignedEnd →
      (¬ Served.Tips a.amounts →
        ∃ told, store.session session = .ok (some told) ∧ told.id = session ∧ told.tokens = a.total)
      ∧ (Served.Tips a.amounts → store.session session = .error .roundedTokens))
    ∧ ∀ limit, (∀ a ∈ ledger.latest limit, a.total < unsignedEnd) →
      ((∀ a ∈ ledger.latest limit, ¬ Served.Tips a.amounts) →
        ∃ told, store.listSessions limit = .ok told
          ∧ told.map (fun v => (v.id, v.tokens)) = (ledger.latest limit).map fun a => (a.session, a.total))
      ∧ ((∃ a ∈ ledger.latest limit, Served.Tips a.amounts) →
        store.listSessions limit = .error .roundedTokens) := by
  intro store ledger
  have hagrees : Agrees (Request.runAll t false ⟨.empty, 0⟩ requests).1 ledger :=
    agrees_runAll t false agrees_empty requests
  constructor
  · intro session a haccount hfits
    exact hagrees.session haccount hfits
  · intro limit hfits
    have hlatest := hagrees.latest limit
    exact ⟨mapM_read_of_exact hlatest hfits, mapM_read_of_tips hlatest hfits⟩

/-- Two amounts, one of them a single token, add up to an unsigned number that their session cannot tell, and with it
no list of the latest sessions can be told. -/
theorem single_token_tips :
    let requests := [.createSession .indexed none, .addTokens "S1" 9223372036854775807, .addTokens "S1" 1]
    let store := (Request.runAll .default false ⟨.empty, 0⟩ requests).1.store
    (Ledger.empty.afterAll false requests).accounts = [⟨"S1", [9223372036854775807, 1]⟩]
      ∧ [9223372036854775807, 1].sum < unsignedEnd
      ∧ store.session "S1" = .error .roundedTokens
      ∧ store.listSessions 10 = .error .roundedTokens := by
  refine ⟨rfl, by decide, rfl, rfl⟩

end Ledger

end CodeIndex
