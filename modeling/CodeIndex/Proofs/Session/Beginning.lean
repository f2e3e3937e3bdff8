import Mathlib
import CodeIndex.Proofs.Session.Reports

/-!
# What a session is begun for

An observer puts its session into the store when there is something to write for the first time, so
that a session which only reads leaves no trace. It begins the session before it knows that there is
something to write, though: a lookup without a result is written down only if the file is there, and a
search without a result only the time that makes it too often. Seen alone, such a call leaves a session
behind that holds nothing.

What comes of a call or of the changes of a file is told by it and the disk (`Sight.outcome`, §3). The
session is there from the first outcome on that is not `passed`, and it holds something unless all of
them were in vain (`InVain`).

Main results: `lookup_of_nothing_begins_session`, `session_empty_iff_in_vain`.
-/

namespace CodeIndex

/-! ## §1. Every result counts for at least one token. -/

theorem allBlank_of_mem {s : List Char} {c : Char} (hmem : c ∈ s) (hc : Text.isBlank c = false) :
    Text.allBlank s = false := by
  unfold Text.allBlank
  rw [List.all_eq_false]
  exact ⟨c, hmem, by simp [hc]⟩

theorem isBlank_of_isDigit {c : Char} (h : c.isDigit = true) : Text.isBlank c = false := by
  have hrange : 48 ≤ c.toNat ∧ c.toNat ≤ 57 := by
    simpa [Char.isDigit, UInt32.le_iff_toNat_le] using h
  unfold Text.isBlank
  simp only [Bool.or_eq_false_iff, Bool.and_eq_false_iff, decide_eq_false_iff_not, beq_eq_false_iff_ne]
  omega

/-- The digits of a number are no blanks, and neither is its sign. -/
theorem allBlank_intText (n : Int) : Text.allBlank (Json.intText n) = false := by
  unfold Json.intText
  split
  · exact allBlank_of_mem List.mem_cons_self (by decide)
  · obtain ⟨c, hc⟩ := List.exists_mem_of_ne_nil _ (Nat.toDigits_ne_nil (n := n.natAbs) (b := 10))
    exact allBlank_of_mem hc
      (isBlank_of_isDigit (Nat.isDigit_of_mem_toDigits (by decide) (by decide) hc))

/-- A decimal has a point or an exponent. -/
theorem allBlank_layout (digits : List Char) (point : Int) :
    Text.allBlank (Decimal.layout.text digits point) = false := by
  unfold Decimal.Layout.text
  simp only
  split
  · exact allBlank_of_mem (c := 'e') (by simp) (by decide)
  · split
    · exact allBlank_of_mem (c := '.') (by simp) (by decide)
    · split
      · exact allBlank_of_mem (c := '.') (by simp) (by decide)
      · exact allBlank_of_mem (c := '.') (by simp) (by decide)

theorem allBlank_render (f : Float) : Text.allBlank (Decimal.render f) = false := by
  unfold Decimal.render
  simp only
  split
  · exact allBlank_of_mem List.mem_cons_self (by decide)
  · split
    · decide
    · exact allBlank_layout _ _

/-- A value on one line is no blank text. -/
theorem allBlank_compact (v : Json) : Text.allBlank v.compact = false := by
  cases v with
  | null => decide
  | bool b => cases b <;> decide
  | num n =>
    cases n with
    | int n => exact allBlank_intText n
    | float f => exact allBlank_render f
  | str s => exact allBlank_of_mem (c := '"') (by simp [Json.compact, Json.quoted]) (by decide)
  | arr items => exact allBlank_of_mem (c := '[') (by simp [Json.compact]) (by decide)
  | obj members => exact allBlank_of_mem (c := '{') (by simp [Json.compact]) (by decide)

theorem estimateTokens_compact_pos (v : Json) : 0 < estimateTokens v.compact := by
  unfold estimateTokens
  rw [if_neg (by simp [allBlank_compact v])]
  exact Nat.lt_of_lt_of_le Nat.zero_lt_one (Nat.le_max_left _ _)

/-! ## §2. Tokens that are served. -/

namespace Served

/-- The sum that is stored, exact or not. -/
def sum : Served → Int
  | .exact n => n
  | .rounded n => n

theorem sum_ofRounded (n : Int) : (ofRounded n).sum = n := by
  unfold ofRounded
  split <;> rfl

theorem round_nonneg {n : Int} (h : 0 ≤ n) : 0 ≤ round n := by
  unfold round
  simp only [if_neg (not_lt.mpr h)]
  exact Int.natCast_nonneg _

/-- To round a positive number to its first bits does not make it zero. -/
theorem round_pos {n : Int} (h : 0 < n) : 0 < round n := by
  have hm : 0 < n.natAbs := by omega
  unfold round
  simp only [if_neg (not_lt.mpr h.le)]
  -- the unit is a power of two that is not above the number
  have hunit : Nat.pow 2 (Nat.log2 n.natAbs + 1 - precision) ≤ n.natAbs :=
    le_trans (Nat.pow_le_pow_right (by decide) (by unfold precision; omega))
      (Nat.log2_self_le hm.ne')
  have hpos : 0 < Nat.pow 2 (Nat.log2 n.natAbs + 1 - precision) := Nat.pow_pos (by decide)
  generalize Nat.pow 2 (Nat.log2 n.natAbs + 1 - precision) = unit at hunit hpos ⊢
  have hquotient : 0 < n.natAbs / unit := Nat.div_pos hunit hpos
  refine Int.natCast_pos.mpr (Nat.mul_pos ?_ hpos)
  split
  · exact Nat.succ_pos _
  · exact hquotient

/-- A sum that a positive number is added to is positive. -/
theorem sum_add_pos {served : Served} (h : 0 ≤ served.sum) {n : Int} (hn : 0 < n) :
    0 < (served.add n).sum := by
  cases served with
  | exact sum =>
    have hsum : 0 ≤ sum := h
    unfold add
    simp only
    split
    · exact Int.add_pos_of_nonneg_of_pos hsum hn
    · rw [sum_ofRounded]
      exact round_pos (Int.add_pos_of_nonneg_of_pos (round_nonneg hsum) (round_pos hn))
  | rounded sum =>
    rw [add, sum_ofRounded]
    exact round_pos (Int.add_pos_of_nonneg_of_pos h (round_pos hn))

end Served

/-! ## §3. What comes of what is seen. -/

/-- What comes of a call or of the changes of a file. -/
inductive Outcome where
  /-- It is not for this observer. -/
  | passed
  /-- It is, but there is nothing to write. -/
  | vain
  /-- A search found nothing. -/
  | failed (query : String)
  /-- A search found something, for so many tokens. -/
  | served (tokens : Nat)
  /-- It is logged. -/
  | logged
  deriving DecidableEq, Repr

open Observer (Sight)

/-- What comes of what is seen, for an observer of the project at a root. -/
def Observer.Sight.outcome (root : String) (d : Disk) : Sight → Outcome
  | .call made _ =>
    if made.isError then .logged
    else
      match made.kind with
      | .lookup =>
        match made.targetFile?.map (Path.relative root) with
        | some file =>
          if made.foundNothing && !d.isFile (Path.under root file) then .vain else .logged
        | none => .passed
      | .search =>
        match made.queryArg? with
        | some query =>
          if made.foundNothing then .failed query else .served (estimateTokens made.result.compact)
        | none => .passed
      | .other => .passed
  | .changes diff _ => if diff.isFirst || diff.changes.isEmpty then .passed else .logged

/-- What an observer does by what comes of it. -/
inductive Comes (o : Observer) (s : Store) : Outcome → Observer × Store → Prop where
  | passed : Comes o s .passed (o, s)
  | vain : Comes o s .vain (o.begin s)
  /-- A failed search is counted, and the check may report it. -/
  | failed (query : String) (now : Time) :
      Comes o s (.failed query) ({ o with begun := true, tally := o.tally.recordFailedSearch query },
        Observer.afterCheck (o.begin s).2 (checkFailedSearch o.thresholds false (o.begin s).2 o.session
          query ((o.tally.recordFailedSearch query).failedSearchCount query) now))
  | served {tokens : Nat} (pos : 0 < tokens) :
      Comes o s (.served tokens) ({ o with begun := true }, (o.begin s).2.addTokens o.session tokens)
  /-- An event is logged, and other writes may follow. -/
  | logged {tally : Tally} {event : NewEvent} {now : Time} {mid s' : Store} {i : RowId}
      (logged : (o.begin s).2.insertEvent o.session event now = .ok (mid, i))
      (rest : SessionWrites o.session mid s')
      (searches : tally.failedSearches = o.tally.failedSearches) :
      Comes o s .logged ({ o with begun := true, tally }, s')

namespace Observer

variable {o : Observer} {s : Store}

theorem onError_comes (h : o.Ready s) (call : ToolCall) (file : Option String) (now : Time) :
    Comes o s .logged (o.onError s call file now) := by
  obtain ⟨mid, i, hevent⟩ := Store.insertEvent_accepted (begin_hasSession h)
    ⟨.toolError, file, none, some (errorDetails call)⟩ now
  unfold onError
  simp only [begin_fst, hevent]
  exact .logged hevent (checkToolErrors_checked _ _ _ _).entered.writes rfl

theorem onLookup_comes (h : o.Ready s) (d : Disk) (call : ToolCall) (file : String) (now : Time) :
    Comes o s (if call.foundNothing && !d.isFile (Path.under o.root file) then .vain else .logged)
      (o.onLookup d s call file now) := by
  have hsession := begin_hasSession h
  unfold onLookup
  simp only [begin_fst]
  cases call.foundNothing with
  | false =>
    obtain ⟨mid, i, hevent⟩ := Store.insertEvent_accepted hsession
      ⟨.accessed, some file, call.symbolArg?, some (toolDetails call)⟩ now
    simp only [hevent]
    exact .logged hevent
      ((SessionWrites.tokens mid _).trans (checkRedundantAccess_checked _ _ _ _ _).entered.writes) rfl
  | true =>
    cases d.isFile (Path.under o.root file) with
    | true =>
      obtain ⟨mid, i, hevent⟩ := Store.insertEvent_accepted hsession
        ⟨.indexBlindSpot, some file, call.symbolArg?, some (toolDetails call)⟩ now
      simp only [hevent]
      exact .logged hevent (.none mid) rfl
    | false =>
      have hvain := Comes.vain (o := o) (s := s)
      rw [← Prod.eta (o.begin s), begin_fst] at hvain
      exact hvain

theorem onSearch_comes (o : Observer) (s : Store) (call : ToolCall) (query : String) (now : Time) :
    Comes o s
      (if call.foundNothing then .failed query else .served (estimateTokens call.result.compact))
      (o.onSearch s call query now) := by
  unfold onSearch
  simp only [begin_fst]
  cases call.foundNothing with
  | true => exact .failed query now
  | false => exact .served (estimateTokens_compact_pos call.result)

theorem onFileDiff_comes (h : o.Ready s) (diff : FileDiff) (now : Time) :
    Comes o s (if diff.isFirst || diff.changes.isEmpty then .passed else .logged)
      ((o.onFileDiff s diff now).observer, (o.onFileDiff s diff now).store) := by
  have hsession := begin_hasSession h
  unfold onFileDiff
  split
  · exact .passed
  next hsome =>
    obtain ⟨c, rest, hchanges⟩ : ∃ c rest, diff.changes = c :: rest := by
      cases hchanges : diff.changes with
      | nil => simp [hchanges] at hsome
      | cons c rest => exact ⟨c, rest, rfl⟩
    -- the first change is logged before anything else is written
    obtain ⟨first, hfirst, -, -⟩ := onChange_log (o := { o with begun := true }) hsession diff.path c now
    obtain ⟨mid, i, hevent, hentered⟩ := onChange_entered hfirst
    obtain ⟨last, hlast, -, -⟩ :=
      onChanges_log (o := { o with begun := true }) diff.path now diff.changes hsession
    have hrest : SessionWrites o.session mid last := by
      have hmarked : SessionWrites o.session mid (marked mid diff.path c) := by
        unfold marked
        split
        · exact .stale mid _ _ _
        · exact .none mid
      have hothers := onChanges_writes { o with begun := true } diff.path now rest first
      rw [hchanges, onChanges, hfirst] at hlast
      simp only at hlast
      rw [hlast] at hothers
      exact hmarked.trans (hentered.writes.trans hothers)
    have hthrash : SessionWrites o.session last
        (afterCheck last (checkThrash o.thresholds false last o.session diff.path now)) :=
      (checkThrash_checked false diff.path now).entered.writes
    simp only [begin_fst, hlast]
    generalize checkThrash o.thresholds false last o.session diff.path now = result at hthrash ⊢
    have hlogged := Comes.logged hevent (hrest.trans hthrash) rfl
    cases result with
    | ok checked => exact hlogged
    | error e => cases e <;> exact hlogged

/-- **What comes of it is what the observer does.** -/
theorem see_comes (h : o.Ready s) (d : Disk) (sight : Sight) :
    Comes o s (sight.outcome o.root d) (o.see d s sight) := by
  cases sight with
  | changes diff now => exact onFileDiff_comes h diff now
  | call made now =>
    unfold see onToolCall Sight.outcome
    simp only
    split
    · exact onError_comes h made _ now
    · cases made.kind with
      | lookup =>
        cases made.targetFile?.map (Path.relative o.root) with
        | some file => exact onLookup_comes h d made file now
        | none => exact .passed
      | search =>
        cases made.queryArg? with
        | some query => exact onSearch_comes o s made query now
        | none => exact .passed
      | other => exact .passed

end Observer

/-! ## §4. What a session holds. -/

/-- A session holds an event, an observation, or tokens that were served. -/
def Memory.Filled (m : Memory) : Prop :=
  m.events ≠ [] ∨ m.observations ≠ [] ∨ ∃ row, m.session = some row ∧ 0 < row.served.sum

/-- Outcomes that leave nothing behind: nothing is logged or served, and no search fails as often as
makes it too often. A count of zero is reached when the counter comes round to it. -/
structure InVain (t : Thresholds) (outcomes : List Outcome) : Prop where
  logged : .logged ∉ outcomes
  served : ∀ tokens, .served tokens ∉ outcomes
  searches : ∀ query, outcomes.count (.failed query) < t.failedSearch.toNat
    ∨ t.failedSearch = 0 ∧ outcomes.count (.failed query) < 2 ^ 32

/-- What the next outcome says of all of them. -/
theorem InVain.append_iff {t : Thresholds} {past : List Outcome} (outcome : Outcome) :
    InVain t (past ++ [outcome]) ↔ InVain t past ∧
      match outcome with
      | .passed | .vain => True
      | .failed query => past.count (.failed query) + 1 < t.failedSearch.toNat
          ∨ t.failedSearch = 0 ∧ past.count (.failed query) + 1 < 2 ^ 32
      | .served _ | .logged => False := by
  have hcount : ∀ query, (past ++ [outcome]).count (.failed query)
      = past.count (.failed query) + if outcome = .failed query then 1 else 0 := by
    intro query
    rw [List.count_append, List.count_singleton]
    simp only [beq_iff_eq]
  constructor
  · intro h
    refine ⟨⟨?_, ?_, ?_⟩, ?_⟩
    · exact fun hlogged => h.logged (List.mem_append_left _ hlogged)
    · exact fun tokens hserved => h.served tokens (List.mem_append_left _ hserved)
    · intro query
      have hquery := h.searches query
      rw [hcount] at hquery
      exact hquery.imp (by omega) fun hround => ⟨hround.1, by omega⟩
    · cases outcome with
      | passed | vain => trivial
      | failed query => simpa [hcount] using h.searches query
      | served tokens => exact h.served tokens (by simp)
      | logged => exact h.logged (by simp)
  · rintro ⟨h, hlast⟩
    refine ⟨?_, ?_, ?_⟩
    · intro hlogged
      rcases List.mem_append.mp hlogged with hpast | hnow
      · exact h.logged hpast
      · rw [List.mem_singleton] at hnow
        subst hnow
        exact hlast
    · intro tokens hserved
      rcases List.mem_append.mp hserved with hpast | hnow
      · exact h.served tokens hpast
      · rw [List.mem_singleton] at hnow
        subst hnow
        exact hlast
    · intro query
      rw [hcount]
      split
      next hnow =>
        subst hnow
        exact hlast
      next => exact h.searches query

/-- A check does not touch the row of the session. -/
theorem Checked.memory_session {t : Thresholds} {session : String} {s s' : Store}
    (h : Checked t session s s') : (s'.memory session).session = (s.memory session).session := by
  cases h with
  | quiet => rfl
  | report logged recorded =>
    rw [Store.insertObservation_memory recorded, if_pos rfl, Store.insertEvent_memory logged, if_pos rfl]
  | environment recorded => rw [Store.insertObservation_memory recorded, if_pos rfl]

theorem Memory.Filled.of_checked {t : Thresholds} {session : String} {s s' : Store}
    (h : (s.memory session).Filled) (hchecked : Checked t session s s') :
    (s'.memory session).Filled := by
  obtain ⟨hevents, hobservations⟩ := @SessionWrites.memory_grows session session _ _ hchecked.entered.writes
  rcases h with hsome | hsome | hserved
  · exact .inl fun hnone => hsome (List.prefix_nil.mp (hnone ▸ hevents))
  · exact .inr (.inl fun hnone => hsome (List.prefix_nil.mp (hnone ▸ hobservations)))
  · exact .inr (.inr (hchecked.memory_session ▸ hserved))

/-- The row under which an observer begins its session. -/
def Observer.row (o : Observer) : SessionRow := ⟨o.session, o.mode, o.label, .exact 0⟩

/-- What is kept of an observer that had seen nothing, by what came of all that it has seen. -/
structure Held (new : Observer) (past : List Outcome) (o : Observer) (m : Memory) : Prop where
  same : o = { new with begun := o.begun, tally := o.tally }
  begun : o.begun = true ↔ ∃ outcome ∈ past, outcome ≠ .passed
  there : m.session.isSome = o.begun
  searches : ∀ query, o.tally.failedSearchCount query = UInt32.ofNat (past.count (.failed query))
  empty : InVain new.thresholds past → m = ⟨if o.begun then some new.row else none, [], []⟩
  filled : ¬InVain new.thresholds past →
    (∀ tokens, .served tokens ∈ past → tokens < signedEnd) → m.Filled

/-- What has begun is there, and holds what it is to hold. -/
structure Begun (new : Observer) (past : List Outcome) (m : Memory) : Prop where
  there : m.session.isSome = true
  empty : InVain new.thresholds past → m = ⟨some new.row, [], []⟩
  filled : ¬InVain new.thresholds past →
    (∀ tokens, .served tokens ∈ past → tokens < signedEnd) → m.Filled

namespace Held

variable {new o : Observer} {past : List Outcome} {s : Store}
  (h : Held new past o (s.memory o.session))

include h

theorem ready : o.Ready s := by
  intro hbegun
  rw [Store.hasSession_memory, h.there, hbegun]

theorem begin : Begun new past ((o.begin s).2.memory o.session) := by
  have hrow : o.row = new.row := by rw [h.same]; rfl
  have hbegin : (o.begin s).2.memory o.session
      = { s.memory o.session with session := (s.memory o.session).session.or (some new.row) } := by
    unfold Observer.begin
    split
    next hbegun =>
      obtain ⟨row, hthere⟩ := Option.isSome_iff_exists.mp (h.there.trans hbegun)
      rw [hthere, Option.some_or, ← hthere]
    next =>
      rw [Store.createSession_memory, if_pos rfl, ← hrow]
      rfl
  rw [hbegin]
  refine ⟨by simp, ?_, ?_⟩
  · intro hvain
    rw [h.empty hvain]
    split <;> rfl
  · intro hnot hsizes
    -- what the session held is not touched
    rcases h.filled hnot hsizes with hevents | hobservations | ⟨row, hsession, hpositive⟩
    · exact .inl hevents
    · exact .inr (.inl hobservations)
    · exact .inr (.inr ⟨row, by simp [hsession], hpositive⟩)

/-- What is passed over changes nothing. -/
theorem passed : Held new (past ++ [.passed]) o (s.memory o.session) where
  same := h.same
  begun := by rw [h.begun]; simp
  there := h.there
  searches query := by rw [h.searches]; simp
  empty hvain := h.empty ((InVain.append_iff _).mp hvain).1
  filled hnot hsizes :=
    h.filled (fun hvain => hnot ((InVain.append_iff _).mpr ⟨hvain, trivial⟩)) (by simpa using hsizes)

/-- What is not passed over begins the session. What it holds then is told by the rest of the outcome. -/
theorem of_begun {outcome : Outcome} (hnew : outcome ≠ .passed) {tally : Tally} {m : Memory}
    (hsearches : ∀ query, tally.failedSearchCount query
      = UInt32.ofNat (past.count (.failed query) + if outcome = .failed query then 1 else 0))
    (hbegun : Begun new (past ++ [outcome]) m) :
    Held new (past ++ [outcome]) { o with begun := true, tally } m where
  same := by rw [h.same]
  begun := ⟨fun _ => ⟨outcome, by simp, hnew⟩, fun _ => rfl⟩
  there := hbegun.there
  searches query := by
    rw [List.count_append, List.count_singleton]
    simpa only [beq_iff_eq] using hsearches query
  empty := hbegun.empty
  filled := hbegun.filled

theorem vain : Held new (past ++ [.vain]) (o.begin s).1 ((o.begin s).2.memory o.session) := by
  have hbegun := h.begin
  rw [Observer.begin_fst]
  refine h.of_begun (by simp) (by simpa using h.searches) ⟨hbegun.there, ?_, ?_⟩
  · exact fun hvain => hbegun.empty ((InVain.append_iff _).mp hvain).1
  · exact fun hnot hsizes =>
      hbegun.filled (fun hvain => hnot ((InVain.append_iff _).mpr ⟨hvain, trivial⟩)) (by simpa using hsizes)

/-- An event that is logged stays. -/
theorem logged {tally : Tally} {event : NewEvent} {now : Time} {mid s' : Store} {i : RowId}
    (hlogged : (o.begin s).2.insertEvent o.session event now = .ok (mid, i))
    (rest : SessionWrites o.session mid s') (searches : tally.failedSearches = o.tally.failedSearches) :
    Held new (past ++ [.logged]) { o with begun := true, tally } (s'.memory o.session) := by
  have hcount : ∀ query, tally.failedSearchCount query = o.tally.failedSearchCount query := by
    intro query
    rw [Tally.failedSearchCount, searches]
    rfl
  refine h.of_begun (by simp) (by simpa [hcount] using h.searches) ⟨?_, ?_, ?_⟩
  · have hmid := (SessionWrites.event hlogged).hasSession
      (by rw [Store.hasSession_memory]; exact h.begin.there)
    rw [← Store.hasSession_memory]
    exact rest.hasSession hmid
  · exact fun hvain => absurd ((InVain.append_iff _).mp hvain).2 id
  · intro _ _
    have hmem : (event, now) ∈ (mid.memory o.session).events := by
      rw [Store.insertEvent_memory hlogged, if_pos rfl]
      simp
    exact .inl (List.ne_nil_of_mem (rest.memory_grows.1.subset hmem))

/-- Tokens that are served add up. -/
theorem served {tokens : Nat} (hpos : 0 < tokens) :
    Held new (past ++ [.served tokens]) { o with begun := true }
      (((o.begin s).2.addTokens o.session tokens).memory o.session) := by
  have hbegun := h.begin
  refine h.of_begun (by simp) (by simpa using h.searches) ⟨?_, ?_, ?_⟩
  · rw [Store.addTokens_memory, if_pos rfl]
    simpa using hbegun.there
  · exact fun hvain => absurd ((InVain.append_iff _).mp hvain).2 id
  · intro _ hsizes
    have hsize : signed64 tokens = tokens := if_pos (hsizes tokens (by simp))
    have hadd : ∀ {row : SessionRow}, ((o.begin s).2.memory o.session).session = some row →
        0 ≤ row.served.sum →
        (((o.begin s).2.addTokens o.session tokens).memory o.session).Filled := by
      intro row hrow hsum
      rw [Store.addTokens_memory, if_pos rfl]
      refine .inr (.inr ⟨_, by rw [hrow]; rfl, ?_⟩)
      rw [hsize]
      exact Served.sum_add_pos hsum (Int.natCast_pos.mpr hpos)
    by_cases hvain : InVain new.thresholds past
    · exact hadd (by rw [hbegun.empty hvain]) le_rfl
    · rcases hbegun.filled hvain (fun n hn => hsizes n (List.mem_append_left _ hn)) with
        hevents | hobservations | ⟨row, hrow, hsum⟩
      · rw [Store.addTokens_memory, if_pos rfl]
        exact .inl hevents
      · rw [Store.addTokens_memory, if_pos rfl]
        exact .inr (.inl hobservations)
      · exact hadd hrow hsum.le

/-- A failed search leaves something behind the time that makes it too often, and then it stays. -/
theorem failed (query : String) (now : Time) :
    Held new (past ++ [.failed query])
      { o with begun := true, tally := o.tally.recordFailedSearch query }
      ((Observer.afterCheck (o.begin s).2 (checkFailedSearch o.thresholds false (o.begin s).2 o.session
        query ((o.tally.recordFailedSearch query).failedSearchCount query) now)).memory o.session) := by
  have hbegun := h.begin
  have hthresholds : o.thresholds = new.thresholds := by rw [h.same]
  have hcount : ∀ other, (o.tally.recordFailedSearch query).failedSearchCount other
      = UInt32.ofNat (past.count (.failed other)
        + if Outcome.failed query = .failed other then 1 else 0) := by
    intro other
    rw [UInt32.ofNat_add, ← h.searches other]
    simp only [Tally.failedSearchCount, Tally.recordFailedSearch, Counts.get_bump,
      Outcome.failed.injEq, eq_comm]
    split <;> rfl
  have hattempts := hcount query
  rw [if_pos rfl] at hattempts
  rw [hattempts]
  have hchecked : Checked o.thresholds o.session (o.begin s).2
      (Observer.afterCheck (o.begin s).2 (checkFailedSearch o.thresholds false (o.begin s).2 o.session
        query (UInt32.ofNat (past.count (.failed query) + 1)) now)) := checkFailedSearch_checked _ _ _ _
  have hsession : (o.begin s).2.hasSession o.session = true := by
    rw [Store.hasSession_memory]
    exact hbegun.there
  refine h.of_begun (by simp) hcount ⟨?_, ?_, ?_⟩
  · rw [hchecked.memory_session]
    exact hbegun.there
  · intro hvain
    obtain ⟨hbefore, hfew⟩ := (InVain.append_iff _).mp hvain
    -- it has not failed often enough
    have hquiet : UInt32.ofNat (past.count (.failed query) + 1) ≠ new.thresholds.failedSearch := by
      rw [ne_eq, UInt32.ofNat_eq_iff_mod_eq_toNat]
      rcases hfew with hfew | ⟨hzero, hfew⟩
      · omega
      · rw [hzero, UInt32.toNat_zero]
        omega
    rw [← hbegun.empty hbefore]
    simp only [checkFailedSearch, hthresholds, ne_eq, hquiet, not_false_eq_true, decide_true, Bool.true_or,
      if_true, Observer.afterCheck]
  · intro hnot hsizes
    by_cases hbefore : InVain new.thresholds past
    · -- this is the time that makes it too often, and nothing has been reported yet
      have hnow : UInt32.ofNat (past.count (.failed query) + 1) = new.thresholds.failedSearch := by
        have hmany : ¬(past.count (.failed query) + 1 < new.thresholds.failedSearch.toNat
            ∨ new.thresholds.failedSearch = 0 ∧ past.count (.failed query) + 1 < 2 ^ 32) :=
          fun hfew => hnot ((InVain.append_iff _).mpr ⟨hbefore, hfew⟩)
        rw [not_or, not_and] at hmany
        rw [UInt32.ofNat_eq_iff_mod_eq_toNat]
        rcases hbefore.searches query with hfew | ⟨hzero, hfew⟩
        · have hbound := new.thresholds.failedSearch.toNat_lt
          omega
        · have hround := hmany.2 hzero
          rw [hzero, UInt32.toNat_zero]
          omega
      have hnone : ((o.begin s).2.memory o.session).events.any (ofQuery query) = false := by
        rw [hbegun.empty hbefore]
        rfl
      refine .inl ?_
      rw [checkFailedSearch_memory _ hsession, failedSearchReports, hthresholds, if_pos ⟨hnow, hnone⟩]
      simp [Memory.reported]
    · exact (hbegun.filled hbefore (by simpa using hsizes)).of_checked hchecked

end Held

/-- **One thing more is seen.** -/
theorem Held.see {new o : Observer} {past : List Outcome} {s : Store}
    (h : Held new past o (s.memory o.session)) (d : Disk) (sight : Sight) :
    Held new (past ++ [sight.outcome new.root d]) (o.see d s sight).1
      ((o.see d s sight).2.memory o.session) := by
  have hroot : o.root = new.root := by rw [h.same]
  have hcomes := Observer.see_comes h.ready d sight
  rw [hroot] at hcomes
  generalize sight.outcome new.root d = outcome, o.see d s sight = result at hcomes ⊢
  cases hcomes with
  | passed => exact h.passed
  | vain => exact h.vain
  | failed query now => exact h.failed query now
  | served pos => exact h.served pos
  | logged logged rest searches => exact h.logged logged rest searches

/-- An observer that has seen nothing, with a session of which nothing is remembered. -/
theorem Held.start (root : String) (t : Thresholds) (mode : SessionMode) (label : Option String)
    (session : String) :
    Held (.new root t mode label session) [] (.new root t mode label session) ⟨none, [], []⟩ where
  same := rfl
  begun := by simp [Observer.new]
  there := rfl
  searches query := by simp [Observer.new, Tally.failedSearchCount, Tally.empty, Counts.get]
  empty _ := rfl
  filled hnot := by
    refine absurd ⟨by simp, by simp, fun query => ?_⟩ hnot
    rw [List.count_nil]
    by_cases hzero : t.failedSearch = 0
    · exact .inr ⟨hzero, by decide⟩
    · exact .inl (Nat.pos_of_ne_zero fun hnone => hzero (UInt32.toNat_inj.mp hnone))

/-! ## §5. Runs. -/

/-- What came of all that one of the observers of a project saw. -/
def outcomesOf {ι : Type} [DecidableEq ι] (root : String) (i : ι) (encounters : List (Encounter ι)) :
    List Outcome :=
  (encounters.filter (·.who = i)).map fun e => e.sight.outcome root e.disk

theorem map_own {ι : Type} [DecidableEq ι] (root : String) (i : ι) (encounters : List (Encounter ι)) :
    (Crowd.own i (encounters.map fun e => (e.who, e.disk, e.sight))).map
      (fun x => x.2.outcome root x.1) = outcomesOf root i encounters := by
  simp [Crowd.own, outcomesOf, List.filter_map, Function.comp_def]

/-- What is in the store of the session of an observer that had seen nothing, by what came of all that
it saw. -/
structure HeldBySession (new : Observer) (outcomes : List Outcome) (s : Store) : Prop where
  /-- The session is there once something was not passed over. -/
  there : s.hasSession new.session = true ↔ ∃ outcome ∈ outcomes, outcome ≠ .passed
  /-- It holds nothing if all of it was in vain. -/
  empty : s.hasSession new.session = true → InVain new.thresholds outcomes →
    s.memory new.session = ⟨some new.row, [], []⟩
  /-- Otherwise it holds something. The tokens of a result are counted as a signed 64 bit number. -/
  filled : ¬InVain new.thresholds outcomes →
    (∀ tokens, .served tokens ∈ outcomes → tokens < signedEnd) → (s.memory new.session).Filled

/-- **A session is left empty exactly if all was in vain.** Observers of different sessions share a
store, and see calls and changes of files in any order. The session of an observer that had seen nothing
is there once something was not passed over, and it holds an event, an observation or served tokens
unless nothing was logged or served and no search failed often enough to be reported. -/
theorem session_empty_iff_in_vain {ι : Type} [DecidableEq ι] (w : Crowd ι) (hstore : w.store.Intact)
    (hsessions : Function.Injective fun j => (w.observers j).session) (i : ι)
    {root session : String} {t : Thresholds} {mode : SessionMode} {label : Option String}
    (hnew : w.observers i = .new root t mode label session) (hunknown : w.store.hasSession session = false)
    (encounters : List (Encounter ι)) :
    HeldBySession (.new root t mode label session) (outcomesOf root i encounters)
      (w.run encounters).store := by
  have hname : (w.observers i).session = session := by rw [hnew]; rfl
  -- what has been seen is kept as what came of it
  let kept (past : List (Disk × Sight)) (o : Observer) (m : Memory) : Prop :=
    Held (.new root t mode label session) (past.map fun x => x.2.outcome root x.1) o m
  have hstart : kept [] (w.observers i) (w.store.memory (w.observers i).session) := by
    have hempty : w.store.memory (w.observers i).session = Store.empty.memory (w.observers i).session :=
      sameFor_empty hstore (by rw [hname]; exact hunknown)
    rw [hempty, hnew]
    exact .start root t mode label session
  have hstep : ∀ past (o : Observer) (s : Store) (x : Disk × Sight),
      kept past o (s.memory o.session) →
      kept (past ++ [x]) (o.see x.1 s x.2).1 ((o.see x.1 s x.2).2.memory o.session) := by
    intro past o s x h
    have hsee := h.see x.1 x.2
    simp only [kept, List.map_append]
    exact hsee
  have hrun := Crowd.doAll_keeps (a := Observer.seeing) hstep i
    (encounters.map fun e => (e.who, e.disk, e.sight)) w [] hsessions hstart
  simp only [kept] at hrun
  rw [← w.run_eq_doAll, hname, List.nil_append, map_own] at hrun
  refine ⟨?_, ?_, hrun.filled⟩
  · rw [Store.hasSession_memory]
    exact (Bool.eq_iff_iff.mp hrun.there).trans hrun.begun
  · intro hthere hvain
    rw [Store.hasSession_memory] at hthere
    have hbegun := hrun.there.symm.trans hthere
    exact (hrun.empty hvain).trans (by rw [if_pos hbegun])

/-- Two observers that have seen nothing, on an empty store. The left one reports a search that has failed
twice. -/
def seekers : Crowd Bool where
  observers side := .new "/p" (if side then .default else { Thresholds.default with failedSearch := 2 })
    .indexed none (if side then "right" else "left")
  store := .empty

/-- A file that is not there is read. -/
def readOfNothing : Encounter Bool :=
  ⟨true, ⟨[], []⟩, .call ⟨"read_file", .obj [("path", .str "missing.py")], .null, false⟩ 0⟩

/-- Each of the observers searches for the same twice and finds nothing, and one of them reads a file
that is not there. -/
def seekersRun : List (Encounter Bool) :=
  let search := fun side => ⟨side, ⟨[], []⟩, .call ⟨"search", .obj [("query", .str "f")], .arr [], false⟩ 0⟩
  [search false, search true, readOfNothing, search false, search true]

theorem session_empty_iff_in_vain_of_seekers :
    (Function.Injective (fun side => (seekers.observers side).session)
      ∧ seekers.store.hasSession "left" = false)
    ∧ HeldBySession (seekers.observers false) (outcomesOf "/p" false seekersRun)
        (seekers.run seekersRun).store
    ∧ outcomesOf "/p" false seekersRun = [.failed "f", .failed "f"]
    ∧ ((seekers.run seekersRun).store.events.map fun e => (e.sessionId, e.event.type))
      = [("left", .failedSearch)]
    ∧ (seekers.run seekersRun).store.sessions.map (·.id) = ["left", "right"] := by
  have hinjective : Function.Injective fun side => (seekers.observers side).session := by decide
  refine ⟨⟨hinjective, by decide⟩, ?_, by decide +kernel, by decide +kernel, by decide +kernel⟩
  exact session_empty_iff_in_vain seekers Store.intact_empty hinjective false rfl (by decide) seekersRun

/-- **A lookup of nothing begins a session that stays empty.** A file that is not there is read, nothing
is found and nothing is written, but the session is in the store. -/
theorem lookup_of_nothing_begins_session :
    (seekers.run [readOfNothing]).store.hasSession "right" = true
      ∧ ¬((seekers.run [readOfNothing]).store.memory "right").Filled := by
  refine ⟨by decide +kernel, ?_⟩
  have hmemory : (seekers.run [readOfNothing]).store.memory "right"
      = ⟨some ⟨"right", .indexed, none, .exact 0⟩, [], []⟩ := rfl
  rw [hmemory]
  rintro (hevents | hobservations | ⟨row, hrow, hserved⟩)
  · exact hevents rfl
  · exact hobservations rfl
  · rw [Option.some.injEq] at hrow
    subst hrow
    exact absurd hserved (by decide)

end CodeIndex
