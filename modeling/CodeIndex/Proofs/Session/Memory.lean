import Mathlib
import CodeIndex.Proofs.Session.Writes

/-!
# What a store remembers of one session

The memory of a session is its row, its events and its observations, in the order in which they were
written and without the numbers of their rows or the marks on stale observations. Two facts carry
everything about sessions that share a store:

  * a write of one session leaves the memory of every other one alone, and changes its own in a way
    that depends on that memory only;
  * every question that a check asks about a session is answered from its memory.

So an observer behaves alike on two stores that remember the same of its session.
-/

namespace CodeIndex

/-- What is remembered of one session. -/
structure Memory where
  /-- The session, if it has begun. -/
  session : Option SessionRow
  /-- What it has logged, and when. -/
  events : List (NewEvent × Time)
  /-- What it has observed, and when. -/
  observations : List (NewObservation × Time)

/-- The observations, latest first; of those of one time, the last one first. -/
def Memory.latest (m : Memory) (limit : Nat) : List (NewObservation × Time) :=
  (takeLimit limit (m.observations.zipIdx.mergeSort fun a b =>
    b.1.2 < a.1.2 || (a.1.2 == b.1.2 && b.2 ≤ a.2))).map (·.1)

namespace Store

/-- What the store remembers of a session. -/
def memory (s : Store) (id : String) : Memory where
  session := s.sessions.find? (·.id == id)
  events := (s.eventsOf id).map fun e => (e.event, e.time)
  observations := (s.observations.filter (·.sessionId == id)).map fun o => (o.observation, o.time)

variable {s s' : Store} {id session : String}

/-! ## §1. Questions. -/

theorem hasSession_memory : s.hasSession id = (s.memory id).session.isSome := by
  unfold hasSession memory
  rw [Bool.eq_iff_iff, List.any_eq_true, List.find?_isSome]

theorem session_memory : s.session id = match (s.memory id).session with
    | some row => do return some (← readSession row)
    | none => .ok none := rfl

theorem hasEvent_memory (type : EventType) (file symbol : Option String) :
    s.hasEvent id type file symbol = (s.memory id).events.any fun e =>
      e.1.type == type && e.1.file == file && e.1.symbol == symbol := by
  unfold hasEvent memory
  rw [List.any_map]
  rfl

theorem hasEventFor_memory (type : EventType) (query : String) :
    s.hasEventFor id type query = (s.memory id).events.any fun e =>
      e.1.type == type && e.1.extra.bind queryText? == some query := by
  unfold hasEventFor memory
  rw [List.any_map]
  rfl

theorem countEventsSince_memory (types : List EventType) (file : String) (since : Time) :
    s.countEventsSince id types file since = ((s.memory id).events.filter fun e =>
      e.1.file == some file && since ≤ e.2 && types.contains e.1.type).length := by
  unfold countEventsSince memory
  rw [List.filter_map, List.length_map]
  rfl

theorem lastEventTime?_memory (type : EventType) (file : String) :
    s.lastEventTime? id type file = (((s.memory id).events.filter fun e =>
      e.1.type == type && e.1.file == some file).map (·.2)).max? := by
  unfold lastEventTime? memory
  rw [List.filter_map, List.map_map]
  rfl

theorem hasObservation_memory (type : ObservationType) (file : Option String) (text : String) :
    s.hasObservation id type file text = (s.memory id).observations.any fun o =>
      o.1.type == type && o.1.file == file && o.1.text == text := by
  unfold hasObservation memory
  rw [List.any_map, List.any_filter]
  congr 1
  funext o
  simp [Bool.and_assoc]

/-- Rows in the order of their numbers compare by number as they do by place. -/
theorem id_le_iff_place_le {rows : List ObservationRow} (order : (rows.map (·.id)).Pairwise (· < ·))
    {a b : ObservationRow × Nat} (ha : a ∈ rows.zipIdx) (hb : b ∈ rows.zipIdx) :
    a.1.id ≤ b.1.id ↔ a.2 ≤ b.2 := by
  -- the order of the table is the order of the numbers
  have hlt : ∀ x ∈ rows.zipIdx, ∀ y ∈ rows.zipIdx, x.2 < y.2 → x.1.id < y.1.id := by
    intro x hx y hy hxy
    obtain ⟨hxl, hxe⟩ := List.getElem?_eq_some_iff.mp (List.mk_mem_zipIdx_iff_getElem?.mp hx)
    obtain ⟨hyl, hye⟩ := List.getElem?_eq_some_iff.mp (List.mk_mem_zipIdx_iff_getElem?.mp hy)
    have := List.pairwise_iff_getElem.mp (List.pairwise_map.mp order) x.2 y.2 hxl hyl hxy
    rwa [hxe, hye] at this
  constructor
  · intro hle
    by_contra hnot
    exact absurd (hlt b hb a ha (Nat.lt_of_not_le hnot)) (not_lt.mpr hle)
  · intro hle
    rcases Nat.lt_or_eq_of_le hle with hlt' | heq
    · exact le_of_lt (hlt a ha b hb hlt')
    · have hab := List.mk_mem_zipIdx_iff_getElem?.mp ha
      rw [heq, List.mk_mem_zipIdx_iff_getElem?.mp hb, Option.some.injEq] at hab
      rw [hab]

/-- The list of what a session has observed is told by its memory. -/
theorem listObservations_memory (hs : s.Intact) (limit : Nat) :
    (s.listObservations (some id) true limit).map (fun o => (o.observation, o.time)) =
      (s.memory id).latest limit := by
  unfold listObservations Memory.latest memory
  simp only [Option.all_some, Bool.true_or, Bool.and_true]
  have order : ((s.observations.filter (·.sessionId == id)).map (·.id)).Pairwise (· < ·) :=
    hs.observationOrder.sublist (List.filter_sublist.map _)
  generalize s.observations.filter (·.sessionId == id) = rows at order ⊢
  -- both lists are the rows with their places, sorted, with something forgotten
  have hrows : rows.mergeSort (fun a b => decide (b.time < a.time) || (a.time == b.time &&
        decide (b.id ≤ a.id)))
      = (rows.zipIdx.mergeSort fun a b => decide (b.1.time < a.1.time) || (a.1.time == b.1.time &&
        decide (b.2 ≤ a.2))).map (·.1) := by
    rw [List.map_mergeSort (s := fun a b : ObservationRow => decide (b.time < a.time) ||
      (a.time == b.time && decide (b.id ≤ a.id))), List.zipIdx_map_fst]
    intro a ha b hb
    rw [decide_eq_decide.mpr (id_le_iff_place_le order hb ha)]
  have hplaces : ((rows.map fun o => (o.observation, o.time)).zipIdx.mergeSort fun a b =>
        decide (b.1.2 < a.1.2) || (a.1.2 == b.1.2 && decide (b.2 ≤ a.2)))
      = (rows.zipIdx.mergeSort fun a b => decide (b.1.time < a.1.time) || (a.1.time == b.1.time &&
        decide (b.2 ≤ a.2))).map fun o => ((o.1.observation, o.1.time), o.2) := by
    rw [List.map_mergeSort (s := fun a b : (NewObservation × Time) × Nat =>
      decide (b.1.2 < a.1.2) || (a.1.2 == b.1.2 && decide (b.2 ≤ a.2))), List.zipIdx_map]
    · rfl
    · intro a _ b _
      rfl
  rw [hrows, hplaces]
  -- a limit cuts both lists at the same place
  unfold takeLimit
  split
  · rw [← List.map_take, ← List.map_take, List.map_map, List.map_map]
    rfl
  · rw [List.map_map, List.map_map]
    rfl

/-! ## §2. Writes. -/

theorem createSession_memory (mode : SessionMode) (label : Option String) :
    (s.createSession session mode label).1.memory id =
      if id = session then
        { s.memory id with
          session := (s.memory id).session.or (some ⟨session, mode, label, .exact 0⟩) }
      else s.memory id := by
  unfold createSession memory eventsOf
  simp only [List.find?_append]
  split
  next h => simp [h]
  next h => simp [Ne.symm h]

theorem addTokens_memory (n : Nat) :
    (s.addTokens session n).memory id =
      if id = session then
        { s.memory id with session := (s.memory id).session.map fun r =>
            { r with served := r.served.add (signed64 n) } }
      else s.memory id := by
  unfold addTokens memory eventsOf
  have hfind : (s.sessions.map fun r =>
        if r.id == session then { r with served := r.served.add (signed64 n) } else r).find?
        (fun r => r.id == id)
      = (s.sessions.find? fun r => r.id == id).map fun r =>
        if r.id == session then { r with served := r.served.add (signed64 n) } else r := by
    rw [List.find?_map]
    congr 2
    funext r
    by_cases hr : r.id = session <;> simp [hr]
  simp only [hfind]
  -- the row that is found carries the name that is looked for
  cases hrow : s.sessions.find? fun r => r.id == id with
  | none => simp
  | some r =>
    have hid : r.id = id := by simpa using List.find?_some hrow
    by_cases h : id = session <;> simp [hid, h]

theorem insertEvent_refused (h : s.hasSession session = false) (event : NewEvent) (time : Time) :
    s.insertEvent session event time = .error .foreignKey := by
  unfold insertEvent
  rw [h]
  rfl

theorem insertEvent_accepted (h : s.hasSession session = true) (event : NewEvent) (time : Time) :
    ∃ s' i, s.insertEvent session event time = .ok (s', i) := by
  unfold insertEvent
  rw [if_pos h]
  exact ⟨_, _, rfl⟩

theorem insertEvent_memory {event : NewEvent} {time : Time} {i : RowId}
    (h : s.insertEvent session event time = .ok (s', i)) :
    s'.memory id =
      if id = session then
        { s.memory id with events := (s.memory id).events ++ [(event, time)] }
      else s.memory id := by
  unfold insertEvent at h
  split at h
  next =>
    simp only [Except.ok.injEq, Prod.mk.injEq] at h
    obtain ⟨rfl, rfl⟩ := h
    unfold memory eventsOf
    simp only [List.filter_append, List.map_append]
    split
    next hid => simp [hid]
    next hid => simp [Ne.symm hid]
  next => exact absurd h (by simp)

theorem insertObservation_refused (h : s.hasSession session = false) (observation : NewObservation)
    (time : Time) : s.insertObservation session observation time = .error .foreignKey := by
  unfold insertObservation
  rw [h]
  rfl

theorem insertObservation_accepted (h : s.hasSession session = true) (observation : NewObservation)
    (time : Time) : ∃ s' i, s.insertObservation session observation time = .ok (s', i) := by
  unfold insertObservation
  rw [if_pos h]
  exact ⟨_, _, rfl⟩

theorem insertObservation_memory {observation : NewObservation} {time : Time} {i : RowId}
    (h : s.insertObservation session observation time = .ok (s', i)) :
    s'.memory id =
      if id = session then
        { s.memory id with observations := (s.memory id).observations ++ [(observation, time)] }
      else s.memory id := by
  unfold insertObservation at h
  split at h
  next =>
    simp only [Except.ok.injEq, Prod.mk.injEq] at h
    obtain ⟨rfl, rfl⟩ := h
    unfold memory eventsOf
    simp only [List.filter_append, List.map_append]
    split
    next hid => simp [hid]
    next hid => simp [Ne.symm hid]
  next => exact absurd h (by simp)

/-- Marks on stale observations are no part of any memory. -/
theorem markStale_memory (file : String) (symbol : Option String) (reason : String) :
    (s.markStale file symbol reason).1.memory id = s.memory id := by
  unfold markStale memory eventsOf
  simp only [List.filter_map, List.map_map]
  -- a mark touches neither the session of a row nor what is remembered of it
  congr 1
  have hfilter : s.observations.filter ((fun o : ObservationRow => o.sessionId == id) ∘ fun o =>
        if isFreshAbout file symbol o then o.marked reason else o)
      = s.observations.filter fun o => o.sessionId == id := by
    refine List.filter_congr fun o _ => ?_
    show ((if isFreshAbout file symbol o then o.marked reason else o).sessionId
      == id) = _
    split <;> rfl
  rw [hfilter]
  refine List.map_congr_left fun o _ => ?_
  show ((if isFreshAbout file symbol o then o.marked reason else o).observation,
    (if isFreshAbout file symbol o then o.marked reason else o).time) = _
  split <;> rfl

end Store

/-- **A session's writes are its own.** They leave the memory of every other session alone. -/
theorem SessionWrites.memory_of_ne {session id : String} {s s' : Store} (hne : id ≠ session)
    (h : SessionWrites session s s') : s'.memory id = s.memory id := by
  induction h with
  | none => rfl
  | create => rw [Store.createSession_memory, if_neg hne]
  | tokens => rw [Store.addTokens_memory, if_neg hne]
  | event logged => rw [Store.insertEvent_memory logged, if_neg hne]
  | observation recorded => rw [Store.insertObservation_memory recorded, if_neg hne]
  | stale => rw [Store.markStale_memory]
  | trans _ _ ih₁ ih₂ => rw [ih₂, ih₁]

/-- What a session has logged and observed stays, and comes first. -/
theorem SessionWrites.memory_grows {session id : String} {s s' : Store}
    (h : SessionWrites session s s') :
    (s.memory id).events <+: (s'.memory id).events
      ∧ (s.memory id).observations <+: (s'.memory id).observations := by
  induction h with
  | none => exact ⟨List.prefix_refl _, List.prefix_refl _⟩
  | create =>
    rw [Store.createSession_memory]
    split <;> exact ⟨List.prefix_refl _, List.prefix_refl _⟩
  | tokens =>
    rw [Store.addTokens_memory]
    split <;> exact ⟨List.prefix_refl _, List.prefix_refl _⟩
  | event logged =>
    rw [Store.insertEvent_memory logged]
    split
    · exact ⟨List.prefix_append _ _, List.prefix_refl _⟩
    · exact ⟨List.prefix_refl _, List.prefix_refl _⟩
  | observation recorded =>
    rw [Store.insertObservation_memory recorded]
    split
    · exact ⟨List.prefix_refl _, List.prefix_append _ _⟩
    · exact ⟨List.prefix_refl _, List.prefix_refl _⟩
  | stale =>
    rw [Store.markStale_memory]
    exact ⟨List.prefix_refl _, List.prefix_refl _⟩
  | trans _ _ ih₁ ih₂ => exact ⟨ih₁.1.trans ih₂.1, ih₁.2.trans ih₂.2⟩

end CodeIndex
