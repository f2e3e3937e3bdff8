import Mathlib
import CodeIndex.Proofs.Json.RoundTrip
import CodeIndex.Session.Observer

/-!
# The details of events

The details of an event are stored as text, whatever value they are, and read back whenever the events of
its session are asked for. The reader follows a limited number of lists and objects inside each other and
the writer does not, so there are details that can be logged and not read. One event with such details, and
none of the events of its session can be read any more.

What an observer logs of its own making is flat. Only the result of a call that failed is logged as it
came, one object further in.

Main results:
  * `readsBack_iff_nesting` — details without doubles are read back exactly if they nest within the limit;
  * `errorDetails_readsBack_iff` — the result of a call that failed, if it nests once less deep;
  * `eventsFor_isOk_iff` — the events of a session are read exactly if the details of each are read back;
  * `eventsFor_of_start` — what is read of a log begins with what was read of it before, or is still refused.
-/

namespace CodeIndex

/-! ## §1. Details that are read back. -/

/-- The details of an event are read back from their text. -/
def NewEvent.ReadsBack (event : NewEvent) : Prop :=
  ∀ details, event.extra = some details → ∃ read, Json.read? details.compact = some read

namespace NewEvent

variable {event : NewEvent}

theorem readsBack_of_none (h : event.extra = none) : event.ReadsBack := by
  intro details hdetails
  rw [h] at hdetails
  cases hdetails

theorem readsBack_iff {details : Json} (h : event.extra = some details) :
    event.ReadsBack ↔ ∃ read, Json.read? details.compact = some read := by
  constructor
  · intro hreads
    exact hreads details h
  · intro hread other hother
    rw [h] at hother
    cases hother
    exact hread

/-- **Details without doubles are read back** if they nest within the limit of the reader, and only then. -/
theorem readsBack_iff_nesting {details : Json} (h : event.extra = some details)
    (hwhole : Json.IsWhole details) : event.ReadsBack ↔ Json.nesting details ≤ Json.maxDepth := by
  rw [readsBack_iff h, Json.read?_compact hwhole]
  split
  next hwithin => exact ⟨fun _ => hwithin, fun _ => ⟨_, rfl⟩⟩
  next hbeyond => simp [hbeyond]

/-- An object of nothing but scalars is read back. -/
theorem readsBack_of_flat {members : List (String × Json)} (h : event.extra = some (.obj members))
    (hwhole : ∀ m ∈ members, Json.IsWhole m.2) (hflat : Json.membersNesting members = 0) :
    event.ReadsBack := by
  rw [readsBack_iff_nesting h (.obj hwhole), Json.nesting, hflat]
  decide

end NewEvent

theorem Json.isWhole_nat {n : Nat} (h : n < unsignedEnd) : IsWhole (.nat n) :=
  .int (by omega) (by omega)

theorem Json.isWhole_count (n : UInt32) : IsWhole (.nat n) :=
  isWhole_nat (lt_trans n.toNat_lt (by decide))

theorem Json.isWhole_opt_str (text : Option String) : IsWhole (.opt .str text) := by
  cases text with
  | none => exact .null
  | some s => exact .str s

namespace Observer

/-- A call is logged with the name of its tool. -/
theorem toolDetails_readsBack {event : NewEvent} {call : ToolCall}
    (h : event.extra = some (toolDetails call)) : event.ReadsBack := by
  refine NewEvent.readsBack_of_flat h ?_ rfl
  intro m hm
  obtain rfl := List.mem_singleton.mp hm
  exact .str _

/-- A change is logged with texts. -/
theorem changeDetails_readsBack {event : NewEvent} {c : SymbolChange}
    (h : event.extra = some (changeDetails c)) : event.ReadsBack := by
  refine NewEvent.readsBack_of_flat h ?_ ?_
  · intro m hm
    simp only [List.mem_cons, List.not_mem_nil, or_false] at hm
    rcases hm with rfl | rfl | rfl
    · exact .str _
    · exact Json.isWhole_opt_str _
    · exact Json.isWhole_opt_str _
  · cases c.newSignature <;> cases c.oldSignature <;> rfl

/-- **The result of a call that failed** may nest once less deep than the reader follows, since it is logged in
an object. -/
theorem errorDetails_readsBack_iff {event : NewEvent} {call : ToolCall}
    (h : event.extra = some (errorDetails call)) (hwhole : Json.IsWhole call.result) :
    event.ReadsBack ↔ Json.nesting call.result < Json.maxDepth := by
  -- the object holds the result and the name of the tool
  have hmembers : Json.IsWhole (errorDetails call) := by
    refine .obj fun m hm => ?_
    simp only [List.mem_cons, List.not_mem_nil, or_false] at hm
    rcases hm with rfl | rfl
    · exact hwhole
    · exact .str _
  have hnesting : Json.nesting (errorDetails call) = Json.nesting call.result + 1 := by
    simp [errorDetails, Json.nesting, Json.membersNesting]
  rw [NewEvent.readsBack_iff_nesting h hmembers, hnesting]
  exact Nat.succ_le_iff

end Observer

/-! ## §2. What is read of a log. -/

namespace Store

/-- Reading an event changes nothing about it but its details. -/
theorem readEvent_keeps {e read : EventRow} (h : readEvent e = .ok read) :
    read.id = e.id ∧ read.sessionId = e.sessionId ∧ read.time = e.time
      ∧ read.event.type = e.event.type ∧ read.event.file = e.event.file
      ∧ read.event.symbol = e.event.symbol := by
  unfold readEvent at h
  split at h
  · cases h
    exact ⟨rfl, rfl, rfl, rfl, rfl, rfl⟩
  · split at h
    · cases h
      exact ⟨rfl, rfl, rfl, rfl, rfl, rfl⟩
    · cases h

theorem readEvent_isOk_iff {e : EventRow} : (∃ read, readEvent e = .ok read) ↔ e.event.ReadsBack := by
  unfold readEvent
  cases hextra : e.event.extra with
  | none => simp [NewEvent.readsBack_of_none hextra]
  | some details =>
    rw [NewEvent.readsBack_iff hextra]
    cases hread : Json.read? details.compact <;> simp [hread]

/-- Events are read one by one. -/
theorem mapM_readEvent_isOk_iff {rows : List EventRow} :
    (∃ shown, rows.mapM readEvent = .ok shown) ↔ ∀ e ∈ rows, e.event.ReadsBack := by
  induction rows with
  | nil => exact ⟨fun _ _ he => absurd he List.not_mem_nil, fun _ => ⟨[], rfl⟩⟩
  | cons e rest ih =>
    rw [List.forall_mem_cons, ← readEvent_isOk_iff, ← ih, List.mapM_cons]
    cases readEvent e with
    | error failure => simp [bind, Except.bind]
    | ok read => cases rest.mapM readEvent <;> simp [bind, Except.bind, pure, Except.pure]

/-- What is read has the numbers of the rows. -/
theorem ids_of_mapM_readEvent (rows : List EventRow) :
    ∀ {shown : List EventRow}, rows.mapM readEvent = .ok shown → shown.map (·.id) = rows.map (·.id) := by
  induction rows with
  | nil =>
    intro shown h
    cases h
    rfl
  | cons e rest ih =>
    intro shown h
    rw [List.mapM_cons] at h
    cases hread : readEvent e with
    | error failure => rw [hread] at h; cases h
    | ok read =>
      cases hrest : rest.mapM readEvent with
      | error failure => rw [hread, hrest] at h; cases h
      | ok others =>
        rw [hread, hrest] at h
        cases h
        rw [List.map_cons, List.map_cons, (readEvent_keeps hread).1, ih hrest]

variable {s s' : Store} {session : String}

/-- **The events of a session are read** exactly if the details of each of them are read back. -/
theorem eventsFor_isOk_iff :
    (∃ shown, s.eventsFor session = .ok shown) ↔ ∀ e ∈ s.eventsOf session, e.event.ReadsBack :=
  mapM_readEvent_isOk_iff

theorem eventsFor_ids {shown : List EventRow} (h : s.eventsFor session = .ok shown) :
    shown.map (·.id) = (s.eventsOf session).map (·.id) := ids_of_mapM_readEvent _ h

theorem eventsFor_length {shown : List EventRow} (h : s.eventsFor session = .ok shown) :
    shown.length = (s.eventsOf session).length := by
  simpa using congrArg List.length (eventsFor_ids h)

/-- **What is read of a log that has grown** begins with what was read of it before. Once it is refused it
stays so. -/
theorem eventsFor_of_start (h : s.eventsOf session <+: s'.eventsOf session) :
    (∀ shown shown', s.eventsFor session = .ok shown → s'.eventsFor session = .ok shown' →
        shown <+: shown') ∧
      ∀ failure, s.eventsFor session = .error failure → s'.eventsFor session = .error failure := by
  obtain ⟨more, hmore⟩ := h
  unfold eventsFor
  rw [← hmore, List.mapM_append]
  -- the old rows come first, and are read or refused as they were
  constructor
  · intro shown shown' hshown hshown'
    rw [hshown] at hshown'
    cases hrest : more.mapM readEvent with
    | error failure => rw [hrest] at hshown'; cases hshown'
    | ok others =>
      rw [hrest] at hshown'
      cases hshown'
      exact List.prefix_append shown others
  · intro failure hfailure
    rw [hfailure]
    rfl

end Store

end CodeIndex
