import Mathlib
import CodeIndex.Proofs.Session.Reports

/-!
# Dead ends

A symbol that a session adds to a file and removes again has led nowhere. The check for it comes after
each removal, and asks only whether the log has an addition and a removal, in whatever order. That is
enough: the removal has just been logged, so an addition that is found came before it. And no report is
missed later, since an addition alone is no reason for one.

Main result: `dead_ends_exact`.
-/

namespace CodeIndex

/-! ## §1. What comes and goes. -/

/-- A symbol of a file came, and later it went. -/
def CameAndWent (events : List (NewEvent × Time)) (file symbol : String) : Prop :=
  ∃ before after, events = before ++ after
    ∧ before.any (ofSubject .symbolAdded (some file) (some symbol)) = true
    ∧ after.any (ofSubject .symbolRemoved (some file) (some symbol)) = true

section

variable {events new : List (NewEvent × Time)} {file symbol : String}

theorem CameAndWent.came (h : CameAndWent events file symbol) :
    events.any (ofSubject .symbolAdded (some file) (some symbol)) = true := by
  obtain ⟨before, after, rfl, hcame, -⟩ := h
  rw [List.any_append, hcame, Bool.true_or]

/-- Events that are no removal do not matter. -/
theorem cameAndWent_append
    (h : new.any (ofSubject .symbolRemoved (some file) (some symbol)) = false) :
    CameAndWent (events ++ new) file symbol ↔ CameAndWent events file symbol := by
  constructor
  · rintro ⟨before, after, hsplit, hcame, hwent⟩
    rcases List.append_eq_append_iff.mp hsplit with ⟨rest, rfl, rfl⟩ | ⟨rest, rfl, rfl⟩
    · -- the removal would be among the new events
      rw [List.any_append, hwent, Bool.or_true] at h
      exact absurd h (by simp)
    · rw [List.any_append, h, Bool.or_false] at hwent
      exact ⟨before, rest, rfl, hcame, hwent⟩
  · rintro ⟨before, after, rfl, hcame, hwent⟩
    exact ⟨before, after ++ new, List.append_assoc _ _ _, hcame,
      by rw [List.any_append, hwent, Bool.true_or]⟩

/-- A removal comes after all additions that there are. -/
theorem cameAndWent_removed {e : NewEvent × Time}
    (h : ofSubject .symbolRemoved (some file) (some symbol) e = true) :
    CameAndWent (events ++ [e]) file symbol
      ↔ events.any (ofSubject .symbolAdded (some file) (some symbol)) = true := by
  constructor
  · intro hboth
    have hother : ofSubject .symbolAdded (some file) (some symbol) e = false := by
      simp only [ofSubject, Bool.and_eq_true, beq_iff_eq] at h
      simp [ofSubject, h.1.1]
    rw [← any_append_of_not hother]
    exact hboth.came
  · intro hcame
    exact ⟨events, [e], rfl, hcame, by simp [h]⟩

end

/-! ## §2. The log and the reports. -/

/-- A dead end is reported once if the symbol came and went, and not otherwise. -/
structure DeadEndExact (is : Standing) (file symbol : String) : Prop where
  reported : CameAndWent is.events file symbol →
    ∃ time, is.Made (ofSubject .deadEnd (some file) (some symbol)) (.deadEnd file symbol) [time]
  quiet : ¬CameAndWent is.events file symbol →
    is.Made (ofSubject .deadEnd (some file) (some symbol)) (.deadEnd file symbol) []

variable {was : Standing} {file symbol : String} {tally : Tally} {events : List NewEvent}
  {observations : List NewObservation} {reports : List PatternReport} {now : Time}

/-- Entries and reports that are about something else do not matter. -/
theorem DeadEndExact.kept (h : DeadEndExact was file symbol)
    (hevents : ∀ e ∈ events, ofSubject .deadEnd (some file) (some symbol) (e, now) = false
      ∧ ofSubject .symbolRemoved (some file) (some symbol) (e, now) = false)
    (hobservations : ∀ o ∈ observations, o ≠ (PatternReport.deadEnd file symbol).observation)
    (hreports : ∀ r ∈ reports, ofSubject .deadEnd (some file) (some symbol) (r.event, now) = false
      ∧ ofSubject .symbolRemoved (some file) (some symbol) (r.event, now) = false
      ∧ r.observation ≠ (PatternReport.deadEnd file symbol).observation) :
    DeadEndExact (was.after tally events observations reports now) file symbol := by
  have hlog : CameAndWent (was.after tally events observations reports now).events file symbol
      ↔ CameAndWent was.events file symbol := by
    refine cameAndWent_append ?_
    rw [List.any_eq_false]
    intro e he
    simp only [List.mem_map, List.mem_append] at he
    obtain ⟨e, hmem | ⟨r, hmem, rfl⟩, rfl⟩ := he
    · simp [(hevents e hmem).2]
    · simp [(hreports r hmem).2.1]
  have hmade : ∀ {times},
      was.Made (ofSubject .deadEnd (some file) (some symbol)) (.deadEnd file symbol) times →
      (was.after tally events observations reports now).Made
        (ofSubject .deadEnd (some file) (some symbol)) (.deadEnd file symbol) times := fun hmade =>
    hmade.kept (fun e he => (hevents e he).1) hobservations
      fun r hr => ⟨(hreports r hr).1, (hreports r hr).2.2⟩
  refine ⟨fun hboth => ?_, fun hnot => hmade (h.quiet fun hboth => hnot (hlog.mpr hboth))⟩
  obtain ⟨time, htime⟩ := h.reported (hlog.mp hboth)
  exact ⟨time, hmade htime⟩

/-- When the symbol goes, the check reports it unless it did not come or has been reported. -/
theorem DeadEndExact.gone (h : DeadEndExact was file symbol) {details : Option Json}
    (hobservations : ∀ o ∈ observations, o ≠ (PatternReport.deadEnd file symbol).observation) :
    DeadEndExact (was.after tally [⟨.symbolRemoved, some file, some symbol, details⟩] observations
      (deadEndReports was.events file symbol) now) file symbol := by
  have hlog : CameAndWent (was.after tally [⟨.symbolRemoved, some file, some symbol, details⟩]
        observations (deadEndReports was.events file symbol) now).events file symbol
      ↔ was.events.any (ofSubject .symbolAdded (some file) (some symbol)) = true := by
    rw [Standing.after, List.map_append, ← List.append_assoc, cameAndWent_append]
    · exact cameAndWent_removed (by simp [ofSubject])
    · rw [List.any_eq_false]
      intro e he
      simp only [List.map_map, List.mem_map] at he
      obtain ⟨r, hr, rfl⟩ := he
      rw [mem_deadEndReports hr]
      simp [ofSubject, PatternReport.deadEnd]
  have hgone : ∀ e ∈ [(⟨.symbolRemoved, some file, some symbol, details⟩ : NewEvent)],
      ofSubject .deadEnd (some file) (some symbol) (e, now) = false := by simp [ofSubject]
  unfold deadEndReports at hlog ⊢
  by_cases hcame : was.events.any (ofSubject .symbolAdded (some file) (some symbol)) = true
  · rw [hcame, Bool.true_and] at hlog ⊢
    refine ⟨fun _ => ?_, fun hnot => absurd (hlog.mpr rfl) hnot⟩
    by_cases hboth : CameAndWent was.events file symbol
    · -- the symbol came and went before, and it was reported then
      obtain ⟨time, hmade⟩ := h.reported hboth
      rw [hmade.any_events]
      exact ⟨time, hmade.kept hgone hobservations (by simp)⟩
    · have hmade := h.quiet hboth
      rw [hmade.any_events]
      exact ⟨now, hmade.again hgone hobservations (by simp [ofSubject, PatternReport.deadEnd])⟩
  · have hnot : ¬CameAndWent was.events file symbol := fun hboth => hcame hboth.came
    rw [Bool.not_eq_true] at hcame
    rw [hcame, Bool.false_and, if_neg Bool.false_ne_true] at hlog ⊢
    exact ⟨fun hboth => absurd (hlog.mp hboth) Bool.false_ne_true,
      fun _ => (h.quiet hnot).kept hgone hobservations (by simp)⟩

/-- **One moment.** -/
theorem DeadEndExact.lives {root : String} {t : Thresholds} {m : Observer.Moment} {is : Standing}
    (h : DeadEndExact was file symbol) (hlives : Lives root t was m is) :
    DeadEndExact is file symbol := by
  cases hlives with
  | uncounted counted spot =>
    exact h.kept (fun e he => by simp [ofSubject, spot e he]) (by simp) (by simp)
  | access counted =>
    refine h.kept (by simp [ofSubject]) (by simp) fun r hr => ?_
    rw [mem_redundantReports hr]
    exact ⟨by simp [ofSubject, PatternReport.redundantAccess],
      by simp [ofSubject, PatternReport.redundantAccess],
      PatternReport.redundantAccess_ne_deadEnd _ _ _ _ _⟩
  | failedSearch counted =>
    refine h.kept (by simp) (by simp) fun r hr => ?_
    rw [mem_failedSearchReports hr]
    simp [ofSubject, PatternReport.failedSearch, PatternReport.deadEnd]
  | failure details counted =>
    exact h.kept (by simp [ofSubject]) (failingNotes_ne rfl) (by simp)
  | @change path c now =>
    by_cases hgone : c.kind = .removed ∧ path = file ∧ c.symbol = symbol
    · obtain ⟨hkind, rfl, rfl⟩ := hgone
      rw [if_pos hkind, hkind, ChangeKind.eventType]
      exact h.gone (changeNotes_ne rfl)
    · refine h.kept ?_ (changeNotes_ne rfl) ?_
      · intro e he
        rw [List.mem_singleton] at he
        subst he
        refine ⟨by cases c.kind <;> simp [ofSubject, ChangeKind.eventType], ?_⟩
        cases hkind : c.kind with
        | removed =>
          simp only [ofSubject, ChangeKind.eventType]
          simpa using fun hpath hsymbol => hgone ⟨hkind, hpath, hsymbol⟩
        | added | sigChanged => simp [ofSubject, ChangeKind.eventType]
      · intro r hr
        obtain ⟨hkind, rfl⟩ := mem_changeReports hr
        have hother : ¬(path = file ∧ c.symbol = symbol) := fun hsame => hgone ⟨hkind, hsame⟩
        refine ⟨by simpa [ofSubject, PatternReport.deadEnd] using hother,
          by simp [ofSubject, PatternReport.deadEnd], fun hsame => hother ?_⟩
        rw [PatternReport.deadEnd, PatternReport.deadEnd, NewObservation.mk.injEq] at hsame
        exact ⟨Option.some.inj hsame.2.1, Option.some.inj hsame.2.2.1⟩
  | closes =>
    refine h.kept (by simp) (by simp) fun r hr => ?_
    obtain ⟨count, rfl⟩ := mem_thrashReports hr
    simp [ofSubject, PatternReport.thrash, PatternReport.deadEnd]
  | unbegun => exact h.kept (by simp) (by simp) (by simp)

/-! ## §3. Runs. -/

/-- **Dead ends are told by the log.** Observers of different sessions share a store, and see calls and
changes of files in any order. In the session of an observer that the store did not know, a symbol of a
file has a dead end reported, by one event and one observation of one time, exactly if the log has that
the symbol was added and later that it was removed. -/
theorem dead_ends_exact {ι : Type} [DecidableEq ι] (w : Crowd ι) (hready : w.Ready)
    (hstore : w.store.Intact) (hsessions : Function.Injective fun j => (w.observers j).session)
    (i : ι) (hunknown : w.store.hasSession (w.observers i).session = false)
    (encounters : List (Encounter ι)) (file symbol : String) :
    DeadEndExact ((w.run encounters).standing i) file symbol := by
  refine Crowd.run_standing (P := fun _ is => DeadEndExact is file symbol) hready hstore hsessions i
    hunknown ?_ ?_ encounters
  · intro _ was m is hlives h
    exact h.lives hlives
  · -- nothing has come and gone, and nothing has been reported
    refine ⟨?_, fun _ => ⟨rfl, rfl⟩⟩
    rintro ⟨before, after, hnone, hcame, -⟩
    obtain ⟨rfl, -⟩ := List.append_eq_nil_iff.mp hnone.symm
    exact absurd hcame (by simp)

/-- Two observers that have seen nothing, on an empty store. -/
def gardeners : Crowd Bool := .leftAndRight .default

/-- The left one sees a symbol go, come and go twice at once, and another one come. Only then does the
right one see that one go. -/
def gardenersRun : List (Encounter Bool) :=
  let goes := SymbolChange.of .removed "f" .function none none
  let comes := SymbolChange.of .added "f" .function none none
  [⟨false, ⟨[], []⟩, .changes ⟨"a.py", false, [goes, comes, goes, .of .added "g" .function none none]⟩ 0⟩,
    ⟨true, ⟨[], []⟩, .changes ⟨"a.py", false, [.of .removed "g" .function none none]⟩ 1⟩,
    ⟨false, ⟨[], []⟩, .changes ⟨"a.py", false, [comes, goes]⟩ 2⟩]

theorem dead_ends_exact_of_gardeners :
    (gardeners.Ready ∧ Function.Injective (fun side => (gardeners.observers side).session)
      ∧ gardeners.store.hasSession (gardeners.observers false).session = false)
    ∧ (∀ symbol, DeadEndExact ((gardeners.run gardenersRun).standing false) "a.py" symbol)
    ∧ ((gardeners.run gardenersRun).standing false).events.filterMap (fun e =>
        if e.1.type = .deadEnd then some (e.1.symbol, e.2) else none) = [(some "f", 0)]
    ∧ ((gardeners.run gardenersRun).standing true).events.map (·.1.type) = [.symbolRemoved] := by
  have hready : gardeners.Ready := Crowd.leftAndRight_ready _
  have hsessions := Crowd.leftAndRight_sessions .default
  refine ⟨⟨hready, hsessions, by decide⟩, ?_, by decide +kernel, by decide +kernel⟩
  intro symbol
  exact dead_ends_exact gardeners hready Store.intact_empty hsessions false (by decide) gardenersRun
    "a.py" symbol

end CodeIndex
