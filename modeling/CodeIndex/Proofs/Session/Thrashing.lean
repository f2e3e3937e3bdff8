import Mathlib
import CodeIndex.Proofs.Session.Reports

/-!
# Thrashing

Much work on one file within a window is reported, and not again before a whole window has passed. The
clock may go back between two moments, and still nothing goes wrong: a report is made only if the
window has passed since the latest report of all, so reports are a window apart whatever their order;
and where no report is made although there was work enough, the latest report is the reason, so there
is a recent one, if not one from the future.

Main result: `thrashing_exact`.
-/

namespace CodeIndex

/-! ## §1. Reports in the log. -/

/-- The length of the window, in thousandths of a second. -/
def Thresholds.window (t : Thresholds) : Int := t.thrashWindow * 1000

/-- Reports of thrashing on a file are a window apart, and each was made when enough work on the file
had been logged within the window before it. -/
structure ThrashingLogged (t : Thresholds) (events : List (NewEvent × Time)) : Prop where
  spaced : ∀ file, (events.filter (ofThrash file)).Pairwise fun e e' => e.2 + t.window ≤ e'.2
  founded : ∀ before e after, events = before ++ e :: after → e.1.type = .thrashDetected →
    ∃ file, e.1.file = some file ∧ t.thrashEvents ≤ workSince before file (e.2 - t.window)

namespace ThrashingLogged

variable {t : Thresholds} {events new : List (NewEvent × Time)}

/-- Events that are no reports of thrashing do not matter. -/
theorem kept (h : ThrashingLogged t events) (hnew : ∀ e ∈ new, e.1.type ≠ .thrashDetected) :
    ThrashingLogged t (events ++ new) where
  spaced file := by
    have hnone : new.filter (ofThrash file) = [] := by
      rw [List.filter_eq_nil_iff]
      intro e he
      simp [ofThrash, hnew e he]
    rw [List.filter_append, hnone, List.append_nil]
    exact h.spaced file
  founded before e after hsplit htype := by
    rcases split_append hsplit with ⟨rest, hold, -⟩ | ⟨rest, -, hrest⟩
    · exact h.founded before e rest hold htype
    · exact absurd htype (hnew e (by simp [hrest]))

/-- A report is made when there was enough work, and the latest report is a window ago. -/
theorem reported (h : ThrashingLogged t events) {file : String} {details : Option Json} {now : Time}
    (hwork : t.thrashEvents ≤ workSince events file (now - t.window))
    (hlatest : ∀ last, ((events.filter (ofThrash file)).map (·.2)).max? = some last →
      t.window ≤ now - last) :
    ThrashingLogged t (events ++ [(⟨.thrashDetected, some file, none, details⟩, now)]) where
  spaced other := by
    by_cases hother : other = file
    · subst hother
      have hone : [((⟨.thrashDetected, some other, none, details⟩ : NewEvent), now)].filter
          (ofThrash other) = [(⟨.thrashDetected, some other, none, details⟩, now)] := by
        simp [ofThrash]
      rw [List.filter_append, hone, List.pairwise_append]
      refine ⟨h.spaced other, List.pairwise_singleton _ _, fun e he e' he' => ?_⟩
      rw [List.mem_singleton.mp he']
      -- the earlier report is not after the latest one
      obtain ⟨last, hlast⟩ : ∃ last, ((events.filter (ofThrash other)).map (·.2)).max? = some last :=
        Option.isSome_iff_exists.mp (List.isSome_max?_of_mem (List.mem_map_of_mem he))
      have hle : e.2 ≤ last :=
        (List.max?_eq_some_iff.mp hlast).2 _ (List.mem_map_of_mem he)
      calc e.2 + t.window ≤ last + t.window := Int.add_le_add_right hle _
        _ ≤ now := Int.add_le_of_le_sub_left (hlatest last hlast)
    · have hnone : [((⟨.thrashDetected, some file, none, details⟩ : NewEvent), now)].filter
          (ofThrash other) = [] := by
        simp [ofThrash, Ne.symm hother]
      rw [List.filter_append, hnone, List.append_nil]
      exact h.spaced other
  founded before e after hsplit htype := by
    rcases split_append hsplit with ⟨rest, hold, -⟩ | ⟨rest, hbefore, hrest⟩
    · exact h.founded before e rest hold htype
    · -- the report is the last event
      cases rest with
      | nil =>
        rw [List.nil_append, List.cons.injEq] at hrest
        obtain ⟨rfl, -⟩ := hrest
        rw [hbefore, List.append_nil]
        exact ⟨file, rfl, hwork⟩
      | cons e' rest => simp at hrest

end ThrashingLogged

/-! ## §2. What the check reports. -/

/-- The window began when it has to, if that can be told. -/
theorem windowStart_eq_ok {t : Thresholds} {now since : Time} (h : windowStart t now = .ok since) :
    since = now - t.window := by
  unfold windowStart at h
  split at h
  · exact absurd h (by simp)
  · simp only at h
    split at h
    · rw [Except.ok.injEq] at h
      exact h.symm
    · exact absurd h (by simp)

/-- A window that is not too long can be told where its beginning can. -/
theorem windowStart_ok {t : Thresholds} {now : Time} (hpos : 0 < t.thrashWindow)
    (hsmall : t.thrashWindow ≤ maxWindow) (hrange : Time.inRange (now - t.window) = true) :
    windowStart t now = .ok (now - t.window) := by
  have hwithin : (decide (t.thrashWindow < -maxWindow) || decide (maxWindow < t.thrashWindow))
      = false := by
    have hmax : 0 < maxWindow := by decide
    simp only [Bool.or_eq_false_iff, decide_eq_false_iff_not]
    omega
  unfold windowStart
  rw [hwithin, if_neg Bool.false_ne_true]
  exact if_pos hrange

variable {t : Thresholds} {events : List (NewEvent × Time)} {file : String} {now : Time}

/-- What the check reports keeps the log as it is to be. -/
theorem ThrashingLogged.checked (h : ThrashingLogged t events) :
    ThrashingLogged t (events ++ (thrashReports t events file now).map fun r => (r.event, now)) := by
  unfold thrashReports
  split
  · simpa using h
  next since hsince =>
    split
    next hguard =>
      rw [windowStart_eq_ok hsince] at hguard ⊢
      exact h.reported hguard.1 hguard.2
    next => simpa using h

/-- Where there was enough work, there is a recent report after the check. -/
theorem recent_of_checked (hpos : 0 < t.thrashWindow) (hsmall : t.thrashWindow ≤ maxWindow)
    (hrange : Time.inRange (now - t.window) = true)
    (hwork : t.thrashEvents ≤ workSince events file (now - t.window)) :
    ∃ e ∈ events ++ (thrashReports t events file now).map fun r => (r.event, now),
      ofThrash file e = true ∧ now - t.window < e.2 := by
  have hwindow : 0 < t.window := by unfold Thresholds.window; omega
  unfold thrashReports
  rw [windowStart_ok hpos hsmall hrange]
  simp only
  split
  · refine ⟨((PatternReport.thrash t file _).event, now), List.mem_append_right _ List.mem_cons_self,
      by simp [ofThrash, PatternReport.thrash], Int.sub_lt_self now hwindow⟩
  next hguard =>
    -- the latest report is less than a window ago
    rw [not_and, not_forall] at hguard
    obtain ⟨last, hlast⟩ := hguard hwork
    rw [not_forall, exists_prop] at hlast
    obtain ⟨hmax, hrecent⟩ := hlast
    obtain ⟨e, he, rfl⟩ := List.mem_map.mp (List.max?_eq_some_iff.mp hmax).1
    obtain ⟨hmem, hthrash⟩ := List.mem_filter.mp he
    exact ⟨e, List.mem_append_left _ hmem, hthrash, sub_lt_comm.mp (not_le.mp hrecent)⟩

/-- A report of thrashing is no work. -/
theorem workSince_checked (since : Time) :
    workSince (events ++ (thrashReports t events file now).map fun r => (r.event, now)) file since
      = workSince events file since := by
  unfold workSince
  rw [List.countP_append, Nat.add_eq_left, List.countP_eq_zero]
  intro e he
  obtain ⟨r, hr, rfl⟩ := List.mem_map.mp he
  obtain ⟨count, rfl⟩ := mem_thrashReports hr
  simp [PatternReport.thrash, EventType.activity]

/-! ## §3. Moments. -/

/-- **One moment.** Only the check after the changes of a file reports thrashing. -/
theorem ThrashingLogged.lives {root : String} {m : Observer.Moment} {was is : Standing}
    (h : ThrashingLogged t was.events) (hlives : Lives root t was m is) :
    ThrashingLogged t is.events := by
  have hkept : ∀ {tally : Tally} {events : List NewEvent} {observations : List NewObservation}
      {reports : List PatternReport} {now : Time}, (∀ e ∈ events, e.type ≠ .thrashDetected) →
      (∀ r ∈ reports, r.event.type ≠ .thrashDetected) →
      ThrashingLogged t (was.after tally events observations reports now).events := by
    intro tally events observations reports now hevents hreports
    refine h.kept fun e he => ?_
    simp only [List.mem_map, List.mem_append] at he
    obtain ⟨e, hmem | ⟨r, hmem, rfl⟩, rfl⟩ := he
    · exact hevents e hmem
    · exact hreports r hmem
  cases hlives with
  | uncounted counted spot => exact hkept (fun e he => by simp [spot e he]) (by simp)
  | access counted =>
    refine hkept (by simp) fun r hr => ?_
    rw [mem_redundantReports hr]
    simp [PatternReport.redundantAccess]
  | failedSearch counted =>
    refine hkept (by simp) fun r hr => ?_
    rw [mem_failedSearchReports hr]
    simp [PatternReport.failedSearch]
  | failure details counted => exact hkept (by simp) (by simp)
  | @change file c now =>
    refine hkept ?_ fun r hr => ?_
    · cases c.kind <;> simp [ChangeKind.eventType]
    · rw [(mem_changeReports hr).2]
      simp [PatternReport.deadEnd]
  | closes => simpa [Standing.after, Function.comp_def] using h.checked
  | unbegun => exact hkept (by simp) (by simp)

/-- The check comes after the last change of a file, and what it reports is logged last. -/
theorem Observer.onFileDiff_events {o : Observer} {s : Store} (h : o.Ready s) {diff : FileDiff}
    (hsome : (diff.isFirst || diff.changes.isEmpty) = false) (now : Time) :
    ∃ events, ((o.onFileDiff s diff now).store.memory o.session).events
      = events ++ (thrashReports o.thresholds events diff.path now).map fun r => (r.event, now) := by
  have hsession : (o.begin s).2.hasSession (o.begin s).1.session = true := by
    rw [begin_fst]
    exact begin_hasSession h
  obtain ⟨last, hlast, hthere, -⟩ := onChanges_log diff.path now diff.changes hsession
  rw [begin_fst] at hlast hthere
  have hstore : (o.onFileDiff s diff now).store
      = afterCheck last (checkThrash o.thresholds false last o.session diff.path now) := by
    unfold onFileDiff
    simp only [hsome, Bool.false_eq_true, if_false, begin_fst, hlast]
    generalize checkThrash o.thresholds false last o.session diff.path now = result
    cases result with
    | ok checked => rfl
    | error e => cases e <;> rfl
  refine ⟨(last.memory o.session).events, ?_⟩
  rw [hstore, checkThrash_memory o.thresholds hthere diff.path now]
  rfl

/-! ## §4. Runs. -/

/-- What one of the observers of a crowd reports of thrashing in a run. -/
structure ThrashingExact {ι : Type} [DecidableEq ι] (w : Crowd ι) (i : ι)
    (encounters : List (Encounter ι)) : Prop where
  logged : ThrashingLogged (w.observers i).thresholds ((w.run encounters).standing i).events
  /-- Once it has seen changes of a file, with enough work on it in the log, there is a report that is
  less than a window old. -/
  recent : ∀ before e after diff now, encounters = before ++ e :: after → e.who = i →
    e.sight = .changes diff now → diff.isFirst = false → diff.changes ≠ [] →
    Time.inRange (now - (w.observers i).thresholds.window) = true →
    (w.observers i).thresholds.thrashEvents
        ≤ workSince ((w.run (before ++ [e])).standing i).events diff.path
          (now - (w.observers i).thresholds.window) →
    ∃ report ∈ ((w.run (before ++ [e])).standing i).events,
      ofThrash diff.path report = true ∧ now - (w.observers i).thresholds.window < report.2

/-- **Thrashing is reported when it has to be, and not too often**, whatever the clock does. Observers
of different sessions share a store, and see calls and changes of files at any times. An observer whose
session the store did not know, with a window that can be told, reports thrashing on a file at times
that are a window apart, each with enough work on the file within the window before; and where there is
enough work after changes of the file, there is a recent report. -/
theorem thrashing_exact {ι : Type} [DecidableEq ι] (w : Crowd ι) (hready : w.Ready)
    (hstore : w.store.Intact) (hsessions : Function.Injective fun j => (w.observers j).session)
    (i : ι) (hunknown : w.store.hasSession (w.observers i).session = false)
    (hpos : 0 < (w.observers i).thresholds.thrashWindow)
    (hsmall : (w.observers i).thresholds.thrashWindow ≤ maxWindow)
    (encounters : List (Encounter ι)) : ThrashingExact w i encounters := by
  refine ⟨?_, ?_⟩
  · refine Crowd.run_standing (P := fun _ is => ThrashingLogged (w.observers i).thresholds is.events)
      hready hstore hsessions i hunknown ?_ ?_ encounters
    · intro _ was m is hlives h
      exact h.lives hlives
    · exact ⟨fun _ => List.Pairwise.nil, by simp⟩
  · intro before e after diff now _ hwho hsight hfirst hchanges hrange hwork
    subst hwho
    -- the check has been made after the last change, and only its report has been logged since
    have hthresholds := Crowd.run_thresholds e.who before w
    have hsome : (diff.isFirst || diff.changes.isEmpty) = false := by simp [hfirst, hchanges]
    obtain ⟨events, hevents⟩ :=
      Observer.onFileDiff_events (Crowd.run_ready hready before e.who) hsome now
    have hlog : ((w.run (before ++ [e])).standing e.who).events = events
        ++ (thrashReports (w.observers e.who).thresholds events diff.path now).map
          fun r => (r.event, now) := by
      rw [Crowd.run_concat, Crowd.step_standing, hsight, ← hthresholds]
      exact hevents
    rw [hlog, workSince_checked] at hwork
    rw [hlog]
    exact recent_of_checked hpos hsmall hrange hwork

/-- Two observers on an empty store that take two pieces of work within ten seconds for thrashing. -/
def tinkerers : Crowd Bool :=
  .leftAndRight { Thresholds.default with thrashEvents := 2, thrashWindow := 10 }

/-- The left one sees changes of a file at twenty seconds, after the clock has gone back to five, just
before thirty and at thirty. The right one sees the file change once in between. -/
def tinkerersRun : List (Encounter Bool) :=
  let comes := SymbolChange.of .added "f" .function none none
  let goes := SymbolChange.of .removed "f" .function none none
  [⟨false, ⟨[], []⟩, .changes ⟨"a.py", false, [comes, goes]⟩ 20000⟩,
    ⟨false, ⟨[], []⟩, .changes ⟨"a.py", false, [comes, goes]⟩ 5000⟩,
    ⟨true, ⟨[], []⟩, .changes ⟨"a.py", false, [comes]⟩ 29999⟩,
    ⟨false, ⟨[], []⟩, .changes ⟨"a.py", false, [comes]⟩ 29999⟩,
    ⟨false, ⟨[], []⟩, .changes ⟨"a.py", false, [goes]⟩ 30000⟩]

theorem thrashing_exact_of_tinkerers :
    (tinkerers.Ready ∧ Function.Injective (fun side => (tinkerers.observers side).session)
      ∧ tinkerers.store.hasSession (tinkerers.observers false).session = false
      ∧ 0 < (tinkerers.observers false).thresholds.thrashWindow
      ∧ (tinkerers.observers false).thresholds.thrashWindow ≤ maxWindow)
    ∧ ThrashingExact tinkerers false tinkerersRun
    ∧ (((tinkerers.run tinkerersRun).standing false).events.filter (ofThrash "a.py")).map (·.2)
      = [20000, 30000]
    ∧ ((tinkerers.run tinkerersRun).standing true).events.map (·.1.type) = [.symbolAdded] := by
  have hready : tinkerers.Ready := Crowd.leftAndRight_ready _
  have hsessions := Crowd.leftAndRight_sessions
    { Thresholds.default with thrashEvents := 2, thrashWindow := 10 }
  refine ⟨⟨hready, hsessions, by decide, by decide, by decide⟩, ?_, by decide +kernel,
    by decide +kernel⟩
  exact thrashing_exact tinkerers hready Store.intact_empty hsessions false (by decide) (by decide)
    (by decide) tinkerersRun

end CodeIndex
