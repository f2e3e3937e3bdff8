import Mathlib
import CodeIndex.Proofs.Project.Routine
import CodeIndex.Proofs.Session.Growth
import CodeIndex.Proofs.Session.Thrashing

/-!
# What a long window breaks

Observers are told of calls and of changes of files, and go on whatever the store refuses. One thing only
cuts them short: the check for thrashing tells when its window began, and the window of the settings may
reach past the times that can be told. Nobody looks at the window before, so any changes of a file do it,
after they have been logged. A project is broken by them, and is told of nothing any more.

Main results: `hooks_return_while_told`, `hook_cut_short_by_long_window`.
-/

namespace CodeIndex

open Observer (Sight Moment)

/-! ## §1. Windows. -/

/-- Whether the beginning of the window that ends now can be told. -/
def Thresholds.tells (t : Thresholds) (now : Time) : Bool :=
  -maxWindow ≤ t.thrashWindow && t.thrashWindow ≤ maxWindow && Time.inRange (now - t.window)

theorem windowStart_eq (t : Thresholds) (now : Time) :
    windowStart t now = if t.tells now then .ok (now - t.window) else .error .timeOverflow := by
  unfold windowStart Thresholds.tells Thresholds.window
  by_cases hlong : (decide (t.thrashWindow < -maxWindow) || decide (maxWindow < t.thrashWindow)) = true
  · rw [if_pos hlong, if_neg]
    simp only [Bool.or_eq_true, decide_eq_true_eq] at hlong
    simp only [Bool.and_eq_true, decide_eq_true_eq]
    omega
  · rw [if_neg hlong]
    simp only [Bool.or_eq_true, decide_eq_true_eq, not_or, not_lt] at hlong
    simp only [hlong, decide_true, Bool.true_and]

theorem Time.inRange_iff {t : Int} :
    Time.inRange t = true ↔ -8334601228800000 ≤ t ∧ t ≤ 8210266876799999 := by
  unfold inRange
  rw [Bool.and_eq_true, decide_eq_true_eq, decide_eq_true_eq]
  rfl

/-- At a time that can be told, it is a matter of the beginning only. -/
theorem Thresholds.tells_of_inRange {t : Thresholds} {now : Time} (h : now.inRange = true) :
    t.tells now = Time.inRange (now - t.window) := by
  unfold tells
  rw [Bool.and_eq_right_iff_imp]
  intro hbegin
  rw [Time.inRange_iff] at h hbegin
  simp only [Bool.and_eq_true, decide_eq_true_eq]
  unfold window at hbegin
  unfold maxWindow
  omega

/-! ## §2. Checks. -/

section

variable (t : Thresholds) (nested : Bool) (s : Store) (session file : String) (now : Time)

theorem checkDeadEnd_told (symbol : String) :
    checkDeadEnd nested s session file symbol now ≠ .error .timeOverflow := by
  unfold checkDeadEnd
  split
  · simp
  · exact reported_told _ _ _ _ _ _

theorem checkRedundantAccess_told (symbol : Option String) (count : UInt32) :
    checkRedundantAccess t nested s session file symbol count now ≠ .error .timeOverflow := by
  unfold checkRedundantAccess
  split
  · simp
  · exact reported_told _ _ _ _ _ _

theorem checkFailedSearch_told (query : String) (attempts : UInt32) :
    checkFailedSearch t nested s session query attempts now ≠ .error .timeOverflow := by
  unfold checkFailedSearch
  split
  · simp
  · exact reported_told _ _ _ _ _ _

theorem checkToolErrors_told (tool : String) (path : Option String) (count : UInt32) :
    checkToolErrors t s session tool path count now ≠ .error .timeOverflow := by
  unfold checkToolErrors
  extract_lets text
  split
  · simp
  · split <;> simp

/-- The check for thrashing is cut short when the window cannot be told, and only then. -/
theorem checkThrash_cut_iff :
    checkThrash t nested s session file now = .error .timeOverflow ↔ t.tells now = false := by
  have hstart := windowStart_eq t now
  cases htells : t.tells now with
  | false =>
    rw [htells, if_neg Bool.false_ne_true] at hstart
    unfold checkThrash
    rw [hstart]
    exact iff_of_true rfl rfl
  | true =>
    rw [htells, if_pos rfl] at hstart
    exact iff_of_false (checkThrash_told hstart nested s session file) Bool.noConfusion

end

/-- The checks that look at no window are never cut short. -/
structure ChecksTold (t : Thresholds) : Prop where
  deadEnd : ∀ nested s session file symbol now,
    checkDeadEnd nested s session file symbol now ≠ .error .timeOverflow
  redundantAccess : ∀ nested s session file symbol count now,
    checkRedundantAccess t nested s session file symbol count now ≠ .error .timeOverflow
  failedSearch : ∀ nested s session query attempts now,
    checkFailedSearch t nested s session query attempts now ≠ .error .timeOverflow
  toolErrors : ∀ s session tool file count now,
    checkToolErrors t s session tool file count now ≠ .error .timeOverflow

theorem checksTold (t : Thresholds) : ChecksTold t where
  deadEnd nested s session file symbol now := checkDeadEnd_told nested s session file now symbol
  redundantAccess nested s session file symbol count now :=
    checkRedundantAccess_told t nested s session file now symbol count
  failedSearch nested s session query attempts now :=
    checkFailedSearch_told t nested s session now query attempts
  toolErrors s session tool file count now := checkToolErrors_told t s session now tool file count

/-! ## §3. Observers. -/

namespace Observer

theorem liveAll_ready (moments : List Moment) :
    ∀ {o : Observer} {s : Store}, o.Ready s → (o.liveAll s moments).1.Ready (o.liveAll s moments).2 := by
  induction moments with
  | nil => intro o s h; exact h
  | cons m rest ih => intro o s h; exact ih (live_ready h m)

theorem see_ready {o : Observer} {s : Store} (h : o.Ready s) (d : Disk) (sight : Sight) :
    (o.see d s sight).1.Ready (o.see d s sight).2 := by
  rw [see_eq_liveAll h]
  exact liveAll_ready _ h

/-- Whether the handling of what is seen has to be cut short: there are changes, and the window cannot be
told. -/
def Sight.cut (t : Thresholds) : Sight → Bool
  | .call _ _ => false
  | .changes diff now => !(diff.isFirst || diff.changes.isEmpty) && !t.tells now

/-- Whether an observer is cut short by what it sees. -/
def cutShort (o : Observer) (s : Store) : Sight → Bool
  | .call _ _ => false
  | .changes diff now => (o.onFileDiff s diff now).crashed

/-- **An observer is cut short** when it has to be, and only then. -/
theorem cutShort_eq {o : Observer} {s : Store} (h : o.Ready s) (sight : Sight) :
    o.cutShort s sight = sight.cut o.thresholds := by
  cases sight with
  | call call now => rfl
  | changes diff now =>
    show (o.onFileDiff s diff now).crashed
      = (!(diff.isFirst || diff.changes.isEmpty) && !o.thresholds.tells now)
    unfold onFileDiff
    split
    next hnone => simp [hnone]
    next hsome =>
      -- all changes are observed, so that the check comes to be made
      have hsession : (o.begin s).2.hasSession (o.begin s).1.session = true := by
        rw [begin_fst]
        exact begin_hasSession h
      obtain ⟨last, hlast, -, -⟩ := onChanges_log diff.path now diff.changes hsession
      have hcut := checkThrash_cut_iff o.thresholds false last o.session diff.path now
      rw [begin_fst] at hlast
      simp only [begin_fst, hlast, hsome, Bool.not_false, Bool.true_and]
      split
      next hok =>
        rw [hok] at hcut
        simpa using hcut
      next herror => simp [hcut.mp herror]
      next herror =>
        rw [herror] at hcut
        simpa using hcut

end Observer

/-! ## §4. Projects. -/

namespace Project

variable {p : Project}

/-- A project observes one thing after another. -/
def seeAll (p : Project) (seen : List (Disk × Sight)) : Project :=
  seen.foldl (fun p x => p.see x.1 x.2) p

/-- A broken project is told of nothing. -/
theorem see_of_broken (h : p.isSound = false) (d : Disk) (sight : Sight) : p.see d sight = p := by
  cases sight with
  | call call now =>
    unfold see onToolCall
    rw [h]
    rfl
  | changes diff now => exact onFileDiff_of_broken h diff now

theorem seeAll_of_broken (h : p.isSound = false) (seen : List (Disk × Sight)) : p.seeAll seen = p := by
  induction seen with
  | nil => rfl
  | cons x rest ih =>
    show (p.see x.1 x.2).seeAll rest = p
    rw [see_of_broken h, ih]

/-- A sound project sees what its observer sees. -/
theorem see_of_sound (h : p.isSound = true) (d : Disk) (sight : Sight) :
    (p.see d sight).observer = (p.observer.see d p.store sight).1
      ∧ (p.see d sight).store = (p.observer.see d p.store sight).2
      ∧ (p.see d sight).isSound = !p.observer.cutShort p.store sight := by
  cases sight with
  | call call now =>
    show (p.onToolCall d call now).observer = _ ∧ (p.onToolCall d call now).store = _
      ∧ (p.onToolCall d call now).isSound = _
    unfold onToolCall
    rw [if_pos h]
    exact ⟨rfl, rfl, h⟩
  | changes diff now =>
    show (p.onFileDiff diff now).observer = _ ∧ (p.onFileDiff diff now).store = _
      ∧ (p.onFileDiff diff now).isSound = _
    unfold onFileDiff
    rw [if_pos h]
    refine ⟨rfl, rfl, ?_⟩
    show decide ((if (p.observer.onFileDiff p.store diff now).crashed then Condition.broken false
      else .sound) = .sound) = !(p.observer.onFileDiff p.store diff now).crashed
    cases (p.observer.onFileDiff p.store diff now).crashed <;> rfl

/-- **A project breaks** at the first sight that has to be cut short. -/
theorem seeAll_isSound (seen : List (Disk × Sight)) :
    ∀ {p : Project}, p.isSound = true → p.observer.Ready p.store →
      ((p.seeAll seen).isSound = true ↔ ∀ x ∈ seen, x.2.cut p.observer.thresholds = false) := by
  induction seen with
  | nil => exact fun hsound _ => iff_of_true hsound (by simp)
  | cons x rest ih =>
    intro p hsound hready
    obtain ⟨hobserver, hstore, hstill⟩ := see_of_sound hsound x.1 x.2
    rw [Observer.cutShort_eq hready] at hstill
    rw [List.forall_mem_cons]
    show ((p.see x.1 x.2).seeAll rest).isSound = true ↔ _
    cases hcut : x.2.cut p.observer.thresholds with
    | true =>
      rw [hcut] at hstill
      rw [seeAll_of_broken hstill, hstill]
      exact iff_of_false Bool.false_ne_true fun h => Bool.noConfusion h.1
    | false =>
      rw [hcut] at hstill
      rw [ih hstill (hobserver ▸ hstore ▸ Observer.see_ready hready x.1 x.2), hobserver,
        Observer.see_thresholds]
      exact (and_iff_right rfl).symm

end Project

/-! ## §5. Runs. -/

/-- What comes of what the observers of a crowd see after a run. -/
structure HooksReturn {ι : Type} [DecidableEq ι] (w : Crowd ι) (encounters : List (Encounter ι)) : Prop where
  checks : ∀ i, ChecksTold (w.observers i).thresholds
  /-- At a time that can be told, it is a matter of when the window began. -/
  window : ∀ i now, now.inRange = true → (w.observers i).thresholds.tells now
    = Time.inRange (now - (w.observers i).thresholds.window)
  /-- An observer is cut short by changes with a window that cannot be told, and by nothing else. -/
  cut : ∀ i sight, ((w.run encounters).observers i).cutShort (w.run encounters).store sight
    = sight.cut (w.observers i).thresholds
  /-- The changes have been logged by then. -/
  logged : ∀ e diff now, e.sight = .changes diff now → e.sight.cut (w.observers e.who).thresholds = true →
    (w.run (encounters ++ [e])).store.changeLog = (w.run encounters).store.changeLog ++ diff.listed

/-- **Hooks return while the window can be told**, whatever is in the store and whatever it refuses.
Observers share a store, and see calls and changes of files at any times. An observer is cut short by
changes of a file if the beginning of its window cannot be told at their time, once they have been logged,
and by nothing else. A project stays sound if and only if none of what it sees does that. -/
theorem hooks_return_while_told {ι : Type} [DecidableEq ι] (w : Crowd ι) (hready : w.Ready)
    (encounters : List (Encounter ι)) :
    HooksReturn w encounters
      ∧ ∀ p : Project, p.isSound = true → p.observer.Ready p.store → ∀ seen,
        ((p.seeAll seen).isSound = true ↔ ∀ x ∈ seen, x.2.cut p.observer.thresholds = false) := by
  refine ⟨⟨fun i => checksTold _, fun i now => Thresholds.tells_of_inRange, fun i sight => ?_,
    fun e diff now hsight hcut => ?_⟩, fun p hsound hobserver seen =>
      Project.seeAll_isSound seen hsound hobserver⟩
  · rw [Observer.cutShort_eq (Crowd.run_ready hready encounters i), Crowd.run_thresholds]
  · -- a first reading does not cut short
    have hfirst : diff.isFirst = true → diff.changes = [] := by
      intro hfirst
      rw [hsight, Sight.cut, hfirst] at hcut
      exact Bool.noConfusion hcut
    rw [Crowd.run_concat, Crowd.step, hsight]
    exact (Observer.onFileDiff_log (Crowd.run_ready hready encounters e.who) hfirst now).1

/-- Two observers on an empty store with a window that begins almost when time does. -/
def oldTimers : Crowd Bool := .leftAndRight { Thresholds.default with thrashWindow := 8300000000000 }

/-- A symbol is added to a file. -/
def addition (now : Time) : Sight := .changes ⟨"a.py", false, [.of .added "f" .function none none]⟩ now

/-- A tool fails. -/
def failedRead (now : Time) : Sight :=
  .call ⟨"read_file", .obj [("path", .str "a.py")], .str "denied", true⟩ now

/-- A project with an empty index, in which no file is selected. -/
def Project.fresh (t : Thresholds) : Project :=
  let config : Config :=
    { Config.default with codeGlobs := [], docGlobs := [], ignoreGlobs := [], thresholds := t }
  ⟨⟨"/p", config, ⟨[], [], []⟩⟩, .empty, .new "/p" t .indexed none "left", .sound, true⟩

theorem hooks_return_while_told_of_oldTimers :
    (oldTimers.Ready ∧ (Project.fresh (oldTimers.observers false).thresholds).isSound = true)
    ∧ HooksReturn oldTimers [⟨false, ⟨[], []⟩, addition 0⟩]
    ∧ ((Project.fresh (oldTimers.observers false).thresholds).seeAll
        [(⟨[], []⟩, addition 0), (⟨[], []⟩, failedRead (-100000000000000))]).isSound = true
    ∧ ((Project.fresh (oldTimers.observers false).thresholds).seeAll
        [(⟨[], []⟩, addition 0), (⟨[], []⟩, addition (-100000000000000))]).isSound = false := by
  have hready : oldTimers.Ready := Crowd.leftAndRight_ready _
  obtain ⟨hhooks, hproject⟩ := hooks_return_while_told oldTimers hready [⟨false, ⟨[], []⟩, addition 0⟩]
  have hbreaks := hproject (Project.fresh (oldTimers.observers false).thresholds) rfl
    (fun hbegun => absurd hbegun Bool.false_ne_true)
  refine ⟨⟨hready, rfl⟩, hhooks, (hbreaks _).mpr (by decide), ?_⟩
  rw [Bool.eq_false_iff, ne_eq, hbreaks]
  decide

/-- **A hook does not return** when the settings have a window past all times. The change has been logged
when the handling is cut short, and the project is told of nothing any more. -/
theorem hook_cut_short_by_long_window :
    let settings : Json := .obj [("patterns", .obj [("thrash_window_secs", .int 9223372036854775807)])]
    let t : Thresholds := { Thresholds.default with thrashWindow := 9223372036854775807 }
    let after := (Observer.new "/p" t .indexed none "left").onFileDiff .empty
      ⟨"a.py", false, [.of .added "f" .function none none]⟩ 0
    (Config.ofJson? settings).map (·.thresholds) = some t
      ∧ after.crashed = true
      ∧ after.store.changeLog = [⟨"a.py", "f", .added⟩]
      ∧ ((Project.fresh t).seeAll [(⟨[], []⟩, addition 0)]).isSound = false
      ∧ ((Project.fresh t).seeAll
        [(⟨[], []⟩, addition 0), (⟨[], []⟩, failedRead 1)]).store.events.length = 1 := by
  decide +kernel

end CodeIndex
