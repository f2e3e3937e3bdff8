import Mathlib
import CodeIndex.Proofs.Session.Crowd

/-!
# Stale observations

An observation of a symbol holds until the symbol is removed or its signature changes, whoever sees
that happen. From then on it is stale, for the reason it became so.

The moments of a run say which. A moment gives a reason to every observation about the symbol that it
sees change (`Moment.reason?`), and an observation takes the first reason that is given after it was
made (`firstReason`). What is observed in a moment is observed after the marks of that moment are made,
so no change makes its own observation stale.

Main result: `stale_from_first_change_on`.
-/

namespace CodeIndex

open Observer (Sight Moment)

/-- What a moment says against an observation: the description of a change that invalidates it. -/
def Observer.Moment.reason? (m : Moment) (observation : NewObservation) : Option String :=
  match m with
  | .change file c _ =>
    if observation.file = some file ∧ observation.symbol = some c.symbol ∧ c.kind.invalidates then
      some c.description
    else none
  | _ => none

/-- The first thing that the moments of a run say against an observation. -/
def firstReason {ι : Type} (observation : NewObservation) (moments : List (ι × Moment)) :
    Option String :=
  moments.findSome? (·.2.reason? observation)

namespace ObservationRow

/-- An observation after something may have been said against it: one that is stale stays as it is. -/
def doubted (row : ObservationRow) : Option String → ObservationRow
  | none => row
  | some reason => if row.stale then row else row.marked reason

@[simp] theorem doubted_none (row : ObservationRow) : row.doubted none = row := rfl

/-- What is stale stays so, for the reason it has. -/
theorem doubted_of_stale {row : ObservationRow} (h : row.stale = true) (reason : Option String) :
    row.doubted reason = row := by
  cases reason with
  | none => rfl
  | some reason => exact if_pos h

theorem doubted_of_holds {row : ObservationRow} (h : row.stale = false) (reason : String) :
    row.doubted (some reason) = row.marked reason := if_neg (by simp [h])

theorem doubted_doubted (row : ObservationRow) (first second : Option String) :
    (row.doubted first).doubted second = row.doubted (first.or second) := by
  cases first with
  | none => rfl
  | some reason =>
    -- after the first reason it is stale, if it was not
    have hstale : (row.doubted (some reason)).stale = true := by
      cases hrow : row.stale with
      | true => rw [doubted_of_stale hrow, hrow]
      | false => rw [doubted_of_holds hrow]; rfl
    rw [doubted_of_stale hstale, Option.some_or]

@[simp] theorem doubted_observation (row : ObservationRow) (reason : Option String) :
    (row.doubted reason).observation = row.observation := by
  cases reason with
  | none => rfl
  | some reason => unfold doubted marked; dsimp only; split <;> rfl

/-- A fresh observation against which something may have been said: the reason is what was said, and
it is stale if something was. -/
theorem Fresh.doubted {row : ObservationRow} (h : row.Fresh) (reason : Option String) :
    (row.doubted reason).staleReason = reason ∧ (row.doubted reason).stale = reason.isSome
      ∧ { row.doubted reason with stale := false, staleReason := none } = row := by
  obtain ⟨hstale, hreason⟩ := h
  cases reason with
  | none => exact ⟨hreason, hstale, by rw [doubted_none, ← hstale, ← hreason]⟩
  | some reason =>
    rw [doubted_of_holds hstale]
    exact ⟨rfl, rfl, by rw [marked, ← hstale, ← hreason]⟩

end ObservationRow

theorem firstReason_isSome_iff {ι : Type} (observation : NewObservation) (moments : List (ι × Moment)) :
    (firstReason observation moments).isSome = true ↔
      ∃ file symbol, observation.file = some file ∧ observation.symbol = some symbol
        ∧ ∃ i c now, (i, Moment.change file c now) ∈ moments ∧ c.symbol = symbol
          ∧ (c.kind = .removed ∨ c.kind = .sigChanged) := by
  have hinvalidates : ∀ kind : ChangeKind,
      kind.invalidates = true ↔ kind = .removed ∨ kind = .sigChanged := by
    intro kind
    cases kind <;> decide
  unfold firstReason
  rw [List.findSome?_isSome_iff]
  constructor
  · rintro ⟨⟨i, m⟩, hm, hreason⟩
    cases m with
    | change file c now =>
      by_cases hsays : observation.file = some file ∧ observation.symbol = some c.symbol
          ∧ c.kind.invalidates = true
      · exact ⟨file, c.symbol, hsays.1, hsays.2.1, i, c, now, hm, rfl, (hinvalidates _).mp hsays.2.2⟩
      · simp [Moment.reason?, hsays] at hreason
    | call | closes => simp [Moment.reason?] at hreason
  · rintro ⟨file, symbol, hfile, hsymbol, i, c, now, hm, rfl, hkind⟩
    exact ⟨_, hm, by simp [Moment.reason?, hfile, hsymbol, (hinvalidates _).mpr hkind]⟩

/-! ## §1. One moment. -/

namespace Observer

variable {o : Observer} {s : Store}

/-- Marking what a change invalidates is what the change says against each observation. -/
theorem marked_observations (s : Store) (file : String) (c : SymbolChange) (now : Time) :
    (marked s file c).observations = s.observations.map fun row =>
      row.doubted ((Moment.change file c now).reason? row.observation) := by
  unfold marked
  split
  next hinvalidates =>
    refine List.map_congr_left fun row _ => ?_
    have hfresh : Store.isFreshAbout file (some c.symbol) row = true ↔
        row.observation.file = some file ∧ row.observation.symbol = some c.symbol
          ∧ row.stale = false := by
      simp [Store.isFreshAbout, and_assoc]
    -- only an observation that holds is marked; one that is stale keeps its reason
    by_cases hmark : Store.isFreshAbout file (some c.symbol) row = true
    · obtain ⟨hfile, hsymbol, hholds⟩ := hfresh.mp hmark
      rw [if_pos hmark]
      simp [ObservationRow.doubted, Moment.reason?, hfile, hsymbol, hholds, hinvalidates]
    · rw [if_neg hmark]
      cases hstale : row.stale with
      | true => rw [ObservationRow.doubted_of_stale hstale]
      | false =>
        have hother : ¬(row.observation.file = some file ∧ row.observation.symbol = some c.symbol
            ∧ c.kind.invalidates = true) := fun h => hmark (hfresh.mpr ⟨h.1, h.2.1, hstale⟩)
        simp only [Moment.reason?, if_neg hother, ObservationRow.doubted_none]
  next hinvalidates =>
    have hmap : ∀ row : ObservationRow,
        row.doubted ((Moment.change file c now).reason? row.observation) = row := by
      intro row
      simp [Moment.reason?, hinvalidates]
    simp [hmap]

/-- In a moment every observation hears what the moment says against it, and what is observed then
is fresh. -/
theorem live_observations (h : o.Ready s) (m : Moment) :
    ∃ new, (o.live s m).2.observations
        = s.observations.map (fun row => row.doubted (m.reason? row.observation)) ++ new
      ∧ ∀ row ∈ new, row.Fresh := by
  cases m with
  | call d call now =>
    simp only [live, Moment.reason?, ObservationRow.doubted_none, List.map_id_fun', id_eq]
    rcases onToolCall_entered o d s call now with hpassed | hentered
    · exact ⟨[], by rw [hpassed, List.append_nil], by simp⟩
    · exact ((begin_entered o s).trans hentered).observations
  | change file c now =>
    obtain ⟨s', hchange, -, -⟩ :=
      onChange_log (o := (o.begin s).1) (s := (o.begin s).2)
        (by rw [begin_fst]; exact begin_hasSession h) file c now
    obtain ⟨mid, i, hevent, hentered⟩ := onChange_entered hchange
    obtain ⟨new, hnew, hfresh⟩ := hentered.observations
    refine ⟨new, ?_, hfresh⟩
    simp only [live, hchange]
    rw [hnew, marked_observations mid file c now, Store.insertEvent_observations hevent]
    -- to begin a session is to observe nothing
    unfold begin
    split <;> rfl
  | closes file now =>
    simp only [live, Moment.reason?, ObservationRow.doubted_none, List.map_id_fun', id_eq]
    exact (checkThrash_checked false file now).entered.observations

end Observer

/-! ## §2. A run. -/

namespace Crowd

variable {ι : Type} [DecidableEq ι] {w : Crowd ι}

theorem live_observations (h : w.Ready) (m : ι × Moment) :
    ∃ new, (w.live m).store.observations
        = w.store.observations.map (fun row => row.doubted (m.2.reason? row.observation)) ++ new
      ∧ ∀ row ∈ new, row.Fresh :=
  Observer.live_observations (h m.1) m.2

/-- An observation that there is stays in its place, and takes the first reason that is given. -/
theorem liveAll_doubts (moments : List (ι × Moment)) :
    ∀ {w : Crowd ι}, w.Ready → ∀ {k : Nat} {row : ObservationRow},
      w.store.observations[k]? = some row →
      (w.liveAll moments).store.observations[k]?
        = some (row.doubted (firstReason row.observation moments)) := by
  induction moments with
  | nil =>
    intro w _ k row hrow
    simpa [liveAll, firstReason] using hrow
  | cons m rest ih =>
    intro w h k row hrow
    obtain ⟨new, hnew, -⟩ := live_observations h m
    have hk : k < w.store.observations.length := (List.getElem?_eq_some_iff.mp hrow).1
    have hlive : (w.live m).store.observations[k]?
        = some (row.doubted (m.2.reason? row.observation)) := by
      rw [hnew, List.getElem?_append_left (by simpa using hk), List.getElem?_map, hrow]
      rfl
    have hrest := ih (h.live m) hlive
    rw [ObservationRow.doubted_observation, ObservationRow.doubted_doubted] at hrest
    have hfirst : firstReason row.observation (m :: rest)
        = (m.2.reason? row.observation).or (firstReason row.observation rest) := by
      unfold firstReason
      rw [List.findSome?_cons]
      cases m.2.reason? row.observation <;> rfl
    rw [hfirst]
    exact hrest

/-- An observation that there was not at the start was made in one of the moments, fresh. -/
theorem liveAll_made (moments : List (ι × Moment)) :
    ∀ {w : Crowd ι}, w.Ready → ∀ {k : Nat}, w.store.observations.length ≤ k →
      k < (w.liveAll moments).store.observations.length →
      ∃ before m after, moments = before ++ m :: after
        ∧ (w.liveAll before).store.observations.length ≤ k
        ∧ ∃ made, (w.liveAll (before ++ [m])).store.observations[k]? = some made
          ∧ made.Fresh := by
  induction moments with
  | nil => intro w _ k hk hlt; exact absurd hlt (not_lt.mpr hk)
  | cons m rest ih =>
    intro w h k hk hlt
    -- the table of observations grows past the place in this moment or in a later one
    by_cases hnow : k < (w.live m).store.observations.length
    · refine ⟨[], m, rest, rfl, hk, (w.live m).store.observations[k], ?_, ?_⟩
      · exact List.getElem?_eq_getElem hnow
      · obtain ⟨new, hnew, hfresh⟩ := live_observations h m
        refine hfresh _ ?_
        simp only [hnew, List.getElem_append]
        rw [dif_neg (by simpa using hk)]
        exact List.getElem_mem _
    · obtain ⟨before, m', after, hmoments, hbefore, hmade⟩ := ih (h.live m) (not_lt.mp hnow) hlt
      exact ⟨m :: before, m', after, by rw [hmoments]; rfl, hbefore, hmade⟩

end Crowd

/-- What a run of a crowd, told in moments, makes of the observations. -/
structure ExactlyStale {ι : Type} [DecidableEq ι] (w : Crowd ι) (encounters : List (Encounter ι)) :
    Prop where
  run : w.run encounters = w.liveAll (encounters.flatMap Encounter.moments)
  /-- An observation that there is at some moment stays. If it holds then, it gets stale for the first
  reason that is given from then on; if it is stale it stays as it is. -/
  kept : ∀ before after, encounters.flatMap Encounter.moments = before ++ after →
    ∀ (k : Nat) (row : ObservationRow), (w.liveAll before).store.observations[k]? = some row →
      (w.run encounters).store.observations[k]?
        = some (row.doubted (firstReason row.observation after))
  /-- Any other was made in one moment of the run, fresh. It is stale for the first reason that is
  given after that moment, so exactly if it is about a symbol of a file and a later moment sees the
  symbol removed or its signature changed. -/
  made : ∀ (k : Nat) (row : ObservationRow), (w.run encounters).store.observations[k]? = some row →
    w.store.observations.length ≤ k →
      ∃ before m after, encounters.flatMap Encounter.moments = before ++ m :: after
        ∧ (w.liveAll before).store.observations.length ≤ k
        ∧ (w.liveAll (before ++ [m])).store.observations[k]?
          = some { row with stale := false, staleReason := none }
        ∧ row.staleReason = firstReason row.observation after
        ∧ (row.stale = true ↔
          ∃ file symbol, row.observation.file = some file ∧ row.observation.symbol = some symbol
            ∧ ∃ i c now, (i, Moment.change file c now) ∈ after ∧ c.symbol = symbol
              ∧ (c.kind = .removed ∨ c.kind = .sigChanged))

/-- **Staleness is exact and one-way**, for any number of observers that share a store and see calls
and changes of files in any order. -/
theorem stale_from_first_change_on {ι : Type} [DecidableEq ι] (w : Crowd ι) (h : w.Ready)
    (encounters : List (Encounter ι)) : ExactlyStale w encounters := by
  have hrun := w.run_eq_liveAll h encounters
  refine ⟨hrun, ?_, ?_⟩
  · intro before after hmoments k row hrow
    rw [hrun, hmoments, Crowd.liveAll_append]
    exact Crowd.liveAll_doubts after (h.liveAll before) hrow
  · intro k row hrow hk
    rw [hrun] at hrow
    obtain ⟨before, m, after, hmoments, hbefore, made, hmade, hfresh⟩ :=
      Crowd.liveAll_made _ h hk (List.getElem?_eq_some_iff.mp hrow).1
    -- from the moment in which it was made, the observation hears the moments after it
    have hheard := Crowd.liveAll_doubts after (h.liveAll (before ++ [m])) hmade
    rw [← Crowd.liveAll_append, List.append_assoc, List.singleton_append, ← hmoments, hrow,
      Option.some.injEq] at hheard
    subst hheard
    obtain ⟨hreason, hstale, hmade'⟩ := hfresh.doubted (firstReason made.observation after)
    have hsubject := made.doubted_observation (firstReason made.observation after)
    refine ⟨before, m, after, hmoments, hbefore, hmade.trans (congrArg some hmade'.symm), ?_, ?_⟩
    · rw [hsubject]
      exact hreason
    · rw [hstale, hsubject]
      exact firstReason_isSome_iff _ _

/-- Two observers that have seen nothing, on an empty store. -/
def pair : Crowd Bool where
  observers side := .new "/p" Thresholds.default .indexed none (if side then "right" else "left")
  store := .empty

/-- The left one looks a symbol up and sees it change twice at once. The right one reads the file for
the first time, and then sees the symbol go. -/
def pairRun : List (Encounter Bool) :=
  [⟨false, ⟨[], []⟩, .call ⟨"get_symbol", .obj [("file", .str "a.py"), ("symbol", .str "f")],
      .str "def f", false⟩ 0⟩,
    ⟨false, ⟨[], []⟩, .changes ⟨"a.py", false,
      [.of .sigChanged "f" .function none none, .of .sigChanged "f" .method none none]⟩ 1⟩,
    ⟨true, ⟨[], []⟩, .changes ⟨"a.py", true, [.of .sigChanged "f" .classLike none none]⟩ 2⟩,
    ⟨true, ⟨[], []⟩, .changes ⟨"a.py", false, [.of .removed "f" .method none none]⟩ 3⟩]

theorem stale_from_first_change_on_pair :
    pair.Ready ∧ ExactlyStale pair pairRun
      ∧ (pair.run pairRun).store.observations.map (fun row => (row.observation.text, row.staleReason))
        = [("function \x60f\x60 signature changed", some "method \x60f\x60 signature changed"),
          ("method \x60f\x60 signature changed", some "method \x60f\x60 removed")] := by
  have hready : pair.Ready := by
    intro side hbegun
    exact absurd hbegun Bool.false_ne_true
  exact ⟨hready, stale_from_first_change_on pair hready pairRun, by decide +kernel⟩

end CodeIndex
