import Mathlib
import CodeIndex.Project.Report
import CodeIndex.Proofs.Session.Reports

/-!
# Filters and limits

Observations are listed or searched for, those of a session or of all, with the stale ones or without
them, and not more than so many. A list is filtered first and limited then. A search is the other way
round: what the filter keeps of the first hits is shown, and what it takes away is not made up for by
later hits. So a search shows the beginning of what it should, and all of it only if the filter keeps all
of the first hits or none of the later ones.

Main results: `search_limited_before_filtered`, `kept_hit_past_limit_not_shown`.
-/

namespace CodeIndex

/-! ## §1. Limits. -/

section

variable {α : Type} (keep : α → Bool) (n limit : Nat) (rows : List α)

/-- Of the rows that are kept, the first ones are those among the first rows and some of the later. -/
theorem take_filter_eq :
    (rows.filter keep).take n = (rows.take n).filter keep
      ++ ((rows.drop n).filter keep).take (n - ((rows.take n).filter keep).length) := by
  have hlength : ((rows.take n).filter keep).length ≤ n :=
    (List.length_filter_le _ _).trans (List.length_take_le _ _)
  conv_lhs => rw [← List.take_append_drop n rows]
  rw [List.filter_append, List.take_append, List.take_of_length_le hlength]

theorem filter_take_eq_iff :
    (rows.take n).filter keep = (rows.filter keep).take n
      ↔ (∀ row ∈ rows.take n, keep row = true) ∨ ∀ row ∈ rows.drop n, keep row = false := by
  have hlength : (rows.take n).length ≤ n := List.length_take_le _ _
  rw [take_filter_eq, List.self_eq_append_right, List.take_eq_nil_iff, List.filter_eq_nil_iff]
  simp only [Bool.not_eq_true]
  constructor
  · rintro (hfull | hnone)
    · -- so many are kept that all of the first rows are
      refine .inl (List.length_filter_eq_length_iff.mp ?_)
      have hkept := List.length_filter_le keep (rows.take n)
      omega
    · exact .inr hnone
  · rintro (hall | hnone)
    · rw [List.filter_eq_self.mpr hall]
      by_cases hshort : rows.length ≤ n
      · exact .inr (by simp [List.drop_of_length_le hshort])
      · exact .inl (by rw [List.length_take_of_le (by omega), Nat.sub_self])
    · exact .inr hnone

/-- The rows past a limit. -/
def pastLimit : List α := if limit < signedEnd then rows.drop limit else []

theorem filter_takeLimit_prefix :
    (takeLimit limit rows).filter keep <+: takeLimit limit (rows.filter keep) := by
  unfold takeLimit
  split
  · rw [take_filter_eq]
    exact List.prefix_append _ _
  · exact List.prefix_rfl

/-- Nothing is lost by a limit before a filter if all of the first rows are kept, or none of the later. -/
theorem filter_takeLimit_eq_iff :
    (takeLimit limit rows).filter keep = takeLimit limit (rows.filter keep)
      ↔ (∀ row ∈ takeLimit limit rows, keep row = true) ∨ ∀ row ∈ pastLimit limit rows, keep row = false := by
  unfold pastLimit takeLimit
  split
  · exact filter_take_eq_iff keep limit rows
  · simp

end

/-! ## §2. Hits. -/

/-- Whether each phrase of a query stands in a row. A query without phrases finds nothing. -/
def Search.finds {α : Type} (columns : α → Columns) (openEnded : Bool) (query : String) (row : α) : Bool :=
  match (expression? openEnded query.toList).bind phrases? with
  | some (first :: more) => (first :: more).all fun p => 0 < p.count (columns row)
  | _ => false

/-- **The hits of a query** are the rows that it finds. -/
theorem Store.hits_perm {α : Type} (columns : α → Search.Columns) (openEnded : Bool) (query : String)
    (rows : List α) :
    (hits columns openEnded query rows).Perm (rows.filter (Search.finds columns openEnded query)) := by
  unfold hits Search.finds
  cases Search.expression? openEnded query.toList with
  | none => simp
  | some expression =>
    simp only [Option.bind_some]
    unfold Search.rank
    cases Search.phrases? expression with
    | none => simp
    | some phrases =>
      cases phrases with
      | nil => simp
      | cons first more =>
        -- the rows are counted, taken and scored, and then sorted
        refine ((List.mergeSort_perm _ _).map _).trans ?_
        simp only [List.map_map, List.filter_map, List.all_map, Function.comp_def, List.map_id']
        rfl

/-! ## §3. What is shown. -/

namespace ObservationRow

/-- Whether an observation comes before another when the latest come first. Of those made at the same time
the one with the greater number does. -/
def isLatest (o other : ObservationRow) : Bool :=
  other.time < o.time || (o.time == other.time && other.id ≤ o.id)

theorem isLatest_iff {o other : ObservationRow} :
    o.isLatest other = true ↔ other.time < o.time ∨ o.time = other.time ∧ other.id ≤ o.id := by
  simp [isLatest]

theorem isLatest_trans (a b c : ObservationRow) (hab : a.isLatest b = true) (hbc : b.isLatest c = true) :
    a.isLatest c = true := by
  rw [isLatest_iff] at *
  rcases hab with hab | ⟨hab, hid⟩ <;> rcases hbc with hbc | ⟨hbc, hid'⟩
  · exact .inl (hbc.trans hab)
  · exact .inl (hbc ▸ hab)
  · exact .inl (hab ▸ hbc)
  · exact .inr ⟨hab.trans hbc, hid'.trans hid⟩

theorem isLatest_total (a b : ObservationRow) : (a.isLatest b || b.isLatest a) = true := by
  rw [Bool.or_eq_true, isLatest_iff, isLatest_iff]
  rcases lt_trichotomy a.time b.time with h | h | h
  · exact .inr (.inl h)
  · rcases le_total a.id b.id with hid | hid
    · exact .inr (.inr ⟨h.symm, hid⟩)
    · exact .inl (.inr ⟨h, hid⟩)
  · exact .inl (.inl h)

end ObservationRow

namespace Project

variable (s : Store) (f : ObservationFilter)

/-- Whether a filter keeps an observation. -/
def ObservationFilter.keeps (f : ObservationFilter) (o : ObservationRow) : Bool :=
  (f.includeStale || !o.stale) && f.session.all (o.sessionId == ·)

/-- A list shows the latest of the observations that the filter keeps. -/
def ListShown (shown : List ObservationRow) : Prop :=
  ∃ kept : List ObservationRow, kept.Perm (s.observations.filter f.keeps)
    ∧ kept.Pairwise (fun o other => o.isLatest other = true) ∧ shown = takeLimit f.limit kept

theorem listShown : ListShown s f (s.listObservations f.session f.includeStale f.limit) := by
  have hkeeps : f.keeps = fun o => f.session.all (o.sessionId == ·) && (f.includeStale || !o.stale) := by
    funext o
    exact Bool.and_comm _ _
  refine ⟨(s.observations.filter f.keeps).mergeSort ObservationRow.isLatest, List.mergeSort_perm _ _,
    List.pairwise_mergeSort ObservationRow.isLatest_trans ObservationRow.isLatest_total _, ?_⟩
  rw [hkeeps]
  rfl

/-- The observations that a query finds, best first. -/
def found (query : String) : List ObservationRow :=
  Store.hits Store.observationColumns false query s.observations

/-- The first of the observations that a query finds and the filter keeps. -/
def due (query : String) : List ObservationRow := takeLimit f.limit ((found s query).filter f.keeps)

/-- A search shows the beginning of what is due. -/
structure SearchShown (query : String) (shown : List ObservationRow) : Prop where
  /-- An observation is found if each phrase of the query stands in it. -/
  found : (found s query).Perm (s.observations.filter (Search.finds Store.observationColumns false query))
  mem_iff : ∀ o, o ∈ shown ↔ o ∈ takeLimit f.limit (Project.found s query) ∧ f.keeps o = true
  begins : shown <+: due s f query
  /-- All of it is shown if the filter keeps all of the first ones or none of the later ones. -/
  all_iff : shown = due s f query ↔ (∀ o ∈ takeLimit f.limit (Project.found s query), f.keeps o = true)
    ∨ ∀ o ∈ pastLimit f.limit (Project.found s query), f.keeps o = false
  /-- Nothing is shown if the filter keeps none of the first ones. -/
  nothing_iff : shown = [] ↔ ∀ o ∈ takeLimit f.limit (Project.found s query), f.keeps o = false

theorem searchShown (query : String) :
    SearchShown s f query ((s.searchObservations query f.limit).filter f.keeps) where
  found := Store.hits_perm _ _ _ _
  mem_iff o := List.mem_filter
  begins := filter_takeLimit_prefix _ _ _
  all_iff := filter_takeLimit_eq_iff _ _ _
  nothing_iff := by
    rw [List.filter_eq_nil_iff]
    simp only [Bool.not_eq_true]
    rfl

/-- An answer is about the store as it is. -/
theorem ask_eq {α : Type} (p : Project) (question : Store → α) :
    p.ask question = p.ask fun _ => question p.store := by
  unfold ask
  rfl

/-- **A search is limited before it is filtered.** Whatever is in the store: a list shows the latest
observations that its filter keeps, as many as the limit says. A search shows what the filter keeps of
the first hits, which are the beginning of what is due: all of it if the filter keeps all of these hits or
none of the later ones, and less if not. -/
theorem search_limited_before_filtered (p : Project) (f : ObservationFilter) (query : String) :
    ∃ listed shown,
      p.observations { f with query := none } = p.ask (fun _ => listed) ∧ ListShown p.store f listed
      ∧ p.observations { f with query := some query } = p.ask (fun _ => shown)
      ∧ SearchShown p.store f query shown := by
  refine ⟨_, _, ?_, listShown p.store f, ?_, searchShown p.store f query⟩
  · exact p.ask_eq fun s => s.listObservations f.session f.includeStale f.limit
  · exact p.ask_eq fun s => (s.searchObservations query f.limit).filter f.keeps

/-- A tool has failed for two observers. -/
def bothFailed : Store :=
  let failed : Bool → Encounter Bool := fun side =>
    ⟨side, ⟨[], []⟩, .call ⟨"run_tests", .obj [], .str "timeout", true⟩ 0⟩
  ((Crowd.leftAndRight { Thresholds.default with toolError := 1 }).run [failed false, failed true]).store

/-- A project with their observations. -/
def bothFailedProject : Project :=
  ⟨⟨"/p", .default, ⟨[], [], []⟩⟩, bothFailed, .new "/p" .default .indexed none "another", .sound, false⟩

/-- What was observed for one of them. -/
def failureNote (id : RowId) (session : String) : ObservationRow :=
  ⟨id, session, ⟨.environment, none, none, "run_tests failed 1 times"⟩, false, none, 0⟩

/-- What is to be found of one of them. -/
def shownOf (session : String) (query : Option String) : ObservationFilter := ⟨some session, true, query, 1⟩

/-- **An observation that the filter keeps is not shown** when another one is found first: of two sessions
with the same observation, a search with a limit of one shows nothing of one of them. A list shows it. -/
theorem kept_hit_past_limit_not_shown :
    ∃ session ∈ ["left", "right"],
      bothFailedProject.observations (shownOf session (some "run_tests")) = .ok []
        ∧ (due bothFailed (shownOf session none) "run_tests").map (·.sessionId) = [session]
        ∧ (bothFailedProject.observations (shownOf session none)).toOption.map (·.map (·.sessionId))
          = some [session] := by
  have hrows : bothFailed.observations = [failureNote 1 "left", failureNote 2 "right"] := by decide +kernel
  have hfinds : bothFailed.observations.filter (Search.finds Store.observationColumns false "run_tests")
      = bothFailed.observations := by decide +kernel
  -- the two are found with the same score, and which comes first does not matter
  have hfound : (found bothFailed "run_tests").Perm [failureNote 1 "left", failureNote 2 "right"] :=
    hrows ▸ hfinds ▸ Store.hits_perm Store.observationColumns false "run_tests" bothFailed.observations
  have hshown : ∀ session, bothFailedProject.observations (shownOf session (some "run_tests"))
      = .ok ((takeLimit 1 (found bothFailed "run_tests")).filter (shownOf session none).keeps) :=
    fun _ => rfl
  rcases List.perm_pair.mp hfound with hfirst | hfirst
  · refine ⟨"right", by simp, ?_, ?_, by decide +kernel⟩
    · rw [hshown, hfirst]
      rfl
    · rw [due, hfirst]
      rfl
  · refine ⟨"left", by simp, ?_, ?_, by decide +kernel⟩
    · rw [hshown, hfirst]
      rfl
    · rw [due, hfirst]
      rfl

end Project

end CodeIndex
