import Mathlib
import CodeIndex.Proofs.Session.Reports

/-!
# Failed searches

A search that finds nothing is counted by its query, and the time that makes it too often is reported.
What a search asks and that it found nothing is read from the values that the call was made of. §1 says
what is read, as relations between a value and what it gives, which the functions decide.

Main result: `failed_searches_exact`.
-/

namespace CodeIndex

/-! ## §1. What a search asks and finds. -/

/-- A value has a text under a name, which is this one without blanks around it, and not blank. -/
def Gives (v : Json) (name text : String) : Prop :=
  ∃ s, v.member? name = some (.str s) ∧ Text.trim s.toList = text.toList ∧ text ≠ ""

/-- The text under the first of the names that has one. -/
def FirstText (names : List String) (v : Json) (text : String) : Prop :=
  ∃ before name after, names = before ++ name :: after ∧ Gives v name text
    ∧ ∀ earlier ∈ before, ∀ other, ¬Gives v earlier other

/-- A value that holds nothing of what was looked for. -/
inductive HoldsNothing : Json → Prop where
  | absent : HoldsNothing .null
  | blank {s : String} (h : ∀ c ∈ s.toList, Text.isBlank c = true) : HoldsNothing (.str s)
  | noItems : HoldsNothing (.arr [])
  | noMembers : HoldsNothing (.obj [])
  /-- Of the members that are for what was found, there are some, and all hold nothing. -/
  | noneFound {members : List (String × Json)} (named : ∃ m ∈ members, m.1 ∈ ToolCall.listNames)
      (nothing : ∀ m ∈ members, m.1 ∈ ToolCall.listNames → HoldsNothing m.2) :
      HoldsNothing (.obj members)

mutual

theorem isVoid_iff : ∀ v : Json, ToolCall.isVoid v = true ↔ HoldsNothing v
  | .null => by simp [ToolCall.isVoid, HoldsNothing.absent]
  | .bool _ => by
    simp only [ToolCall.isVoid, Bool.false_eq_true, false_iff]
    rintro ⟨⟩
  | .num _ => by
    simp only [ToolCall.isVoid, Bool.false_eq_true, false_iff]
    rintro ⟨⟩
  | .str s => by
    simp only [ToolCall.isVoid, Text.allBlank, List.all_eq_true]
    exact ⟨.blank, fun | .blank h => h⟩
  | .arr items => by
    simp only [ToolCall.isVoid, List.isEmpty_iff]
    exact ⟨fun h => h ▸ .noItems, fun | .noItems => rfl⟩
  | .obj members => by
    have hmembers := allVoid_iff members
    unfold ToolCall.isVoid
    by_cases hnamed : ∃ m ∈ members, m.1 ∈ ToolCall.listNames
    · rw [if_pos (by simpa using hnamed), hmembers]
      refine ⟨.noneFound hnamed, fun h => ?_⟩
      cases h with
      | noMembers => simp
      | noneFound named nothing => exact nothing
    · rw [if_neg (by simpa using hnamed), List.isEmpty_iff]
      refine ⟨fun h => h ▸ .noMembers, fun h => ?_⟩
      cases h with
      | noMembers => rfl
      | noneFound named nothing => exact absurd named hnamed

theorem allVoid_iff : ∀ members : List (String × Json), ToolCall.allVoid members = true
    ↔ ∀ m ∈ members, m.1 ∈ ToolCall.listNames → HoldsNothing m.2
  | [] => by simp [ToolCall.allVoid]
  | (name, v) :: rest => by
    have hv := isVoid_iff v
    have hrest := allVoid_iff rest
    rw [ToolCall.allVoid, Bool.and_eq_true, hrest, List.forall_mem_cons, Bool.or_eq_true, hv,
      imp_iff_not_or]
    simp

end

/-- What is read under one name. -/
def trimmed? (v : Json) (name : String) : Option String :=
  match (v.member? name).bind Json.asStr? with
  | some s => if (Text.trim s.toList).isEmpty then none else some (String.ofList (Text.trim s.toList))
  | none => none

theorem trimmed?_eq_some_iff {v : Json} {name text : String} :
    trimmed? v name = some text ↔ Gives v name text := by
  have htext : ∀ s : String, (if (Text.trim s.toList).isEmpty then none
        else some (String.ofList (Text.trim s.toList))) = some text
      ↔ Text.trim s.toList = text.toList ∧ text ≠ "" := by
    intro s
    generalize Text.trim s.toList = trimmed
    have hblank : trimmed.isEmpty = true ↔ trimmed = [] := List.isEmpty_iff
    constructor
    · intro h
      split at h
      · simp at h
      next hne =>
        rw [Option.some.injEq] at h
        subst h
        rw [hblank] at hne
        exact ⟨String.toList_ofList.symm, by simpa using hne⟩
    · rintro ⟨rfl, hne⟩
      rw [if_neg (by simpa using hne), String.ofList_toList]
  unfold trimmed? Gives
  cases v.member? name with
  | none => simp
  | some given =>
    cases given with
    | str s => simpa [Json.asStr?] using htext s
    | null | bool _ | num _ | arr _ | obj _ => simp [Json.asStr?]

theorem textAt?_eq_some_iff {names : List String} {v : Json} {text : String} :
    ToolCall.textAt? names v = some text ↔ FirstText names v text := by
  have hfirst : ToolCall.textAt? names v = names.findSome? (trimmed? v) := rfl
  unfold FirstText
  simp only [hfirst, List.findSome?_eq_some_iff, trimmed?_eq_some_iff, Option.eq_none_iff_forall_ne_some,
    ne_eq]

/-- A call that is a search for a query and finds nothing. -/
structure ToolCall.FailsFor (query : String) (call : ToolCall) : Prop where
  succeeds : call.isError = false
  searches : call.kind = .search
  asks : FirstText ["query", "q"] call.args query
  finds : HoldsNothing call.result

theorem ToolCall.countedAs?_failedSearch {root query : String} {call : ToolCall} :
    call.countedAs? root = some (.failedSearch query) ↔ call.FailsFor query := by
  have hasks : call.queryArg? = some query ↔ FirstText ["query", "q"] call.args query :=
    textAt?_eq_some_iff
  have hfinds : call.foundNothing = true ↔ HoldsNothing call.result := isVoid_iff call.result
  have hread : call.countedAs? root = some (.failedSearch query) ↔ call.isError = false
      ∧ call.kind = .search ∧ call.queryArg? = some query ∧ call.foundNothing = true := by
    unfold countedAs?
    cases call.isError with
    | true => simp
    | false =>
      cases call.kind with
      | lookup => cases call.foundNothing <;> simp
      | search => cases call.foundNothing <;> simp
      | other => simp
  rw [hread, hasks, hfinds]
  exact ⟨fun ⟨succeeds, searches, asks, finds⟩ => ⟨succeeds, searches, asks, finds⟩,
    fun h => ⟨h.succeeds, h.searches, h.asks, h.finds⟩⟩

instance (query : String) (call : ToolCall) : Decidable (call.FailsFor query) :=
  decidable_of_iff (call.countedAs? "" = some (.failedSearch query)) ToolCall.countedAs?_failedSearch

/-! ## §2. Counts and reports. -/

/-- The reports of different queries are different. -/
theorem PatternReport.failedSearch_other {query other : String} (h : other ≠ query) (n : Nat)
    (now : Time) :
    ofQuery query ((PatternReport.failedSearch other n).event, now) = false
      ∧ (PatternReport.failedSearch other n).observation
        ≠ (PatternReport.failedSearch query n).observation := by
  refine ⟨?_, fun hsame => h ?_⟩
  · simpa [ofQuery, PatternReport.failedSearch, Store.queryText?, Json.member?] using h
  · have htext := congrArg (fun o => o.text.toList) hsame
    exact String.toList_injective (by simpa [PatternReport.failedSearch] using htext)

theorem PatternReport.failedSearch_own (query : String) (n : Nat) (now : Time) :
    ofQuery query ((PatternReport.failedSearch query n).event, now) = true := by
  simp [ofQuery, PatternReport.failedSearch, Store.queryText?, Json.member?]

theorem Tally.failedSearchCount_recordFailedSearch (tally : Tally) (query other : String) :
    (tally.recordFailedSearch other).failedSearchCount query
      = tally.failedSearchCount query + if query = other then 1 else 0 :=
  Counts.get_bump _ _ _

/-- Of a query that was searched for in vain so many times: the times are counted, up to the turn of the
counter, and the query is reported once if there are enough. -/
structure FailedSearchExact (n : UInt32) (attempts : Nat) (is : Standing) (query : String) : Prop where
  counted : is.tally.failedSearchCount query = UInt32.ofNat attempts
  reported : n.toNat ≤ attempts → ∃ time, is.Made (ofQuery query) (.failedSearch query n) [time]
  quiet : attempts < n.toNat → is.Made (ofQuery query) (.failedSearch query n) []

namespace FailedSearchExact

variable {n : UInt32} {attempts : Nat} {was : Standing} {query : String} {tally : Tally} {events : List NewEvent}
  {observations : List NewObservation} {reports : List PatternReport} {now : Time}

/-- Entries and reports that are about something else do not matter. -/
theorem kept (h : FailedSearchExact n attempts was query)
    (hcount : tally.failedSearchCount query = was.tally.failedSearchCount query)
    (hevents : ∀ e ∈ events, e.type ≠ .failedSearch)
    (hobservations : ∀ o ∈ observations, o ≠ (PatternReport.failedSearch query n).observation)
    (hreports : ∀ r ∈ reports, ofQuery query (r.event, now) = false
      ∧ r.observation ≠ (PatternReport.failedSearch query n).observation) :
    FailedSearchExact n attempts (was.after tally events observations reports now) query := by
  have hothers : ∀ e ∈ events, ofQuery query (e, now) = false :=
    fun e he => by simp [ofQuery, hevents e he]
  refine ⟨hcount.trans h.counted, fun hmany => ?_, fun hfew => ?_⟩
  · obtain ⟨time, hmade⟩ := h.reported hmany
    exact ⟨time, hmade.kept hothers hobservations hreports⟩
  · exact (h.quiet hfew).kept hothers hobservations hreports

/-- **The query is searched for in vain once more.** -/
theorem again {t : Thresholds} (h : FailedSearchExact t.failedSearch attempts was query) :
    FailedSearchExact t.failedSearch (attempts + 1) (was.after (was.tally.recordFailedSearch query) [] []
      (failedSearchReports t was.events query
        ((was.tally.recordFailedSearch query).failedSearchCount query)) now) query := by
  have hcount : (was.tally.recordFailedSearch query).failedSearchCount query
      = UInt32.ofNat (attempts + 1) := by
    rw [Tally.failedSearchCount_recordFailedSearch, if_pos rfl, h.counted, UInt32.ofNat_add]
    rfl
  have hbound := t.failedSearch.toNat_lt
  have hreports : failedSearchReports t was.events query (UInt32.ofNat (attempts + 1))
      = if attempts + 1 = t.failedSearch.toNat then [.failedSearch query t.failedSearch] else [] := by
    unfold failedSearchReports
    by_cases hmany : t.failedSearch.toNat ≤ attempts
    · -- when the counter comes round again, the query has been reported
      obtain ⟨time, hmade⟩ := h.reported hmany
      rw [if_neg fun hboth => by simp [hmade.any_events] at hboth, if_neg (by omega)]
    · have hnone := (h.quiet (by omega)).any_events
      have hreached : UInt32.ofNat (attempts + 1) = t.failedSearch
          ↔ attempts + 1 = t.failedSearch.toNat := by
        rw [UInt32.ofNat_eq_iff_mod_eq_toNat]
        omega
      by_cases hnow : attempts + 1 = t.failedSearch.toNat
      · rw [if_pos ⟨hreached.mpr hnow, hnone⟩, if_pos hnow, hreached.mpr hnow]
      · rw [if_neg fun hboth => hnow (hreached.mp hboth.1), if_neg hnow]
  rw [hcount, hreports]
  by_cases hnow : attempts + 1 = t.failedSearch.toNat
  · -- this is the time that makes it enough
    rw [if_pos hnow]
    refine ⟨hcount, fun _ => ⟨now, ?_⟩, fun hfew => absurd hfew (by omega)⟩
    exact (h.quiet (by omega)).again (by simp) (by simp) (PatternReport.failedSearch_own query _ now)
  · rw [if_neg hnow]
    refine ⟨hcount, fun hmany => ?_, fun hfew => ?_⟩
    · obtain ⟨time, hmade⟩ := h.reported (by omega)
      exact ⟨time, hmade.kept (by simp) (by simp) (by simp)⟩
    · exact (h.quiet (by omega)).kept (by simp) (by simp) (by simp)

end FailedSearchExact

/-- A moment is a search for a query that finds nothing. -/
def Observer.Moment.failsFor (query : String) : Observer.Moment → Bool
  | .call _ made _ => decide (made.FailsFor query)
  | .change _ _ _ => false
  | .closes _ _ => false

/-- **One moment.** -/
theorem FailedSearchExact.lives {root query : String} {t : Thresholds} {past : List Observer.Moment}
    {m : Observer.Moment} {was is : Standing}
    (h : FailedSearchExact t.failedSearch (past.countP (·.failsFor query)) was query)
    (hlives : Lives root t was m is) :
    FailedSearchExact t.failedSearch ((past ++ [m]).countP (·.failsFor query)) is query := by
  rw [List.countP_append, List.countP_singleton]
  -- a call that is not counted as a failed search is none
  have hnone : ∀ {d : Disk} {call : ToolCall} {now : Time},
      call.countedAs? root ≠ some (.failedSearch query) →
      past.countP (·.failsFor query)
          + (if (Observer.Moment.call d call now).failsFor query = true then 1 else 0)
        = past.countP (·.failsFor query) := by
    intro d call now hcounted
    rw [ne_eq, ToolCall.countedAs?_failedSearch] at hcounted
    simp [Observer.Moment.failsFor, hcounted]
  cases hlives with
  | uncounted counted spot =>
    rw [hnone (by simp [counted])]
    exact h.kept rfl (fun e he => by simp [spot e he]) (by simp) (by simp)
  | access counted =>
    rw [hnone (by simp [counted])]
    refine h.kept rfl (by simp) (by simp) fun r hr => ?_
    rw [mem_redundantReports hr]
    simp [ofQuery, PatternReport.redundantAccess, PatternReport.failedSearch]
  | @failedSearch d call now other counted =>
    by_cases hsame : other = query
    · subst hsame
      have hfails : (Observer.Moment.call d call now).failsFor other = true :=
        decide_eq_true (ToolCall.countedAs?_failedSearch.mp counted)
      rw [if_pos hfails]
      exact h.again
    · rw [hnone (by simpa [counted] using hsame)]
      refine h.kept ?_ (by simp) (by simp) fun r hr => ?_
      · rw [Tally.failedSearchCount_recordFailedSearch, if_neg (Ne.symm hsame), UInt32.add_zero]
      · rw [mem_failedSearchReports hr]
        exact PatternReport.failedSearch_other hsame _ _
  | failure details counted =>
    rw [hnone (by simp [counted])]
    exact h.kept rfl (by simp) (failingNotes_ne rfl) (by simp)
  | @change path c now =>
    refine h.kept rfl ?_ (changeNotes_ne rfl) ?_
    · cases c.kind <;> simp [ChangeKind.eventType]
    · intro r hr
      rw [(mem_changeReports hr).2]
      simp [ofQuery, PatternReport.deadEnd, PatternReport.failedSearch]
  | closes =>
    refine h.kept rfl (by simp) (by simp) fun r hr => ?_
    obtain ⟨count, rfl⟩ := mem_thrashReports hr
    simp [ofQuery, PatternReport.thrash, PatternReport.failedSearch]
  | unbegun => exact h.kept rfl (by simp) (by simp) (by simp)

/-! ## §3. Runs. -/

/-- One of the observers makes a search for a query that finds nothing. -/
def Encounter.failsFor {ι : Type} [DecidableEq ι] (i : ι) (query : String) (e : Encounter ι) : Bool :=
  match e.sight with
  | .call call _ => decide (e.who = i ∧ call.FailsFor query)
  | .changes _ _ => false

/-- The failed searches of an observer in a run are those among its moments. -/
theorem countP_own_moments {ι : Type} [DecidableEq ι] (i : ι) (query : String)
    (encounters : List (Encounter ι)) :
    (Crowd.own i (encounters.flatMap Encounter.moments)).countP (·.failsFor query)
      = encounters.countP (·.failsFor i query) := by
  -- only calls are failed searches
  have hcalls : Observer.Moment.failsFor query = fun m => m.failsFor query && m.isCall := by
    funext m
    cases m <;> simp [Observer.Moment.isCall, Observer.Moment.failsFor]
  rw [hcalls, ← List.countP_filter, Crowd.own_calls, List.countP_filterMap]
  refine List.countP_congr fun e _ => ?_
  unfold Encounter.call? Encounter.failsFor
  cases e.sight with
  | call call now => by_cases hwho : e.who = i <;> simp [hwho, Observer.Moment.failsFor]
  | changes diff now => simp

/-- **Failed searches are told by the calls.** Observers of different sessions share a store, and see
calls and changes of files in any order. An observer that has counted nothing yet, and whose session the
store did not know, has counted its searches for a query that found nothing, and has reported the query,
by one event and one observation of one time, exactly if there were enough of them. The count starts anew
after the greatest 32 bit number, and nothing is reported again for that. -/
theorem failed_searches_exact {ι : Type} [DecidableEq ι] (w : Crowd ι) (hready : w.Ready)
    (hstore : w.store.Intact) (hsessions : Function.Injective fun j => (w.observers j).session)
    (i : ι) (hunknown : w.store.hasSession (w.observers i).session = false)
    (htally : (w.observers i).tally = .empty) (hn : 1 ≤ (w.observers i).thresholds.failedSearch)
    (encounters : List (Encounter ι)) (query : String) :
    FailedSearchExact (w.observers i).thresholds.failedSearch
      (encounters.countP (·.failsFor i query)) ((w.run encounters).standing i) query := by
  rw [← countP_own_moments]
  refine Crowd.run_standing (P := fun past is => FailedSearchExact (w.observers i).thresholds.failedSearch
    (past.countP (·.failsFor query)) is query) hready hstore hsessions i hunknown ?_ ?_ encounters
  · intro past was m is hlives h
    exact h.lives hlives
  · -- nothing has been searched for
    refine ⟨by rw [htally]; rfl, fun hmany => ?_, fun _ => ⟨rfl, rfl⟩⟩
    exact absurd (hmany.trans_eq List.countP_nil) (Nat.not_le_of_lt (UInt32.le_iff_toNat_le.mp hn))

/-- Two observers on an empty store that take two searches for the same in vain for too many. -/
def searchers : Crowd Bool := .leftAndRight { Thresholds.default with failedSearch := 2 }

/-- One of them searches. -/
def asking (side : Bool) (args : List (String × Json)) (result : Json) (isError : Bool) (now : Time) :
    Encounter Bool :=
  ⟨side, ⟨[], []⟩, .call ⟨"search", .obj args, result, isError⟩ now⟩

/-- The left one searches for the same three times in vain, giving it in two ways. Another such search
fails, one is for something else, and one is made by the right one. -/
def searchersRun : List (Encounter Bool) :=
  [asking false [("query", .str "f")] (.arr []) false 0,
    asking true [("query", .str "f")] (.arr []) false 1,
    asking false [("query", .str "f")] (.arr []) true 2,
    asking false [("query", .str " "), ("q", .str " f ")] (.obj [("results", .arr [])]) false 3,
    asking false [("query", .str "g")] .null false 4,
    asking false [("query", .str "f")] .null false 5]

theorem failed_searches_exact_of_searchers :
    (searchers.Ready ∧ Function.Injective (fun side => (searchers.observers side).session)
      ∧ searchers.store.hasSession (searchers.observers false).session = false
      ∧ (searchers.observers false).tally.failedSearches = []
      ∧ 1 ≤ (searchers.observers false).thresholds.failedSearch)
    ∧ (∀ query, FailedSearchExact 2 (searchersRun.countP (·.failsFor false query))
        ((searchers.run searchersRun).standing false) query)
    ∧ searchersRun.countP (·.failsFor false "f") = 3
    ∧ ((searchers.run searchersRun).standing false).events.map (fun e => (e.1.type, e.2))
      = [(.toolError, 2), (.failedSearch, 3)]
    ∧ ((searchers.run searchersRun).standing true).events.length = 0 := by
  have hready : searchers.Ready := Crowd.leftAndRight_ready _
  have hsessions := Crowd.leftAndRight_sessions { Thresholds.default with failedSearch := 2 }
  refine ⟨⟨hready, hsessions, by decide, rfl, by decide⟩, fun query => ?_, by decide +kernel,
    by decide +kernel, by decide +kernel⟩
  exact failed_searches_exact searchers hready Store.intact_empty hsessions false (by decide) rfl
    (by decide) searchersRun query

end CodeIndex
