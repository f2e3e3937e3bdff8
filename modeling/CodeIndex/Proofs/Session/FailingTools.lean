import Mathlib
import CodeIndex.Proofs.Session.Reports

/-!
# Tools that keep failing

A failure is counted by its tool and its file, and a failure without a file as one on the file with the
empty key. That key is the root of the project, and tools do fail on the root: then both are counted
together, and the failure that makes it too many is observed of its own file only. All other files are
counted alone.

Main results: `tool_failures_by_key`, `rootless_failures_counted_together`.
-/

namespace CodeIndex

/-! ## §1. Failures in a run. -/

/-- A tool has failed, on a file or without one. -/
structure ToolFailure where
  tool : String
  file : Option String
  time : Time

namespace ToolFailure

/-- A failure of exactly this tool, on exactly this file. -/
def isOf (tool : String) (file : Option String) (f : ToolFailure) : Bool :=
  f.tool == tool && f.file == file

/-- A failure that is counted together with those of a tool on a file. -/
def countsFor (tool : String) (file : Option String) (f : ToolFailure) : Bool :=
  f.tool == tool && f.file.getD "" == file.getD ""

theorem countsFor_of_isOf {tool : String} {file : Option String} {f : ToolFailure}
    (h : f.isOf tool file = true) : f.countsFor tool file = true := by
  simp only [isOf, Bool.and_eq_true, beq_iff_eq] at h
  simp [countsFor, h]

/-- What is observed when a failure makes it too many. -/
def note (n : Nat) (f : ToolFailure) : NewObservation × Time :=
  (⟨.environment, f.file, none, toolErrorText f.tool f.file n⟩, f.time)

end ToolFailure

/-- The failure that a call is, in the project at a root. -/
def ToolCall.failure? (root : String) (call : ToolCall) (now : Time) : Option ToolFailure :=
  if call.isError then some ⟨call.tool, call.targetFile?.map (Path.relative root), now⟩ else none

/-- The failure that a moment is. -/
def Observer.Moment.failure? (root : String) : Observer.Moment → Option ToolFailure
  | .call _ made now => made.failure? root now
  | .change _ _ _ => none
  | .closes _ _ => none

/-- The failure that one of the observers sees. -/
def Encounter.failure? {ι : Type} [DecidableEq ι] (i : ι) (root : String) (e : Encounter ι) :
    Option ToolFailure :=
  match e.sight with
  | .call made now => if e.who = i then made.failure? root now else none
  | .changes _ _ => none

/-- The first failure of exactly this tool, on exactly this file, with which the count of those that are
counted for them is `n`. -/
def reached? (n : UInt32) (failures : List ToolFailure) (tool : String) (file : Option String) :
    Option ToolFailure :=
  ((failures.filter (·.countsFor tool file)).zipIdx.find? fun (f, i) =>
    f.isOf tool file && UInt32.ofNat (i + 1) == n).map (·.1)

section

variable {n : UInt32} {failures : List ToolFailure} {f : ToolFailure} {tool : String}
  {file : Option String}

/-- A failure that is not counted does not matter. -/
theorem reached?_uncounted (h : f.countsFor tool file = false) :
    reached? n (failures ++ [f]) tool file = reached? n failures tool file := by
  unfold reached?
  rw [List.filter_append, List.filter_cons_of_neg (by simp [h]), List.filter_nil, List.append_nil]

/-- A failure that is counted is the first one, unless there was one before. -/
theorem reached?_counted (h : f.countsFor tool file = true) :
    reached? n (failures ++ [f]) tool file
      = (reached? n failures tool file).or
        (if f.isOf tool file && UInt32.ofNat (failures.countP (·.countsFor tool file) + 1) == n then some f
        else none) := by
  unfold reached?
  rw [List.filter_append, List.filter_cons_of_pos h, List.filter_nil, List.countP_eq_length_filter,
    List.zipIdx_append, List.find?_append]
  cases hbefore : (failures.filter (·.countsFor tool file)).zipIdx.find? fun (f, i) =>
      f.isOf tool file && UInt32.ofNat (i + 1) == n with
  | some x => rfl
  | none =>
    simp only [Option.none_or, Option.map_none, Nat.zero_add, List.zipIdx_singleton,
      List.find?_singleton]
    split <;> rfl

/-- Before there are as many, there is none. -/
theorem reached?_eq_none (h : failures.countP (·.countsFor tool file) < n.toNat) :
    reached? n failures tool file = none := by
  rw [List.countP_eq_length_filter] at h
  have hbound := n.toNat_lt
  rw [reached?, Option.map_eq_none_iff, List.find?_eq_none]
  rintro ⟨f, i⟩ hmem
  have hi := (List.mem_zipIdx' hmem).1
  rw [Bool.and_eq_true, beq_iff_eq, UInt32.ofNat_eq_iff_mod_eq_toNat]
  omega

/-- Where all that are counted are of the tool and the file, and there are as many, there is one. -/
theorem exists_reached? (hn : 1 ≤ n.toNat)
    (hown : ∀ f ∈ failures, f.countsFor tool file = true → f.isOf tool file = true)
    (h : n.toNat ≤ failures.countP (·.countsFor tool file)) :
    ∃ f ∈ failures, f.isOf tool file = true ∧ reached? n failures tool file = some f := by
  rw [List.countP_eq_length_filter] at h
  have hlt : n.toNat - 1 < (failures.filter (·.countsFor tool file)).length := by omega
  have hof : ∀ f ∈ failures.filter (·.countsFor tool file), f.isOf tool file = true := by
    intro f hf
    rw [List.mem_filter] at hf
    exact hown f hf.1 hf.2
  obtain ⟨⟨f, i⟩, hfound⟩ : ∃ x, (failures.filter (·.countsFor tool file)).zipIdx.find? (fun (f, i) =>
      f.isOf tool file && UInt32.ofNat (i + 1) == n) = some x := by
    rw [← Option.isSome_iff_exists, List.find?_isSome]
    refine ⟨(_, n.toNat - 1), List.mem_zipIdx_iff_getElem?.mpr (List.getElem?_eq_getElem hlt), ?_⟩
    simp [hof _ (List.getElem_mem hlt), Nat.sub_add_cancel hn]
  have hmem := List.fst_mem_of_mem_zipIdx (List.mem_of_find?_eq_some hfound)
  exact ⟨f, (List.mem_filter.mp hmem).1, hof f hmem, by rw [reached?, hfound]; rfl⟩

end

/-! ## §2. Counts and observations. -/

/-- The text of what is observed tells the tool. -/
theorem toolErrorText_injective {tool other : String} {file : Option String} {n : Nat}
    (h : toolErrorText tool file n = toolErrorText other file n) : tool = other := by
  have hlists := congrArg String.toList h
  simp only [toolErrorText, String.toList_append, List.append_assoc, List.append_cancel_right_eq]
    at hlists
  exact String.toList_injective hlists

/-- What is observed of a failure is about its tool and its file only. -/
theorem ofTool_note {t : Thresholds} (f : ToolFailure) (tool : String) (file : Option String) :
    ofTool t tool file (f.note t.toolError) = f.isOf tool file := by
  rw [Bool.eq_iff_iff]
  simp only [ofTool, ToolFailure.note, ToolFailure.isOf, Bool.and_eq_true, beq_iff_eq, true_and]
  constructor
  · rintro ⟨rfl, htext⟩
    exact ⟨toolErrorText_injective htext, rfl⟩
  · rintro ⟨rfl, rfl⟩
    exact ⟨rfl, rfl⟩

theorem Tally.toolErrorCount_recordToolError (tally : Tally) (tool file other path : String) :
    (tally.recordToolError other path).toolErrorCount tool file
      = tally.toolErrorCount tool file + if (tool, file) = (other, path) then 1 else 0 :=
  Counts.get_bump _ _ _

/-- The failures of a tool on a file are counted with those that share the count, up to the turn of the
counter, and of those of this tool on this file that make it `n` the first is observed. -/
structure FailuresExact (t : Thresholds) (failures : List ToolFailure) (is : Standing) (tool : String)
    (file : Option String) : Prop where
  counted : is.tally.toolErrorCount tool (file.getD "")
    = UInt32.ofNat (failures.countP (·.countsFor tool file))
  observed : is.observations.filter (ofTool t tool file)
    = (reached? t.toolError failures tool file).toList.map (·.note t.toolError)

namespace FailuresExact

variable {t : Thresholds} {failures : List ToolFailure} {was : Standing} {tool : String}
  {file : Option String} {tally : Tally} {events : List NewEvent} {observations : List NewObservation}
  {reports : List PatternReport} {now : Time}

/-- Entries and reports that say nothing of the surroundings do not matter. -/
theorem kept (h : FailuresExact t failures was tool file)
    (hcount : tally.toolErrorCount tool (file.getD "") = was.tally.toolErrorCount tool (file.getD ""))
    (hobservations : ∀ o ∈ observations, o.type ≠ .environment)
    (hreports : ∀ r ∈ reports, r.observation.type ≠ .environment) :
    FailuresExact t failures (was.after tally events observations reports now) tool file := by
  have hnone : ((observations ++ reports.map (·.observation)).map (·, now)).filter (ofTool t tool file)
      = [] := by
    rw [List.filter_eq_nil_iff]
    intro o ho
    simp only [List.mem_map, List.mem_append] at ho
    obtain ⟨o, hmem | ⟨r, hmem, rfl⟩, rfl⟩ := ho
    · simp [ofTool, hobservations o hmem]
    · simp [ofTool, hreports r hmem]
  refine ⟨hcount.trans h.counted, ?_⟩
  rw [Standing.after, List.filter_append, hnone, List.append_nil, h.observed]

/-- Whether something has been observed of a tool and a file. -/
theorem any_observations (h : FailuresExact t failures was tool file) :
    was.observations.any (ofTool t tool file) = (reached? t.toolError failures tool file).isSome := by
  have hobserved := h.observed
  cases hreached : reached? t.toolError failures tool file with
  | none =>
    rw [hreached] at hobserved
    rw [Option.isSome_none, List.any_eq_false]
    exact List.filter_eq_nil_iff.mp hobserved
  | some f =>
    rw [hreached] at hobserved
    have hmem : f.note t.toolError ∈ was.observations.filter (ofTool t tool file) := by simp [hobserved]
    rw [Option.isSome_some, List.any_eq_true]
    exact ⟨_, List.mem_filter.mp hmem⟩

/-- What is observed of a failure: it is the first that makes the count of its own tool and file `n`. -/
theorem failingNotes_eq (f : ToolFailure) (h : FailuresExact t failures was f.tool f.file) :
    (failingNotes t was.observations f.tool f.file
        ((was.tally.recordToolError f.tool (f.file.getD "")).toolErrorCount f.tool (f.file.getD ""))).map
        (·, f.time)
      = if UInt32.ofNat (failures.countP (·.countsFor f.tool f.file) + 1) = t.toolError
          ∧ reached? t.toolError failures f.tool f.file = none then [f.note t.toolError]
        else [] := by
  have hcount : (was.tally.recordToolError f.tool (f.file.getD "")).toolErrorCount f.tool (f.file.getD "")
      = UInt32.ofNat (failures.countP (·.countsFor f.tool f.file) + 1) := by
    rw [Tally.toolErrorCount_recordToolError, if_pos rfl, h.counted, UInt32.ofNat_add]
    rfl
  rw [hcount, failingNotes, h.any_observations]
  simp only [Option.isSome_eq_false_iff, Option.isNone_iff_eq_none]
  split
  next hboth =>
    rw [hboth.1]
    rfl
  next => rfl

/-- **A failure.** It is counted for every file that shares its count, and observed of its own. -/
theorem failed (h : ∀ tool file, FailuresExact t failures was tool file)
    (f : ToolFailure) (details : Option Json) :
    FailuresExact t (failures ++ [f]) (was.after (was.tally.recordToolError f.tool (f.file.getD ""))
      [⟨.toolError, f.file, none, details⟩]
      (failingNotes t was.observations f.tool f.file
        ((was.tally.recordToolError f.tool (f.file.getD "")).toolErrorCount f.tool (f.file.getD "")))
      [] f.time) tool file := by
  have hkey : ((tool, file.getD "") = (f.tool, f.file.getD "")) ↔ f.countsFor tool file = true := by
    rw [Prod.mk.injEq, ToolFailure.countsFor, Bool.and_eq_true, beq_iff_eq, beq_iff_eq]
    exact and_congr eq_comm eq_comm
  refine ⟨?_, ?_⟩
  · show (was.tally.recordToolError f.tool (f.file.getD "")).toolErrorCount tool (file.getD "") = _
    rw [Tally.toolErrorCount_recordToolError, (h tool file).counted, List.countP_append,
      List.countP_singleton, UInt32.ofNat_add]
    simp only [hkey]
    split <;> rfl
  · simp only [Standing.after, List.map_nil, List.append_nil]
    rw [failingNotes_eq f (h f.tool f.file), List.filter_append, (h tool file).observed]
    cases hof : f.isOf tool file with
    | false =>
      -- what is observed of the failure is about something else
      have hsame : reached? t.toolError (failures ++ [f]) tool file
          = reached? t.toolError failures tool file := by
        cases hcounts : f.countsFor tool file with
        | false => exact reached?_uncounted hcounts
        | true => simp [reached?_counted hcounts, hof]
      rw [hsame]
      split <;> simp [ofTool_note, hof]
    | true =>
      obtain ⟨rfl, rfl⟩ : f.tool = tool ∧ f.file = file := by
        simpa [ToolFailure.isOf] using hof
      rw [reached?_counted (ToolFailure.countsFor_of_isOf hof)]
      cases hreached : reached? t.toolError failures f.tool f.file with
      | some first => simp
      | none =>
        simp only [hof, and_true, Bool.true_and, beq_iff_eq, Option.none_or]
        split <;> simp [ofTool_note, hof]

/-- **One moment.** -/
theorem lives {root : String} {m : Observer.Moment} {is : Standing}
    (h : ∀ tool file, FailuresExact t failures was tool file) (hlives : Lives root t was m is)
    (tool : String) (file : Option String) :
    FailuresExact t (failures ++ (m.failure? root).toList) is tool file := by
  have hthis := h tool file
  -- a call that is counted as something else is no failure
  have hnone : ∀ {d : Disk} {call : ToolCall} {now : Time},
      (∀ tool file, call.countedAs? root ≠ some (.failure tool file)) →
      failures ++ ((Observer.Moment.call d call now).failure? root).toList = failures := by
    intro d call now hcounted
    cases hfails : call.isError with
    | true => exact absurd (by rw [ToolCall.countedAs?, if_pos hfails]) (hcounted call.tool _)
    | false => simp [Observer.Moment.failure?, ToolCall.failure?, hfails]
  cases hlives with
  | uncounted counted spot =>
    rw [hnone (by simp [counted])]
    exact hthis.kept rfl (by simp) (by simp)
  | access counted =>
    rw [hnone (by simp [counted])]
    refine hthis.kept rfl (by simp) fun r hr => ?_
    rw [mem_redundantReports hr]
    simp [PatternReport.redundantAccess]
  | failedSearch counted =>
    rw [hnone (by simp [counted])]
    refine hthis.kept rfl (by simp) fun r hr => ?_
    rw [mem_failedSearchReports hr]
    simp [PatternReport.failedSearch]
  | @failure d call now other path details counted =>
    have hfailure : (Observer.Moment.call d call now).failure? root = some ⟨other, path, now⟩ := by
      cases hfails : call.isError with
      | true =>
        simp only [ToolCall.countedAs?, hfails, if_true, Option.some.injEq, CountedAs.failure.injEq]
          at counted
        simp [Observer.Moment.failure?, ToolCall.failure?, hfails, counted]
      | false =>
        simp only [ToolCall.countedAs?, hfails] at counted
        cases hkind : call.kind <;> simp [hkind] at counted
    rw [hfailure]
    exact failed h ⟨other, path, now⟩ details
  | @change path c now =>
    rw [Observer.Moment.failure?, Option.toList_none, List.append_nil]
    refine hthis.kept rfl (fun o ho => ?_) fun r hr => ?_
    · simp [changeNotes_type o ho]
    · rw [(mem_changeReports hr).2]
      simp [PatternReport.deadEnd]
  | closes =>
    rw [Observer.Moment.failure?, Option.toList_none, List.append_nil]
    refine hthis.kept rfl (by simp) fun r hr => ?_
    obtain ⟨count, rfl⟩ := mem_thrashReports hr
    simp [PatternReport.thrash]
  | unbegun =>
    rw [Observer.Moment.failure?, Option.toList_none, List.append_nil]
    exact hthis.kept rfl (by simp) (by simp)

end FailuresExact

/-! ## §3. Failures that are counted alone. -/

/-- Of the failures, those that count for a tool and a file are of this tool on this file. -/
def CountedApart (failures : List ToolFailure) (tool : String) (file : Option String) : Prop :=
  ∀ f ∈ failures, f.countsFor tool file = true → f.isOf tool file = true

/-- The failures of a tool on a file are counted, up to the turn of the counter, and there is one
observation about them if there are enough, and none otherwise. -/
structure FailuresAlone (t : Thresholds) (failures : List ToolFailure) (is : Standing) (tool : String)
    (file : Option String) : Prop where
  counted : is.tally.toolErrorCount tool (file.getD "")
    = UInt32.ofNat (failures.countP (·.isOf tool file))
  observed : t.toolError.toNat ≤ failures.countP (·.isOf tool file) →
    ∃ f ∈ failures, f.isOf tool file = true
      ∧ is.observations.filter (ofTool t tool file) = [f.note t.toolError]
  quiet : failures.countP (·.isOf tool file) < t.toolError.toNat →
    is.observations.filter (ofTool t tool file) = []

theorem FailuresExact.alone {t : Thresholds} {failures : List ToolFailure} {is : Standing}
    {tool : String} {file : Option String} (h : FailuresExact t failures is tool file)
    (hn : 1 ≤ t.toolError.toNat) (hapart : CountedApart failures tool file) :
    FailuresAlone t failures is tool file := by
  have hcounted : failures.countP (·.countsFor tool file) = failures.countP (·.isOf tool file) :=
    List.countP_congr fun f hf => ⟨hapart f hf, ToolFailure.countsFor_of_isOf⟩
  refine ⟨h.counted.trans (by rw [hcounted]), fun hmany => ?_, fun hfew => ?_⟩
  · obtain ⟨f, hmem, hof, hreached⟩ := exists_reached? hn hapart (by rw [hcounted]; exact hmany)
    exact ⟨f, hmem, hof, by rw [h.observed, hreached]; rfl⟩
  · rw [h.observed, reached?_eq_none (by rw [hcounted]; exact hfew)]
    rfl

/-- Failures on any file but the root of the project are counted alone. -/
theorem countedApart_of_ne (failures : List ToolFailure) (tool : String) {key : String} (h : key ≠ "") :
    CountedApart failures tool (some key) := by
  intro f _ hcounts
  simp only [ToolFailure.countsFor, Bool.and_eq_true, beq_iff_eq, Option.getD_some] at hcounts
  cases hfile : f.file with
  | none =>
    rw [hfile, Option.getD_none] at hcounts
    exact absurd hcounts.2.symm h
  | some path =>
    rw [hfile, Option.getD_some] at hcounts
    simp [ToolFailure.isOf, hfile, hcounts]

/-! ## §4. Runs. -/

/-- The failures that an observer sees in a run are those among its moments. -/
theorem filterMap_own_moments {ι : Type} [DecidableEq ι] (i : ι) (root : String)
    (encounters : List (Encounter ι)) :
    (Crowd.own i (encounters.flatMap Encounter.moments)).filterMap (·.failure? root)
      = encounters.filterMap (·.failure? i root) := by
  -- only calls are failures
  have hcalls : ∀ m : Observer.Moment, m.failure? root = if m.isCall then m.failure? root else none := by
    rintro (_ | _ | _) <;> rfl
  rw [List.filterMap_congr fun m _ => hcalls m, ← List.filterMap_filter, Crowd.own_calls,
    List.filterMap_filterMap]
  refine List.filterMap_congr fun e _ => ?_
  unfold Encounter.call? Encounter.failure?
  cases e.sight with
  | call made now => by_cases hwho : e.who = i <;> simp [hwho, Observer.Moment.failure?]
  | changes diff now => rfl

/-- **Failures are told by the calls.** Observers of different sessions share a store, and see calls and
changes of files in any order. Of an observer that has counted nothing yet, and whose session the store
did not know: the failures of a tool on a file are counted by the key of the file, in 32 bits, those
without a file with those on the root; of those of a tool on a file that make the count `n` the first is
observed, once, and nothing else is observed of a tool and a file. A file that is not the root of the
project has its own failures counted, and so have the root and the absent file unless the tool has failed
on both. -/
theorem tool_failures_by_key {ι : Type} [DecidableEq ι] (w : Crowd ι) (hready : w.Ready)
    (hstore : w.store.Intact) (hsessions : Function.Injective fun j => (w.observers j).session)
    (i : ι) (hunknown : w.store.hasSession (w.observers i).session = false)
    (htally : (w.observers i).tally = .empty) (hn : 1 ≤ (w.observers i).thresholds.toolError)
    (encounters : List (Encounter ι)) :
    let failures := encounters.filterMap (·.failure? i (w.observers i).root)
    let is := (w.run encounters).standing i
    (∀ tool file, FailuresExact (w.observers i).thresholds failures is tool file)
      ∧ (∀ tool file, CountedApart failures tool file →
        FailuresAlone (w.observers i).thresholds failures is tool file)
      ∧ (∀ tool key, key ≠ "" →
        FailuresAlone (w.observers i).thresholds failures is tool (some key))
      ∧ ∀ o ∈ is.observations, o.1.type = .environment →
        ∃ tool, ofTool (w.observers i).thresholds tool o.1.file o = true := by
  intro failures is
  have hexact : ∀ tool file, FailuresExact (w.observers i).thresholds failures is tool file := by
    have hmoments := Crowd.run_standing
      (P := fun past is => ∀ tool file, FailuresExact (w.observers i).thresholds
        (past.filterMap (·.failure? (w.observers i).root)) is tool file)
      hready hstore hsessions i hunknown ?_ ?_ encounters
    · rw [filterMap_own_moments] at hmoments
      exact hmoments
    · intro past was m is hlives h tool file
      rw [List.filterMap_append, List.filterMap_eq_flatMap_toList _ [m], List.flatMap_singleton]
      exact FailuresExact.lives h hlives tool file
    · -- no tool has failed
      exact fun tool file => ⟨by rw [htally]; rfl, rfl⟩
  have hpos := UInt32.le_iff_toNat_le.mp hn
  refine ⟨hexact, fun tool file => (hexact tool file).alone hpos, fun tool key hkey =>
    (hexact tool (some key)).alone hpos (countedApart_of_ne failures tool hkey), ?_⟩
  have honce := Crowd.liveAll_onceOnly i (encounters.flatMap Encounter.moments) w hsessions
    (sameFor_empty hstore hunknown ▸ .of_nothing _ none)
  have hsession : ((w.run encounters).observers i).session = (w.observers i).session := by
    rw [Crowd.run_eq_doAll]
    exact Crowd.doAll_session Observer.seeing i _ w
  rw [← w.run_eq_liveAll hready, ← hsession] at honce
  exact honce.failing.tools

/-- Two observers on an empty store that take two failures for too many. -/
def breakers : Crowd Bool := .leftAndRight { Thresholds.default with toolError := 2 }

/-- A tool fails. -/
def failing (side : Bool) (tool : String) (args : List (String × Json)) (now : Time) : Encounter Bool :=
  ⟨side, ⟨[], []⟩, .call ⟨tool, .obj args, .str "denied", true⟩ now⟩

/-- The left one sees a tool fail three times on a file, which is spelled in two ways, and another tool
fail there once; the same tool fails once without a file, and once for the right one. -/
def breakersRun : List (Encounter Bool) :=
  [failing false "read_file" [("path", .str "a.py")] 0, failing false "get_symbol" [("file", .str "a.py")] 1,
    failing true "read_file" [("path", .str "a.py")] 2, failing false "read_file" [] 3,
    failing false "read_file" [("path", .str "/p/a.py")] 4,
    failing false "read_file" [("path", .str "./a.py")] 5]

theorem tool_failures_by_key_of_breakers :
    (breakers.Ready ∧ Function.Injective (fun side => (breakers.observers side).session)
      ∧ breakers.store.hasSession (breakers.observers false).session = false
      ∧ (breakers.observers false).tally.toolErrors = []
      ∧ 1 ≤ (breakers.observers false).thresholds.toolError)
    ∧ (∀ tool, FailuresAlone (breakers.observers false).thresholds
        (breakersRun.filterMap (·.failure? false "/p")) ((breakers.run breakersRun).standing false) tool
        (some "a.py"))
    ∧ (breakersRun.filterMap (·.failure? false "/p")).countP (·.isOf "read_file" (some "a.py")) = 3
    ∧ ((breakers.run breakersRun).standing false).observations
      = [(⟨.environment, some "a.py", none, "read_file failed 2 times on a.py"⟩, 4)]
    ∧ ((breakers.run breakersRun).standing true).observations = [] := by
  have hready : breakers.Ready := Crowd.leftAndRight_ready _
  have hsessions := Crowd.leftAndRight_sessions { Thresholds.default with toolError := 2 }
  refine ⟨⟨hready, hsessions, by decide, rfl, by decide⟩, fun tool => ?_, by decide +kernel,
    by decide +kernel, by decide +kernel⟩
  exact (tool_failures_by_key breakers hready Store.intact_empty hsessions false (by decide) rfl
    (by decide) breakersRun).2.2.1 tool "a.py" (by decide)

/-- A tool fails on the root, without a file, and on the root again. -/
def rootRun : List (Encounter Bool) :=
  [failing false "list_dir" [("path", .str "./")] 0, failing false "list_dir" [] 1,
    failing false "list_dir" [("path", .str "./")] 2]

/-- **Failures without a file are counted with those on the root.** The only failure without a file is
observed as one too many, and the two on the root are not. -/
theorem rootless_failures_counted_together :
    let failures := rootRun.filterMap (·.failure? false "/p")
    let is := (breakers.run rootRun).standing false
    failures.countP (·.isOf "list_dir" none) = 1
      ∧ failures.countP (·.isOf "list_dir" (some "")) = 2
      ∧ is.observations = [(⟨.environment, none, none, "list_dir failed 2 times"⟩, 1)]
      ∧ ¬FailuresAlone (breakers.observers false).thresholds failures is "list_dir" none
      ∧ ¬FailuresAlone (breakers.observers false).thresholds failures is "list_dir" (some "") := by
  intro failures is
  have hnone : failures.countP (·.isOf "list_dir" none) = 1 := by decide +kernel
  have hroot : failures.countP (·.isOf "list_dir" (some "")) = 2 := by decide +kernel
  have hobserved : is.observations = [(⟨.environment, none, none, "list_dir failed 2 times"⟩, 1)] := by
    decide +kernel
  refine ⟨hnone, hroot, hobserved, fun halone => ?_, fun halone => ?_⟩
  · have hquiet := halone.quiet (by rw [hnone]; decide)
    rw [hobserved] at hquiet
    exact absurd hquiet (by decide)
  · obtain ⟨f, -, -, hone⟩ := halone.observed (by rw [hroot]; decide)
    rw [hobserved] at hone
    exact absurd hone (List.cons_ne_nil _ _).symm

end CodeIndex
