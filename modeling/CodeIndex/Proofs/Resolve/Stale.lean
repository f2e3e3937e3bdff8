import Mathlib
import CodeIndex.Proofs.Resolve.Count

/-!
# Applying a plan to a store that has moved on

A plan is made from a store as it was. Until it is applied, files may have gone, come or been indexed anew,
so the plan may speak of importers and of targets without rows. Such an importer is passed over: the plan
does what it would do without it (`apply_ofRows`). Such a target is passed over too, so what a file has in the
end is what is planned for it towards files with rows (`FilePlan.imports`). Nothing else in the store changes.

Main result: `stale_plan_applies`.
-/

namespace CodeIndex

open Resolve Store

/-! ## §1. Importers without a row. -/

/-- Whether the file that a plan is for has a row. -/
def Resolve.FilePlan.hasRow (s : Store) (f : FilePlan) : Bool := (s.file? f.path).isSome

/-- A plan less the files that have no row. -/
def Resolve.Plan.ofRows (plan : Plan) (s : Store) : Plan := { plan with files := plan.files.filter (·.hasRow s) }

theorem hasRow_eq_false {s : Store} {f : FilePlan} (h : f.hasRow s = false) : s.fileId? f.path = none := by
  unfold FilePlan.hasRow at h
  unfold fileId?
  rw [Option.isSome_eq_false_iff, Option.isNone_iff_eq_none] at h
  rw [h]
  rfl

theorem Store.EdgesOnly.hasRow {s s' : Store} (h : EdgesOnly s s') (f : FilePlan) : f.hasRow s' = f.hasRow s := by
  unfold FilePlan.hasRow
  rw [h]
  rfl

/-- The files without rows may be left out. -/
theorem writeFiles_filter (files : List FilePlan) :
    ∀ {p : Progress}, p.store.Intact →
      (files.filter (·.hasRow p.store)).foldlM Progress.writeFile p = files.foldlM Progress.writeFile p := by
  induction files with
  | nil => intro p _; rfl
  | cons f rest ih =>
    intro p hs
    by_cases hrow : f.hasRow p.store = true
    · -- writing the file changes no row of a file, so the same files are left out after it
      obtain ⟨mid, hmid, hintact, honly, -⟩ := writeFile_edges hs f
      have hrest := ih hintact
      simp only [honly.hasRow] at hrest
      rw [List.filter_cons_of_pos hrow, List.foldlM_cons, List.foldlM_cons, hmid]
      exact hrest
    · have hskip : p.writeFile f = .ok p := by
        unfold Progress.writeFile
        rw [hasRow_eq_false (Bool.eq_false_iff.mpr hrow)]
      rw [List.filter_cons_of_neg hrow, List.foldlM_cons, hskip]
      exact ih hs

/-- **Importers without a row** are passed over. -/
theorem apply_ofRows (plan : Plan) {s : Store} (hs : s.Intact) : (plan.ofRows s).apply s = plan.apply s := by
  unfold Plan.apply Plan.ofRows
  rw [writeFiles_filter plan.files (p := ⟨s, 0, 0⟩) hs]

/-! ## §2. Targets without a row. -/

/-- The import that a planned edge makes, if its target has a row. An empty symbol is none. -/
def plannedImport? (s : Store) (source : String) (e : PlannedEdge) : Option Edge :=
  if (s.file? e.target).isSome then some ⟨source, e.target, Intact.shownSymbol (e.symbol.getD "")⟩ else none

/-- What is planned for a file towards files with rows: each import once, in the order in which imports are
listed. -/
def Resolve.FilePlan.imports (f : FilePlan) (s : Store) : List Edge :=
  sortEdges (f.edges.filterMap (plannedImport? s f.path)).eraseDups

theorem plannedImport?_eq_some {s : Store} {source : String} {planned : PlannedEdge} {e : Edge} :
    plannedImport? s source planned = some e ↔
      source = e.source ∧ (s.file? e.target).isSome = true ∧ planned.target = e.target
        ∧ e.symbol = Intact.shownSymbol (planned.symbol.getD "") := by
  unfold plannedImport?
  constructor
  · intro h
    split at h
    next hrow =>
      obtain rfl := Option.some.inj h
      exact ⟨rfl, hrow, rfl, rfl⟩
    next => exact absurd h (by simp)
  · intro h
    obtain ⟨hsource, hrow, htarget, hsymbol⟩ := h
    rw [htarget, if_pos hrow, hsource, ← hsymbol]

theorem mem_imports {f : FilePlan} {s : Store} {e : Edge} :
    e ∈ f.imports s ↔ ∃ planned ∈ f.edges, plannedImport? s f.path planned = some e := by
  unfold FilePlan.imports sortEdges
  rw [(List.mergeSort_perm _ _).mem_iff, List.mem_eraseDups, List.mem_filterMap]

theorem listsImports_imports (f : FilePlan) (s : Store) : ListsImports (f.imports s) where
  sorted := sortEdges_sorted _
  once := by
    unfold FilePlan.imports sortEdges
    rw [(List.mergeSort_perm _ _).nodup_iff]
    exact nodup_eraseDups _
  shown := by
    intro e he
    obtain ⟨planned, -, hplanned⟩ := mem_imports.mp he
    exact ⟨_, (plannedImport?_eq_some.mp hplanned).2.2.2⟩

/-- A plan with one entry for each file makes, of a file with a row, what is planned for that file. -/
theorem makes_iff {plan : Plan} {s : Store} (hdistinct : (plan.files.map (·.path)).Nodup) {f : FilePlan}
    (hf : f ∈ plan.files) (hrow : f.hasRow s = true) {e : Edge} (hsource : e.source = f.path) :
    plan.Makes s e ↔ e ∈ f.imports s := by
  rw [mem_imports]
  constructor
  · intro h
    obtain ⟨g, hg, hpath, -, htarget, planned, hplanned, hto, hsymbol⟩ := h
    obtain rfl : g = f := List.inj_on_of_nodup_map hdistinct hg hf (hpath.trans hsource)
    exact ⟨planned, hplanned, plannedImport?_eq_some.mpr ⟨hpath, htarget, hto, hsymbol⟩⟩
  · intro h
    obtain ⟨planned, hplanned, himport⟩ := h
    obtain ⟨hpath, htarget, hto, hsymbol⟩ := plannedImport?_eq_some.mp himport
    exact ⟨f, hf, hpath, hsource ▸ hrow, htarget, planned, hplanned, hto, hsymbol⟩

/-! ## §3. The store after the plan. -/

/-- What a plan does to a store, and what it reports. -/
structure AppliesStale (plan : Plan) (s s' : Store) (report : Report) : Prop where
  /-- The rows hang together, so no import leads to or from a file without a row. -/
  intact : s'.Intact
  /-- The tables other than that of imports are as they were. -/
  edgesOnly : EdgesOnly s s'
  /-- An importer with a row has what is planned for it towards files with rows. -/
  planned : ∀ f ∈ plan.files, f.hasRow s = true → s'.dependenciesOf f.path = f.imports s
  /-- An importer without a row is passed over. -/
  passedOver : (plan.ofRows s).apply s = .ok (s', report)
  /-- The imports of files that are not in the plan are as they were. -/
  others : s'.allEdges.filter (fun e => !(plan.files.map (·.path)).contains e.source)
    = s.allEdges.filter fun e => !(plan.files.map (·.path)).contains e.source
  /-- The importers with a row are counted, -/
  files : report.files = plan.files.countP (·.hasRow s)
  /-- and so are the imports that they have. -/
  edges : report.edges
    = s'.allEdges.countP fun e => ((plan.files.filter (·.hasRow s)).map (·.path)).contains e.source
  failures : report.failures = plan.failures

/-- **A plan may be applied late**, to any intact store, as long as no importer is in it twice. -/
theorem stale_plan_applies (plan : Plan) (s : Store) (hs : s.Intact)
    (hdistinct : (plan.files.map (·.path)).Nodup) :
    ∃ s' report, plan.apply s = .ok (s', report) ∧ AppliesStale plan s s' report := by
  obtain ⟨s', report, happly, hs', honly, hedges⟩ := apply_edges plan hs
  have hmade := hedges hdistinct
  have hlive : (plan.ofRows s).apply s = .ok (s', report) := (apply_ofRows plan hs).trans happly
  have hliveDistinct : ((plan.ofRows s).files.map (·.path)).Nodup :=
    hdistinct.sublist (List.filter_sublist.map _)
  have hrows : ∀ f ∈ (plan.ofRows s).files, (s.file? f.path).isSome = true := by
    intro f hf
    exact (List.mem_filter.mp hf).2
  obtain ⟨hfiles, hfailures, hcount⟩ := apply_counts hs hrows hliveDistinct hlive
  refine ⟨s', report, happly, hs', honly, ?_, hlive, ?_, ?_, ?_, hfailures⟩
  · intro f hf hrow
    apply (hs'.listsImports _).eq (listsImports_imports f s)
    intro e
    rw [List.mem_filter, hmade, beq_iff_eq]
    constructor
    · intro h
      obtain ⟨⟨-, hnot⟩ | hmakes, hsource⟩ := h
      · exact absurd (List.mem_map_of_mem hf) (hsource ▸ hnot)
      · exact (makes_iff hdistinct hf hrow hsource).mp hmakes
    · intro h
      obtain ⟨planned, -, himport⟩ := mem_imports.mp h
      have hsource : e.source = f.path := (plannedImport?_eq_some.mp himport).1.symm
      exact ⟨.inr ((makes_iff hdistinct hf hrow hsource).mpr h), hsource⟩
  · apply allEdges_filter_eq hs' hs
    intro e he
    have hnot : e.source ∉ plan.files.map (·.path) := by
      intro hmem
      rw [List.contains_iff_mem.mpr hmem] at he
      exact absurd he (by decide)
    rw [hmade]
    constructor
    · intro h
      obtain ⟨hedge, -⟩ | ⟨f, hf, hpath, -⟩ := h
      · exact hedge
      · exact absurd (List.mem_map.mpr ⟨f, hf, hpath⟩) hnot
    · exact fun hedge => .inl ⟨hedge, hnot⟩
  · rw [hfiles, List.countP_eq_length_filter]
    rfl
  · rw [hcount, ← countP_rows hs']
    apply List.countP_congr
    intro row _
    simp only [honly.fileId?, List.any_map]
    rfl

/-- An index that has moved on: `gone.py`, which imports were planned of and for, has no row any more. -/
def movedOn : Store where
  files := [⟨⟨"a.py", "python", "now", 1, 1, .code⟩, 1⟩, ⟨⟨"b.py", "python", "now", 1, 1, .code⟩, 2⟩,
    ⟨⟨"c.py", "python", "now", 1, 1, .code⟩, 4⟩]
  symbols := []
  chunks := []
  edges := [⟨1, 4, "old"⟩, ⟨4, 1, "f"⟩]
  snapshotFiles := []
  snapshots := []
  sessions := []
  events := []
  observations := []

theorem movedOn_intact : movedOn.Intact where
  paths := by decide
  ids := by decide
  symbols := by decide
  chunks := by decide
  chunkNumbers := by decide
  edges := by decide
  edgesOnce := by decide
  snapshotFiles := by decide
  snapshots := by decide
  snapshotNames := by decide
  events := by decide
  eventOrder := by decide
  observations := by decide
  observationOrder := by decide
  staleness := by simp [movedOn]

/-- A plan from before: it has one import of a whole file twice, once with an empty symbol. -/
def latePlan : Plan where
  files := [⟨"a.py", [⟨"b.py", none⟩, ⟨"gone.py", some "g"⟩, ⟨"b.py", some ""⟩, ⟨"b.py", some "f"⟩]⟩,
    ⟨"gone.py", [⟨"a.py", none⟩]⟩]
  failures := []

theorem late_plan_applies :
    movedOn.Intact ∧ (latePlan.files.map (·.path)).Nodup
      ∧ ∃ s' report, latePlan.apply movedOn = .ok (s', report)
        ∧ s'.dependenciesOf "a.py" = [⟨"a.py", "b.py", none⟩, ⟨"a.py", "b.py", some "f"⟩]
        ∧ report.files = 1 := by
  have hdistinct : (latePlan.files.map (·.path)).Nodup := by decide
  obtain ⟨s', report, happly, hstale⟩ := stale_plan_applies latePlan movedOn movedOn_intact hdistinct
  refine ⟨movedOn_intact, hdistinct, s', report, happly, ?_, ?_⟩
  · have hplanned := hstale.planned _ (List.mem_cons_self ..) (by decide)
    exact hplanned.trans (List.mergeSort_of_pairwise (by decide +kernel))
  · exact hstale.files.trans (by decide)

end CodeIndex
