import Mathlib
import CodeIndex.Proofs.Index.Contents
import CodeIndex.Proofs.Project.Run

/-!
# Indexing again is indexing anew

A project goes through any history of edits of its disk, of passes and of resolving imports. If a last
pass reports no errors, and imports are resolved after it, then the index holds what it would hold if
it had been made from nothing: the same files, symbols, chunks, imports and snapshots.

The argument has three parts. Along the history the index records contents (`Records`), whatever is on
the disk and whichever passes fail. The last pass leaves an index that mirrors the disk, and so does a
pass over an empty one (`Mirrors.of_indexAll`). Resolving imports replaces the imports of every source
file, since all of them can be read, so that nothing of the history is left in them.

Names with a backslash are left out. The key of such a name is one of another place, and a row under
it stays when its file has gone (`backslash_row_stays`).

Main result: `incremental_as_fresh`.
-/

namespace CodeIndex

open Text (Bytes)
open Indexer (Records Mirrors)

/-! ## §1. Plans of source files. -/

namespace Resolve.Surroundings

variable (around : Surroundings)

theorem planFile_paths (path : String) :
    ((around.planFile path).files.map (·.path)).Sublist [path] := by
  unfold planFile
  split
  · exact List.nil_sublist _
  · exact List.Sublist.refl _

/-- A plan has one entry at most for each file that was asked for. -/
theorem plan_paths (paths : List String) :
    ((around.plan paths).files.map (·.path)).Sublist paths := by
  induction paths with
  | nil => exact List.Sublist.refl _
  | cons path rest ih =>
    have hplan : (around.plan (path :: rest)).files
        = (around.planFile path).files ++ (around.plan rest).files := rfl
    rw [hplan, List.map_append]
    exact (around.planFile_paths path).append ih

/-- A file whose imports can be read has a plan. -/
theorem mem_plan_paths {paths : List String} {path : String} (hpath : path ∈ paths)
    {imports : List Import} (himports : around.importsOf path = .ok imports) :
    path ∈ (around.plan paths).files.map (·.path) := by
  have hfile : ⟨path, imports.flatMap (around.edgesOf path)⟩ ∈ (around.planFile path).files := by
    unfold planFile
    rw [himports]
    exact List.mem_singleton_self _
  exact List.mem_map.mpr ⟨_, List.mem_flatMap.mpr ⟨_, List.mem_map_of_mem hpath, hfile⟩, rfl⟩

end Resolve.Surroundings

/-- The imports of a file that can be read and is text are known. -/
theorem importsOf_of_read {x : Indexer} {d : Disk} {known : List String} {path : String} {bytes : Bytes}
    {content : List Char} (hread : x.read d path = .ok bytes)
    (hdecoded : Text.decode? bytes = some content) :
    ∃ imports, Resolve.Surroundings.importsOf ⟨x.root, d, known⟩ path = .ok imports := by
  obtain ⟨e, hentry, hbytes⟩ := Indexer.read_eq_ok hread
  have hdisk : d.read (Path.under x.root path) = .ok bytes := by
    unfold Disk.read
    unfold Indexer.place at hentry
    rw [hentry]
    exact Entry.read_eq_ok_iff.mpr hbytes
  unfold Resolve.Surroundings.importsOf
  rw [hdisk]
  simp only [hdecoded]
  exact ⟨_, rfl⟩

/-! ## §2. Observing leaves the index alone. -/

namespace SessionWrites

variable {s s' : Store}

theorem IndexKept.page (h : IndexKept s s') (path : String) : s'.page path = s.page path := by
  refine Store.page_congr ?_ (fun f _ => ?_) (fun f _ => ?_) ?_
  · unfold Store.file?
    rw [h.files]
  · unfold Store.ownSymbols
    rw [h.symbols]
  · unfold Store.ownChunks
    rw [h.chunks]
  · exact Store.snapshot?_congr h.snapshotFiles h.snapshots path

theorem IndexKept.allEdges (h : IndexKept s s') : s'.allEdges = s.allEdges :=
  Store.allEdges_congr h.files h.edges

end SessionWrites

namespace Project

/-- Observing changes leaves the indexer and the index as they are. -/
theorem onFileDiffs_index (diffs : List FileDiff) (now : Time) :
    ∀ p : Project, (p.onFileDiffs diffs now).indexer = p.indexer
      ∧ SessionWrites.IndexKept p.store (p.onFileDiffs diffs now).store
      ∧ (p.store.Intact → (p.onFileDiffs diffs now).store.Intact) := by
  induction diffs with
  | nil => intro p; exact ⟨rfl, .refl _, fun h => h⟩
  | cons diff rest ih =>
    intro p
    have hstep : (p.onFileDiff diff now).indexer = p.indexer
        ∧ SessionWrites.IndexKept p.store (p.onFileDiff diff now).store
        ∧ (p.store.Intact → (p.onFileDiff diff now).store.Intact) := by
      have hwrites := Observer.onFileDiff_writes p.observer p.store diff now
      unfold onFileDiff
      split
      · exact ⟨rfl, hwrites.indexKept, hwrites.intact⟩
      · exact ⟨rfl, .refl _, fun h => h⟩
    obtain ⟨hindexer, hkept, hintact⟩ := ih (p.onFileDiff diff now)
    exact ⟨hindexer.trans hstep.1, hstep.2.1.trans hkept, fun h => hintact (hstep.2.2 h)⟩

/-- Reports without changes are passed over. -/
theorem onFileDiffs_unchanged {diffs : List FileDiff} (hdiffs : ∀ diff ∈ diffs, diff.changes = [])
    {p : Project} (hsound : p.condition = .sound) (now : Time) : p.onFileDiffs diffs now = p := by
  induction diffs with
  | nil => rfl
  | cons diff rest ih =>
    have hstep : p.onFileDiff diff now = p := by
      unfold onFileDiff Observer.onFileDiff
      rw [if_pos (by simp [isSound, hsound]), hdiffs diff List.mem_cons_self]
      simp only [List.isEmpty_nil, Bool.or_true, if_true]
      rw [if_neg (by simp), ← hsound]
    show (p.onFileDiff diff now).onFileDiffs rest now = p
    rw [hstep]
    exact ih fun other hother => hdiffs other (List.mem_cons_of_mem _ hother)

theorem mem_codePaths {p : Project} {path : String} :
    path ∈ p.codePaths ↔ ∃ row ∈ p.store.files, row.path = path ∧ row.fileClass = .code := by
  unfold codePaths Store.listFiles
  simp only [List.mem_map, List.mem_mergeSort, List.mem_filter, Option.all_some, beq_iff_eq]
  constructor
  · rintro ⟨row, ⟨hrow, hclass⟩, hpath⟩
    exact ⟨row, hrow, hpath, hclass⟩
  · rintro ⟨row, hrow, hpath, hclass⟩
    exact ⟨row, ⟨hrow, hclass⟩, hpath⟩

theorem codePaths_nodup {p : Project} (h : p.store.Intact) : p.codePaths.Nodup := by
  unfold codePaths Store.listFiles
  rw [((List.mergeSort_perm _ _).map _).nodup_iff]
  exact h.paths.sublist (List.filter_sublist.map _)

/-- The plan for all source files. -/
def plan (p : Project) (d : Disk) : Resolve.Plan :=
  Resolve.Surroundings.plan ⟨p.root, d, p.codePaths⟩ p.codePaths

theorem plan_codePaths (p : Project) (d : Disk) :
    ((p.plan d).files.map (·.path)).Sublist p.codePaths :=
  Resolve.Surroundings.plan_paths _ _

/-- Resolving the imports of a sound project succeeds, and leaves the imports that the plan makes and
those of files without a plan. -/
theorem resolve_sound {p : Project} (h : p.store.Intact) (hsound : p.isSound = true) (d : Disk) :
    ∃ s report, p.resolve d = ({ p with store := s }, .ok report) ∧ s.Intact
      ∧ Store.EdgesOnly p.store s
      ∧ ∀ e, e ∈ s.allEdges ↔
        (e ∈ p.store.allEdges ∧ e.source ∉ (p.plan d).files.map (·.path)) ∨ (p.plan d).Makes p.store e := by
  obtain ⟨s, report, hresolve, hs, honly, hedges⟩ := resolvePaths_sound d h hsound p.codePaths
  exact ⟨s, report, hresolve, hs, honly, hedges ((codePaths_nodup h).sublist (p.plan_codePaths d))⟩

/-- What a pass that succeeds has done: the indexer has gone through the files, and the changes that it
found have been observed. -/
theorem indexAll_eq_ok {p p' : Project} {d : Disk} {options : PassOptions} {now : Time}
    {report : PassReport} (h : p.indexAll d options now = (p', .ok report)) :
    ∃ s, p.indexer.indexAll d p.store options = (s, .ok report)
      ∧ p' = { p with store := s }.onFileDiffs report.diffs now ∧ p'.isSound = true := by
  have houtcome := indexAll_outcome p d options now
  rw [h] at houtcome
  cases houtcome with
  | passed sound pass still => exact ⟨_, pass, rfl, still⟩

/-- What indexing a file that succeeds has done. -/
theorem index_eq_ok {p p' : Project} {d : Disk} {c : FileClass} {path : String} {force : Bool}
    {now : Time} {o : FileOutcome} (h : p.index d c path force now = (p', .ok o)) :
    ∃ s, p.indexer.index d p.store c (p.indexer.relative path) force = .ok (s, o)
      ∧ p' = { p with store := s }.onFileDiffs o.diff.toList now ∧ p'.isSound = true := by
  unfold index at h
  split at h
  · exact absurd (Prod.mk.inj h).2 (by simp)
  · split at h
    · exact absurd (Prod.mk.inj h).2 (by simp)
    next s o' hindex =>
      unfold unlessCrashed at h
      split at h
      next hsound =>
        obtain ⟨rfl, ho⟩ := Prod.mk.inj h
        obtain rfl := Except.ok.inj ho
        exact ⟨s, hindex, rfl, hsound⟩
      next => exact absurd (Prod.mk.inj h).2 (by simp)

/-- Indexing a file that fails leaves the project as it is, unless the project breaks. -/
theorem index_eq_error {p p' : Project} {d : Disk} {c : FileClass} {path : String} {force : Bool}
    {now : Time} {e : ProjectFailure} (h : p.index d c path force now = (p', .error e)) :
    p' = p ∨ p'.isSound = false := by
  unfold index at h
  split at h
  · exact .inl (Prod.mk.inj h).1.symm
  · split at h
    · exact .inl (Prod.mk.inj h).1.symm
    · unfold unlessCrashed at h
      split at h
      next => exact absurd (Prod.mk.inj h).2 (by simp)
      next hbroken => exact .inr (by rw [← (Prod.mk.inj h).1]; simpa using hbroken)

/-- Whatever comes of a pass, the index is the one that the project had, or the one that the indexer has
left. -/
theorem indexAll_index (p : Project) (d : Disk) (options : PassOptions) (now : Time) :
    (p.indexAll d options now).1.indexer = p.indexer
      ∧ ∃ s, (s = p.store ∨ s = (p.indexer.indexAll d p.store options).1)
        ∧ SessionWrites.IndexKept s (p.indexAll d options now).1.store
        ∧ (s.Intact → (p.indexAll d options now).1.store.Intact) := by
  have hsame : ∀ s : Store, SessionWrites.IndexKept s s := .refl
  have houtcome := indexAll_outcome p d options now
  generalize p.indexAll d options now = result at houtcome
  cases houtcome with
  | broken => exact ⟨rfl, p.store, .inl rfl, hsame _, fun h => h⟩
  | @failed s e sound pass => exact ⟨rfl, s, .inr (by rw [pass]), hsame _, fun h => h⟩
  | @passed s report sound pass still =>
    obtain ⟨hindexer, hkept, hintact⟩ := onFileDiffs_index report.diffs now { p with store := s }
    exact ⟨hindexer, s, .inr (by rw [pass]), hkept, hintact⟩
  | @crashed s report sound pass =>
    obtain ⟨hindexer, hkept, hintact⟩ := onFileDiffs_index report.diffs now { p with store := s }
    exact ⟨hindexer, s, .inr (by rw [pass]), hkept, hintact⟩

/-- A project that was opened on a store whose rows hang together. -/
theorem good_ofStore {root : String} {config : Config} {session : String} {s : Store} {p : Project}
    (hs : s.Intact) (hopen : ofStore root config session s = .ok p) : p.Good ∧ p.store = s := by
  obtain ⟨filter, -, rfl⟩ := ofStore_eq_ok hopen
  exact ⟨⟨hs, fun hbegun => absurd hbegun (by simp [Observer.new])⟩, rfl⟩

theorem resolvePaths_indexer (p : Project) (d : Disk) (paths : List String) :
    (p.resolvePaths d paths).1.indexer = p.indexer := by
  unfold resolvePaths
  split
  · rfl
  · simp only
    split <;> rfl

theorem index_indexer (p : Project) (d : Disk) (c : FileClass) (path : String) (force : Bool) (now : Time) :
    (p.index d c path force now).1.indexer = p.indexer := by
  unfold index
  split
  · rfl
  · split
    · rfl
    · rw [unlessCrashed_fst]
      exact (onFileDiffs_index _ now _).1

theorem removeFile_indexer (p : Project) (path : String) (now : Time) :
    (p.removeFile path now).1.indexer = p.indexer := by
  unfold removeFile
  split
  · rfl
  · split
    · rfl
    next s diff _ =>
      rw [unlessCrashed_fst]
      exact (onFileDiffs_index [diff] now _).1

theorem onFileWritten_unselected {p : Project} {path : String}
    (hclass : p.indexer.filter.classify? (p.indexer.relative path) = none) (d : Disk) (now : Time) :
    p.onFileWritten d path now = (p, .ok ()) := by
  unfold onFileWritten
  simp only [hclass]

/-- A selected file that was added or changed is indexed. If it is a source file and was written, its
imports are resolved. -/
theorem onFileWritten_eq {p : Project} {path : String} {c : FileClass}
    (hclass : p.indexer.filter.classify? (p.indexer.relative path) = some c) (d : Disk) (now : Time) :
    (p.onFileWritten d path now).1 =
      match p.index d c (p.indexer.relative path) false now with
      | (mid, .ok o) =>
        if o.status = .skipped || c = .doc then mid else (mid.resolveFile d (p.indexer.relative path)).1
      | (mid, .error _) => mid := by
  unfold onFileWritten
  simp only [hclass]
  generalize p.index d c (p.indexer.relative path) false now = result
  obtain ⟨mid, outcome⟩ := result
  cases outcome with
  | error e =>
    cases e with
    | file e => cases e <;> rfl
    | _ => rfl
  | ok o =>
    simp only
    split <;> rfl

/-- So it is left as indexing it leaves it, or with its imports resolved after that. -/
theorem onFileWritten_selected {p : Project} {path : String} {c : FileClass}
    (hclass : p.indexer.filter.classify? (p.indexer.relative path) = some c) (d : Disk) (now : Time) :
    let indexed := (p.index d c (p.indexer.relative path) false now).1
    (p.onFileWritten d path now).1 = indexed
      ∨ (p.onFileWritten d path now).1 = (indexed.resolveFile d (p.indexer.relative path)).1 := by
  rw [onFileWritten_eq hclass]
  generalize p.index d c (p.indexer.relative path) false now = result
  obtain ⟨mid, outcome⟩ := result
  cases outcome with
  | error e => exact .inl rfl
  | ok o =>
    simp only
    split
    · exact .inl rfl
    · exact .inr rfl

theorem onWatchEvent_indexer (p : Project) (d : Disk) (event : WatchEvent) (now : Time) :
    (p.onWatchEvent d event now).1.indexer = p.indexer := by
  have hwritten : (p.onFileWritten d event.path now).1.indexer = p.indexer := by
    cases hclass : p.indexer.filter.classify? (p.indexer.relative event.path) with
    | none => rw [onFileWritten_unselected hclass]
    | some c =>
      rcases onFileWritten_selected hclass d now with h | h
      · rw [h]
        exact p.index_indexer d c _ false now
      · rw [h, resolveFile, resolvePaths_indexer]
        exact p.index_indexer d c _ false now
  unfold onWatchEvent
  cases event.kind with
  | removed => exact p.removeFile_indexer event.path now
  | added => exact hwritten
  | changed => exact hwritten

end Project

/-! ## §3. Histories. -/

theorem Indexer.Records.indexKept {x : Indexer} {known : Bytes → Prop} {s s' : Store}
    (h : Records x known s) (hkept : SessionWrites.IndexKept s s') (hs' : s'.Intact) :
    Records x known s' where
  intact := hs'
  pages path := by rw [hkept.page]; exact h.pages path
  sources := by rw [hkept.allEdges]; exact h.sources

/-- A file that is listed as a source file is one by its key. -/
theorem Indexer.Records.classify_codePath {x : Indexer} {known : Bytes → Prop} {p : Project}
    (h : Records x known p.store) {path : String} (hpath : path ∈ p.codePaths) :
    x.filter.classify? path = some .code := by
  obtain ⟨row, hrow, rfl, hclass⟩ := Project.mem_codePaths.mp hpath
  have hfile := Store.file?_of_mem h.intact.paths hrow
  cases h.pages row.path with
  | vacant vacant => exact absurd (hfile.symm.trans vacant.row) (by simp)
  | file eligible isKnown pageOf =>
    obtain ⟨found, hfound, -, hfoundclass, -⟩ := pageOf.row
    have hsame : found = row := Option.some.inj (hfound.symm.trans hfile)
    subst hsame
    rw [← hclass, hfoundclass]
    exact eligible.classOf

/-- Resolving imports keeps what an index records. -/
theorem Indexer.Records.resolve {known : Bytes → Prop} {p : Project} (h : Records p.indexer known p.store)
    (d : Disk) : Records p.indexer known (p.resolve d).1.store := by
  cases hsound : p.isSound with
  | false => rw [Project.resolve, Project.resolvePaths_broken _ hsound]; exact h
  | true =>
    obtain ⟨s, report, hresolve, hs, honly, hedges⟩ := Project.resolve_sound h.intact hsound d
    rw [hresolve]
    refine ⟨hs, fun path => ?_, fun e he => ?_⟩
    · rw [honly.page]
      exact h.pages path
    · rcases (hedges e).mp he with ⟨hold, -⟩ | ⟨f, hf, hsource, -⟩
      · exact h.sources e hold
      · -- plans are made for source files only
        rw [← hsource]
        exact h.classify_codePath ((p.plan_codePaths d).subset (List.mem_map_of_mem hf))

/-- An edit of the disk, a pass without additional paths, or resolving all imports. -/
def Action.refreshes : Action → Bool
  | .edit _ => true
  | .indexAll options _ => options.additional.isEmpty
  | .resolve => true
  | _ => false

/-- The disk that an edit leaves. -/
def Action.disk? : Action → Option Disk
  | .edit disk => some disk
  | _ => none

/-- The disks of a history. -/
def disksOf (d : Disk) (history : List Action) : List Disk := d :: history.filterMap Action.disk?

/-- The contents that were below a directory at some time. -/
def contentsOf (root : String) (disks : List Disk) : List Bytes :=
  disks.flatMap fun d => d.contentsBelow root

/-- How a world stands along a history on some disks. -/
structure World.Along (x : Indexer) (disks : List Disk) (w : World) : Prop where
  indexer : w.project.indexer = x
  disk : w.disk ∈ disks
  records : Records x (· ∈ contentsOf x.root disks) w.project.store

variable {x : Indexer} {disks : List Disk}

theorem mem_contentsOf {root : String} {d : Disk} (hd : d ∈ disks) {bytes : Bytes}
    (hbytes : bytes ∈ d.contentsBelow root) : bytes ∈ contentsOf root disks :=
  List.mem_flatMap.mpr ⟨d, hd, hbytes⟩

/-- One action of a history keeps the invariant. -/
theorem step_along {w : World} (h : w.Along x disks) (hnamed : ∀ d ∈ disks, d.NamedBelow x.root)
    {a : Action} (ha : a.refreshes = true) (hdisk : ∀ d, a.disk? = some d → d ∈ disks) :
    (w.step a).Along x disks := by
  obtain ⟨rfl, hw, hrecords⟩ := h
  cases a with
  | edit disk => exact ⟨rfl, hdisk disk rfl, hrecords⟩
  | resolve =>
    refine ⟨?_, hw, hrecords.resolve w.disk⟩
    show (w.project.resolve w.disk).1.indexer = _
    cases hsound : w.project.isSound with
    | false => rw [Project.resolve, Project.resolvePaths_broken _ hsound]
    | true =>
      obtain ⟨s, report, hresolve, -⟩ := Project.resolve_sound hrecords.intact hsound w.disk
      rw [hresolve]
  | indexAll options now =>
    obtain ⟨force, additional⟩ := options
    have hadditional : additional = [] := by simpa [Action.refreshes] using ha
    subst hadditional
    obtain ⟨hindexer, s, hs, hkept, hintact⟩ := w.project.indexAll_index w.disk ⟨force, []⟩ now
    -- a pass that did not run, or failed, leaves the index that there was
    have hpass : Records w.project.indexer (· ∈ contentsOf w.project.indexer.root disks) s := by
      rcases hs with rfl | rfl
      · exact hrecords
      · exact hrecords.indexAll (hnamed w.disk hw) (fun bytes => mem_contentsOf hw) force
    exact ⟨hindexer, hw, hpass.indexKept hkept (hintact hpass.intact)⟩
  | index | remove | watch | startSession => exact absurd ha (by simp [Action.refreshes])

/-- So does a whole history. -/
theorem run_along (history : List Action) :
    ∀ {w : World}, w.Along x disks → (∀ d ∈ disks, d.NamedBelow x.root) →
      (∀ a ∈ history, a.refreshes = true) → (∀ d ∈ history.filterMap Action.disk?, d ∈ disks) →
      (w.run history).Along x disks := by
  induction history with
  | nil => intro w h _ _ _; exact h
  | cons a rest ih =>
    intro w h hnamed hrefreshes hdisks
    have hstep := step_along h hnamed (hrefreshes a List.mem_cons_self) fun d hd =>
      hdisks d (List.mem_filterMap.mpr ⟨a, List.mem_cons_self, hd⟩)
    refine ih hstep hnamed (fun b hb => hrefreshes b (List.mem_cons_of_mem _ hb)) fun d hd => ?_
    obtain ⟨b, hb, hsome⟩ := List.mem_filterMap.mp hd
    exact hdisks d (List.mem_filterMap.mpr ⟨b, List.mem_cons_of_mem _ hb, hsome⟩)

/-! ## §4. The last pass. -/

variable {d : Disk} {files : List Discovered}

theorem Indexer.Mirrors.indexKept {s s' : Store} (h : Mirrors x d files s)
    (hkept : SessionWrites.IndexKept s s') (hs' : s'.Intact) : Mirrors x d files s' where
  intact := hs'
  eligible := h.eligible
  selected f hf := by rw [hkept.page]; exact h.selected f hf
  others path hpath := by rw [hkept.page]; exact h.others path hpath
  sources := by rw [hkept.allEdges]; exact h.sources

/-- The imports after resolving are those of the plan: the index has no others. Every importing file
has a row, is a source file by its key, and so has been read by the last pass. -/
theorem Indexer.Mirrors.edges_planned {p : Project} (h : Mirrors p.indexer d files p.store) {e : Edge}
    (he : e ∈ p.store.allEdges) : e.source ∈ (p.plan d).files.map (·.path) := by
  have hclass := h.sources e he
  obtain ⟨id, -, -, hsource, -⟩ := h.intact.mem_allEdges_iff.mp he
  obtain ⟨row, hrow, hpath, -⟩ := Store.fileId?_eq_some hsource
  have hfile := Store.file?_of_mem h.intact.paths hrow
  rw [hpath] at hfile
  by_cases hselected : e.source ∈ files.map (·.path)
  · -- a selected source file can be read and is text, so it has a plan
    obtain ⟨f, hf, hfpath⟩ := List.mem_map.mp hselected
    obtain ⟨bytes, hread, hpage⟩ := h.selected f hf
    have hcode : f.fileClass = .code := by
      have heligible := (h.eligible f hf).classOf
      rw [hfpath, hclass] at heligible
      exact (Option.some.inj heligible).symm
    rw [hfpath] at hread hpage
    rw [hcode] at hpage
    obtain ⟨found, hfound, hfoundpath, hfoundclass, -⟩ := hpage.row
    have hmem : e.source ∈ p.codePaths :=
      Project.mem_codePaths.mpr ⟨found, (Store.file?_eq_some hfound).1, hfoundpath, hfoundclass⟩
    generalize p.store.page e.source = page at hpage
    cases hpage with
    | code decoded =>
      obtain ⟨imports, himports⟩ := importsOf_of_read hread decoded
      exact Resolve.Surroundings.mem_plan_paths _ hmem himports
  · exact absurd (hfile.symm.trans (h.others e.source hselected).row) (by simp)

/-- **Projects that mirror one disk hold the same once their imports are resolved.** -/
theorem resolve_agrees {p q : Project} (hindexer : q.indexer = p.indexer)
    (hp : Mirrors p.indexer d files p.store) (hq : Mirrors p.indexer d files q.store)
    (hpsound : p.isSound = true) (hqsound : q.isSound = true) :
    (∃ report, (p.resolve d).2 = .ok report) ∧ (∃ report, (q.resolve d).2 = .ok report)
      ∧ (p.resolve d).1.store.SameIndex (q.resolve d).1.store := by
  have hpages := hp.pages_agree hq
  -- both projects make one plan
  have hcode : p.codePaths = q.codePaths := by
    have hlisted := Store.listFiles_agree hp.intact hq.intact (fun path => (hpages path).row)
      (some .code)
    unfold Project.codePaths
    have hmapped := congrArg (List.map FileInfo.path) hlisted
    rwa [List.map_map, List.map_map] at hmapped
  have hplan : q.plan d = p.plan d := by
    unfold Project.plan Project.root
    rw [hindexer, hcode]
  obtain ⟨s, report, hresolve, hs, honly, hedges⟩ := Project.resolve_sound hp.intact hpsound d
  obtain ⟨t, report', hresolve', ht, honly', hedges'⟩ := Project.resolve_sound hq.intact hqsound d
  rw [hresolve, hresolve']
  refine ⟨⟨report, rfl⟩, ⟨report', rfl⟩, .of_pages hs ht (fun path => ?_) ?_⟩
  · rw [honly.page, honly'.page]
    exact hpages path
  · refine Store.allEdges_eq hs ht fun e => ?_
    have hqplanned : ∀ e ∈ q.store.allEdges, e.source ∈ (q.plan d).files.map (·.path) := by
      intro e he
      rw [← hindexer] at hq
      exact hq.edges_planned he
    have hmakes : (p.plan d).Makes p.store e ↔ (q.plan d).Makes q.store e := by
      have hrow : ∀ path, (p.store.file? path).isSome = (q.store.file? path).isSome := by
        intro path
        have hsome := congrArg Option.isSome (hpages path).row
        rwa [Option.isSome_map, Option.isSome_map] at hsome
      unfold Resolve.Plan.Makes
      rw [hplan, hrow, hrow]
    -- what was there before resolving is replaced on both sides
    rw [hedges, hedges', ← hmakes]
    constructor
    · rintro (⟨he, hnot⟩ | hmade)
      · exact absurd (hp.edges_planned he) hnot
      · exact .inr hmade
    · rintro (⟨he, hnot⟩ | hmade)
      · exact absurd (hqplanned e he) hnot
      · exact .inr hmade

/-- What was indexed once can be indexed again. -/
theorem Indexer.PageOf.accepted {path : String} {c : FileClass} {bytes : Bytes} {page : Page}
    (h : PageOf x path c bytes page) (hread : x.read d path = .ok bytes) (force : Bool) (old : Page) :
    x.refusal? d force old c path = none := by
  unfold refusal?
  rw [hread]
  cases h with
  | code decoded => simp [decoded]
  | doc => simp

/-- A pass over an empty index reports no changes. -/
theorem fresh_unchanged {s : Store} {force : Bool} {report : PassReport}
    (hpaths : ∀ path, x.PathPass d force files path (Store.empty.page path) (s.page path)
      (pending path report.diffs)) :
    ∀ diff ∈ report.diffs, diff.changes = [] := by
  intro diff hdiff
  have hnone : pending diff.path report.diffs = [] := by
    have hreread := (hpaths diff.path).reread
    have hempty : (Store.empty.page diff.path).snapshot = none := rfl
    rw [hempty] at hreread
    generalize (s.page diff.path).snapshot = snapshot at hreread
    generalize pending diff.path report.diffs = changes at hreread
    -- without a snapshot there is nothing to compare with
    cases hreread with
    | same => rfl
    | first => rfl
  unfold pending at hnone
  exact List.flatMap_eq_nil_iff.mp hnone diff (List.mem_filter.mpr ⟨hdiff, by simp⟩)

/-- If an index mirrors the disk, then a pass over an empty one succeeds without errors, and its index
mirrors the disk too. -/
theorem fresh_mirrors {q : Project} (hindexer : q.indexer = x) (hempty : q.store = Store.empty)
    (hsound : q.condition = .sound) (hnamed : d.NamedBelow x.root)
    (hdigest : ∀ a ∈ d.contentsBelow x.root, ∀ b ∈ d.contentsBelow x.root,
      Digest.ofBytes a = Digest.ofBytes b → a = b)
    (hselected : x.selected d [] = .ok files) {s : Store} (hs : Mirrors x d files s)
    (force : Bool) (now : Time) :
    ∃ t report, q.indexAll d ⟨force, []⟩ now = ({ q with store := t }, .ok report)
      ∧ report.errors = [] ∧ Mirrors x d files t := by
  obtain ⟨t, report, hpass, -, -, -, hfound, -, hpaths⟩ :=
    @Indexer.indexAll_paths x d Store.empty Store.intact_empty ⟨force, []⟩ files hselected
  have herrors : report.errors = [] := by
    rw [hfound, List.filterMap_eq_nil_iff]
    intro f hf
    obtain ⟨bytes, hread, hpage⟩ := hs.selected f hf
    exact hpage.accepted hread force _
  refine ⟨t, report, ?_, herrors, ?_⟩
  · unfold Project.indexAll
    rw [hsound, hempty, hindexer]
    simp only [hpass]
    rw [Project.onFileDiffs_unchanged (fresh_unchanged hpaths) rfl]
    rfl
  · exact .of_indexAll (.empty x (· ∈ d.contentsBelow x.root)) hnamed (fun _ h => h)
      (fun a b ha hb => hdigest a ha b hb) (by simp [Store.empty]) hselected hpass herrors

/-! ## §5. Any history against none. -/

/-- **Indexing again is indexing anew.** A project starts with an empty store and goes through any
history of edits, passes and resolving. No name below the root has a backslash, and the digests of the
contents tell them apart. If a last pass reports no errors, and every row is that of a regular file or
of nothing, then resolving imports succeeds. So does a pass over the same disk by a new project,
without errors, and resolving after it, and both indices hold the same. -/
theorem incremental_as_fresh {root : String} {config : Config} {session session' : String}
    {p q : Project} (hopen : Project.ofStore root config session Store.empty = .ok p)
    (hfresh : Project.ofStore root config session' Store.empty = .ok q) (d : Disk)
    (history : List Action) (hrefreshes : ∀ a ∈ history, a.refreshes = true)
    (hnamed : ∀ disk ∈ disksOf d history, disk.NamedBelow root)
    (hdigest : ∀ a ∈ contentsOf root (disksOf d history), ∀ b ∈ contentsOf root (disksOf d history),
      Digest.ofBytes a = Digest.ofBytes b → a = b)
    (force force' : Bool) (now now' : Time) :
    let w := World.run ⟨d, p⟩ history
    let again := w.project.indexAll w.disk ⟨force, []⟩ now
    let anew := q.indexAll w.disk ⟨force', []⟩ now'
    ∀ report, again.2 = .ok report → report.errors = [] →
      (∀ row ∈ w.project.store.files, w.disk.isFile (Path.under root row.path) = true
        ∨ w.disk.exists? (Path.under root row.path) = false) →
      (∃ report', anew.2 = .ok report' ∧ report'.errors = [])
        ∧ (∃ resolved, (again.1.resolve w.disk).2 = .ok resolved)
        ∧ (∃ resolved, (anew.1.resolve w.disk).2 = .ok resolved)
        ∧ (again.1.resolve w.disk).1.store.SameIndex (anew.1.resolve w.disk).1.store := by
  intro w again anew report hreport herrors hrows
  obtain ⟨filter, hfilter, hp⟩ := Project.ofStore_eq_ok hopen
  obtain ⟨filter', hfilter', hq⟩ := Project.ofStore_eq_ok hfresh
  have hsame : filter' = filter := Except.ok.inj (hfilter'.symm.trans hfilter)
  have hqindexer : q.indexer = ⟨root, config, filter⟩ := by rw [hq, hsame]
  -- the index records contents along the history
  have halong : w.Along ⟨root, config, filter⟩ (disksOf d history) := by
    refine run_along history ⟨by rw [hp], List.mem_cons_self, ?_⟩ hnamed hrefreshes
      fun disk hdisk => List.mem_cons_of_mem _ hdisk
    rw [hp]
    exact .empty _ _
  obtain ⟨hindexer, hw, hrecords⟩ := halong
  -- the last pass leaves a mirror of the disk
  obtain ⟨s, hpass, hagain, hsound⟩ :=
    Project.indexAll_eq_ok (Prod.ext (rfl : again.1 = again.1) hreport)
  rw [hindexer] at hpass
  obtain ⟨files, hselected⟩ := Indexer.selected_of_indexAll hpass
  have hmirror : Mirrors ⟨root, config, filter⟩ w.disk files s :=
    .of_indexAll hrecords (hnamed w.disk hw) (fun bytes => mem_contentsOf hw)
      (fun a b ha hb => hdigest a ha b hb) hrows hselected hpass herrors
  obtain ⟨hkeptIndexer, hkept, hintact⟩ :=
    Project.onFileDiffs_index report.diffs now { w.project with store := s }
  rw [← hagain] at hkeptIndexer hkept hintact
  have hagainIndexer : again.1.indexer = ⟨root, config, filter⟩ := hkeptIndexer.trans hindexer
  have hagainMirrors := hmirror.indexKept hkept (hintact hmirror.intact)
  -- and so does the pass of the new project
  obtain ⟨t, report', hanew, herrors', hanewMirrors⟩ :=
    fresh_mirrors hqindexer (by rw [hq]) (by rw [hq]) (hnamed w.disk hw)
      (fun a ha b hb => hdigest a (mem_contentsOf hw ha) b (mem_contentsOf hw hb)) hselected hmirror
      force' now'
  have hanewProject : anew.1 = { q with store := t } := congrArg Prod.fst hanew
  have hanewIndexer : anew.1.indexer = again.1.indexer := by
    rw [hanewProject, hagainIndexer]
    exact hqindexer
  have hanewSound : anew.1.isSound = true := by
    rw [hanewProject, hq]
    rfl
  refine ⟨⟨report', congrArg Prod.snd hanew, herrors'⟩, ?_⟩
  refine resolve_agrees hanewIndexer (hagainIndexer ▸ hagainMirrors) ?_ hsound hanewSound
  rw [hagainIndexer, hanewProject]
  exact hanewMirrors

/-- A file goes, comes back without its content, and gets its content back. -/
def goesAndReturns : List Action :=
  [.indexAll ⟨false, []⟩ 0, .resolve, .edit ⟨[([['p']], .directory)], []⟩, .indexAll ⟨true, []⟩ 1,
    .edit (pythonTree []), .indexAll ⟨false, []⟩ 2, .resolve, .edit (pythonTree definesF)]

theorem incremental_as_fresh_after_return :
    let w := World.run ⟨pythonTree definesF, pythonProject⟩ goesAndReturns
    let again := w.project.indexAll w.disk ⟨false, []⟩ 3
    let anew := pythonProject.indexAll w.disk ⟨false, []⟩ 4
    ((again.1.resolve w.disk).1.store.symbolsFor "a.py").map (·.symbol.name) = ["f"]
      ∧ (∃ report', anew.2 = .ok report' ∧ report'.errors = [])
      ∧ (∃ resolved, (again.1.resolve w.disk).2 = .ok resolved)
      ∧ (∃ resolved, (anew.1.resolve w.disk).2 = .ok resolved)
      ∧ (again.1.resolve w.disk).1.store.SameIndex (anew.1.resolve w.disk).1.store := by
  intro w again anew
  have hopen : Project.ofStore "/p" pythonConfig "first" Store.empty = .ok pythonProject := rfl
  have hnamed : ∀ disk ∈ disksOf (pythonTree definesF) goesAndReturns, disk.NamedBelow "/p" := by
    intro disk hdisk
    have hall : ∀ disk ∈ disksOf (pythonTree definesF) goesAndReturns,
        ∀ entry ∈ disk.entries, ∀ n ∈ entry.1, Path.IsName n := by decide
    exact .of_entries (hall disk hdisk)
  have hreport : again.2 = .ok ⟨0, 1, 0, 0, [], [⟨"a.py", false,
      [⟨.added, "f", .function, none, some "def f()", "function `f` added"⟩]⟩]⟩ := by decide +kernel
  refine ⟨by decide +kernel, ?_⟩
  exact incremental_as_fresh hopen hopen (pythonTree definesF) goesAndReturns (by decide) hnamed
    (by decide +kernel) false false 3 4 _ hreport rfl (by decide +kernel)

/-! ## §6. Names with a backslash. -/

/-- Settings under which the files of one directory are indexed. -/
def belowConfig : Config := ⟨[("python", ["a/*.py"])], [], [], 10, 1000, Thresholds.default⟩

/-- What these settings select. -/
def belowFilter : FileFilter :=
  ⟨[⟨[.literal 'a', .literal '/', .run, .literal '.', .literal 'p', .literal 'y']⟩], [], []⟩

/-- A project that was just opened. -/
def belowProject : Project :=
  ⟨⟨"/p", belowConfig, belowFilter⟩, .empty, .new "/p" .default .indexed none "first", .sound, false⟩

/-- A project in which nothing is selected, and more files. -/
def belowTree (more : List (Location × Entry)) : Disk :=
  ⟨([['p']], .directory) :: ([['p'], ['a']], .directory) :: ([['p'], ['a'], ['c']], .file [])
    :: ([['p'], ['b', '.', 'p', 'y']], .file []) :: more, []⟩

/-- A file whose name has backslashes. Its key `a/../b.py` leads to another file. -/
def backslashFile : Location × Entry :=
  ([['p'], ['a', '\\', '.', '.', '\\', 'b', '.', 'p', 'y']], .file [])

/-- Such a file is indexed and goes. -/
def backslashGoes : List Action := [.indexAll ⟨false, []⟩ 0, .edit (belowTree [])]

/-- Without the condition on names, a row can stay when its file has gone. -/
theorem backslash_row_stays :
    Project.ofStore "/p" belowConfig "first" Store.empty = .ok belowProject
      ∧ (∀ a ∈ backslashGoes, a.refreshes = true)
      ∧ (∀ a ∈ contentsOf "/p" (disksOf (belowTree [backslashFile]) backslashGoes),
        ∀ b ∈ contentsOf "/p" (disksOf (belowTree [backslashFile]) backslashGoes),
          Digest.ofBytes a = Digest.ofBytes b → a = b)
      ∧ (let w := World.run ⟨belowTree [backslashFile], belowProject⟩ backslashGoes
        let again := w.project.indexAll w.disk ⟨false, []⟩ 1
        let anew := belowProject.indexAll w.disk ⟨false, []⟩ 2
        again.2 = .ok ⟨0, 0, 0, 0, [], []⟩
          ∧ (∀ row ∈ w.project.store.files, w.disk.isFile (Path.under "/p" row.path) = true
            ∨ w.disk.exists? (Path.under "/p" row.path) = false)
          ∧ ((again.1.resolve w.disk).1.store.listFiles none).map (·.path) = ["a/../b.py"]
          ∧ ((anew.1.resolve w.disk).1.store.listFiles none).map (·.path) = []
          ∧ ¬ (again.1.resolve w.disk).1.store.SameIndex (anew.1.resolve w.disk).1.store) := by
  refine ⟨rfl, by decide, by decide +kernel, ?_⟩
  intro w again anew
  have hagain : ((again.1.resolve w.disk).1.store.listFiles none).map (·.path) = ["a/../b.py"] := by
    decide +kernel
  have hanew : ((anew.1.resolve w.disk).1.store.listFiles none).map (·.path) = [] := by
    decide +kernel
  refine ⟨by decide +kernel, by decide +kernel, hagain, hanew, fun hsame => ?_⟩
  have hfiles := congrArg (List.map FileInfo.path) (hsame.files none)
  rw [List.map_map, List.map_map] at hfiles
  exact absurd (hagain.symm.trans (hfiles.trans hanew)) (by decide)

end CodeIndex
