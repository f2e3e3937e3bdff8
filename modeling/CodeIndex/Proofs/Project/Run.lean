import Mathlib
import CodeIndex.Project.Watch
import CodeIndex.Proofs.Index.Pass
import CodeIndex.Proofs.Resolve.Apply
import CodeIndex.Proofs.Session.ChangeLog

/-!
# Runs of a project

A world is a disk and a project over it. The disk is changed by others at will, and the project is
asked to index, to remove, to handle what a watcher reports, to resolve imports and to start sessions.

What an action does to one file is the same in all cases (`Advances`): its snapshot stays, or is taken
for the first time, or is compared with a new one, and then the changes that the comparison found are
logged, each once. If the project breaks on the way, the last of them may be missing, and nothing
happens from then on.

Main result: `step_advances`.
-/

namespace CodeIndex

/-! ## §1. Worlds. -/

/-- A project and the disk it lives on. -/
structure World where
  disk : Disk
  project : Project

/-- What may happen in a world. -/
inductive Action where
  /-- The disk is changed in any way. -/
  | edit (disk : Disk)
  | indexAll (options : PassOptions) (now : Time)
  | index (c : FileClass) (path : String) (force : Bool) (now : Time)
  | remove (path : String) (now : Time)
  | watch (event : WatchEvent) (now : Time)
  | startSession (mode : SessionMode) (label : Option String) (session : String)
  | resolve

namespace World

/-- What an action leaves. -/
def step (w : World) : Action → World
  | .edit disk => { w with disk := disk }
  | .indexAll options now => { w with project := (w.project.indexAll w.disk options now).1 }
  | .index c path force now => { w with project := (w.project.index w.disk c path force now).1 }
  | .remove path now => { w with project := (w.project.removeFile path now).1 }
  | .watch event now => { w with project := (w.project.onWatchEvent w.disk event now).1 }
  | .startSession mode label session =>
    { w with project := (w.project.startSession mode label session).1 }
  | .resolve => { w with project := (w.project.resolve w.disk).1 }

/-- What actions leave, one after another. -/
def run (w : World) (actions : List Action) : World := actions.foldl step w

theorem run_concat (w : World) (actions : List Action) (a : Action) :
    w.run (actions ++ [a]) = (w.run actions).step a := by
  unfold run
  rw [List.foldl_append]
  rfl

end World

/-! ## §2. Snapshots and changes of one file. -/

namespace Indexer

variable {x : Indexer} {d : Disk} {force : Bool} {path : String}

theorem Prune.reread {old new : Page} {changes : List SymbolChange} (h : Prune x d path old new changes) :
    Reread old.snapshot new.snapshot changes := by
  cases h with
  | present => exact .same _
  | vanished missing reread => exact reread

/-- A visit that leaves the snapshot alone finds no changes; any other has found the file. -/
theorem Visit.reread {c : FileClass} {old new : Page} {changes : List SymbolChange}
    (h : Visit x d force c path old new changes) :
    (new.snapshot = old.snapshot ∧ changes = [])
      ∨ (Reread old.snapshot new.snapshot changes ∧ d.exists? (x.place path) = true) := by
  cases h with
  | refused => exact .inl ⟨rfl, rfl⟩
  | current => exact .inl ⟨rfl, rfl⟩
  | code ofClass read decoded => exact .inr ⟨.of_comparison _ path _, exists_of_read read⟩
  | doc => exact .inl ⟨rfl, rfl⟩

/-- A pass compares a file once at most: a file that was found is not taken away. -/
theorem PathPass.reread {files : List Discovered} {old new : Page} {changes : List SymbolChange}
    (h : PathPass x d force files path old new changes) :
    Reread old.snapshot new.snapshot changes := by
  obtain ⟨mid, visited, pruned, rfl, hvisit, hprune⟩ := h
  have hmid : (mid.snapshot = old.snapshot ∧ visited = [])
      ∨ (Reread old.snapshot mid.snapshot visited ∧ d.exists? (x.place path) = true) := by
    rcases hvisit with ⟨f, -, -, hvisit⟩ | ⟨-, rfl, rfl⟩
    · exact hvisit.reread
    · exact .inl ⟨rfl, rfl⟩
  have hnew : (new = mid ∧ pruned = []) ∨ (Prune x d path mid new pruned) := by
    rcases hprune with ⟨-, hprune⟩ | ⟨-, rfl, rfl⟩
    · exact .inr hprune
    · exact .inl ⟨rfl, rfl⟩
  rcases hmid with ⟨hsnapshot, rfl⟩ | ⟨hreread, hexists⟩
  · rw [← hsnapshot, List.nil_append]
    rcases hnew with ⟨rfl, rfl⟩ | hprune
    · exact .same _
    · exact hprune.reread
  · -- the file is there, so that its row stays
    have hkept : new = mid ∧ pruned = [] := by
      rcases hnew with hkept | hprune
      · exact hkept
      · exact hprune.of_exists hexists
    rw [hkept.1, hkept.2, List.append_nil]
    exact hreread

end Indexer

/-! ## §3. Observing. -/

/-- What reports list of one name in one file. -/
theorem listed_of (file name : String) (diffs : List FileDiff) :
    ((diffs.flatMap (·.listed)).filter fun c => c.file == file && c.name == name).map (·.kind)
      = changesOf name (pending file diffs) := by
  induction diffs with
  | nil => rfl
  | cons diff rest ih =>
    have hpending : pending file (diff :: rest) = pending file [diff] ++ pending file rest :=
      pending_append file [diff] rest
    have hone : (diff.listed.filter fun c => c.file == file && c.name == name).map (·.kind)
        = changesOf name (pending file [diff]) := by
      unfold FileDiff.listed changesOf
      by_cases hpath : diff.path = file
      · simp [pending, hpath, List.filter_map, Function.comp_def]
      · simp [pending, hpath]
    rw [List.flatMap_cons, List.filter_append, List.map_append, ih, hone, hpending]
    unfold changesOf
    rw [List.filter_append, List.map_append]

namespace Project

/-- The rows of a project hang together, and its observer finds its session. -/
structure Good (p : Project) : Prop where
  intact : p.store.Intact
  ready : p.observer.Ready p.store

/-- A project that was just opened. -/
theorem ofStore_eq_ok {root : String} {config : Config} {session : String} {s : Store} {p : Project}
    (h : ofStore root config session s = .ok p) :
    ∃ filter, FileFilter.ofConfig config = .ok filter
      ∧ p = ⟨⟨root, config, filter⟩, s, .new root config.thresholds .indexed none session, .sound,
        false⟩ := by
  unfold ofStore at h
  split at h
  next => exact absurd h (by simp)
  next filter hfilter =>
    injection h with h
    exact ⟨filter, hfilter, h.symm⟩

theorem onFileDiff_of_broken {p : Project} (h : p.isSound = false) (diff : FileDiff) (now : Time) :
    p.onFileDiff diff now = p := by
  unfold onFileDiff
  rw [h]
  rfl

theorem onFileDiff_good {p : Project} (h : p.Good) (hsound : p.isSound = true) {diff : FileDiff}
    (hfirst : diff.isFirst = true → diff.changes = []) (now : Time) :
    (p.onFileDiff diff now).Good
      ∧ (p.onFileDiff diff now).store.changeLog = p.store.changeLog ++ diff.listed
      ∧ SessionWrites.IndexKept p.store (p.onFileDiff diff now).store := by
  have hlog := Observer.onFileDiff_log h.ready hfirst now
  have hwrites := Observer.onFileDiff_writes p.observer p.store diff now
  unfold onFileDiff
  rw [if_pos hsound]
  exact ⟨⟨hwrites.intact h.intact, hlog.2⟩, hlog.1, hwrites.indexKept⟩

/-- The changes of some files are logged, up to the report at which the project breaks. -/
theorem onFileDiffs_good (diffs : List FileDiff) (now : Time) :
    ∀ {p : Project}, p.Good → (∀ diff ∈ diffs, diff.isFirst = true → diff.changes = []) →
      (p.onFileDiffs diffs now).Good
        ∧ SessionWrites.IndexKept p.store (p.onFileDiffs diffs now).store
        ∧ ∃ seen, seen <+: diffs ∧ ((p.onFileDiffs diffs now).isSound = true → seen = diffs)
          ∧ (p.onFileDiffs diffs now).store.changeLog
            = p.store.changeLog ++ seen.flatMap (·.listed) := by
  induction diffs with
  | nil =>
    intro p hgood _
    exact ⟨hgood, .refl _, [], List.prefix_refl _, fun _ => rfl, by simp [onFileDiffs]⟩
  | cons diff rest ih =>
    intro p hgood hfirsts
    have hstep : p.onFileDiffs (diff :: rest) now = (p.onFileDiff diff now).onFileDiffs rest now := rfl
    have hrest : ∀ other ∈ rest, other.isFirst = true → other.changes = [] :=
      fun other hother => hfirsts other (List.mem_cons_of_mem _ hother)
    cases hsound : p.isSound with
    | false =>
      rw [hstep, onFileDiff_of_broken hsound]
      -- a broken project passes over all that is left
      have hbroken : p.onFileDiffs rest now = p := by
        clear ih hrest hstep hfirsts
        induction rest with
        | nil => rfl
        | cons other rest ih =>
          show (p.onFileDiff other now).onFileDiffs rest now = p
          rw [onFileDiff_of_broken hsound, ih]
      rw [hbroken]
      exact ⟨hgood, .refl _, [], List.nil_prefix,
        fun h => absurd (hsound.symm.trans h) (by simp), by simp⟩
    | true =>
      obtain ⟨hgood', hlog, hkept⟩ := onFileDiff_good hgood hsound
        (hfirsts diff List.mem_cons_self) now
      obtain ⟨hgood'', hkept', seen, hseen, hall, hlog'⟩ := ih hgood' hrest
      rw [hstep]
      refine ⟨hgood'', hkept.trans hkept', diff :: seen, (List.prefix_cons_inj diff).mpr hseen,
        fun h => by rw [hall h], ?_⟩
      rw [hlog', hlog, List.append_assoc, List.flatMap_cons]

/-! ## §4. Actions. -/

/-- What an action does to each file: its snapshot may be taken or compared, and the changes that were
found are logged, all of them unless the project broke. A broken project does nothing any more. -/
structure Advances (p p' : Project) : Prop where
  good : p'.Good
  files : ∀ file, ∃ changes seen,
    Reread (p.store.snapshot? file) (p'.store.snapshot? file) changes
      ∧ seen <+: changes ∧ (p'.isSound = true → seen = changes)
      ∧ ∀ name, p'.store.changeLogOf file name
        = p.store.changeLogOf file name ++ changesOf name seen
  broken : p.isSound = false → p'.store = p.store ∧ p'.isSound = false

theorem Advances.refl {p : Project} (h : p.Good) : Advances p p where
  good := h
  files file := ⟨[], [], .same _, List.prefix_refl _, fun _ => rfl, by simp [changesOf]⟩
  broken hbroken := ⟨rfl, hbroken⟩

/-- Nothing is said of a project but what is in its store and whether it is sound. -/
theorem Advances.congr {p mid p' : Project} (h : Advances p mid) (hgood : p'.Good)
    (hsnapshots : ∀ file, p'.store.snapshot? file = mid.store.snapshot? file)
    (hevents : p'.store.events = mid.store.events)
    (hsound : p'.isSound = true → mid.isSound = true)
    (hbroken : p.isSound = false → p'.store = p.store ∧ p'.isSound = false) : Advances p p' where
  good := hgood
  files file := by
    obtain ⟨changes, seen, hreread, hseen, hall, hlog⟩ := h.files file
    have hlogs : ∀ name, p'.store.changeLogOf file name = mid.store.changeLogOf file name := by
      intro name
      unfold Store.changeLogOf Store.changeLog
      rw [hevents]
    exact ⟨changes, seen, hsnapshots file ▸ hreread, hseen, fun h => hall (hsound h),
      fun name => (hlogs name).trans (hlog name)⟩
  broken := hbroken

/-- A sound project whose store was brought up to date observes what was found. -/
theorem advances_of_reread {p : Project} (h : p.Good) (hsound : p.isSound = true) {s : Store}
    (hs : s.Intact) (hkept : p.store.SessionsKept s) {diffs : List FileDiff}
    (hfirsts : ∀ diff ∈ diffs, diff.isFirst = true → diff.changes = [])
    (hreread : ∀ file, Reread (p.store.snapshot? file) (s.snapshot? file) (pending file diffs))
    (now : Time) : Advances p ({ p with store := s }.onFileDiffs diffs now) := by
  have hready : p.observer.Ready s := by
    intro hbegun
    unfold Store.hasSession
    rw [hkept.sessions]
    exact h.ready hbegun
  obtain ⟨hgood, hindex, seen, hseen, hall, hlog⟩ :=
    @onFileDiffs_good diffs now { p with store := s } ⟨hs, hready⟩ hfirsts
  refine ⟨hgood, fun file => ?_, fun hbroken => absurd (hsound.symm.trans hbroken) (by simp)⟩
  -- of the reports of one file, a first part was seen too
  obtain ⟨unseen, rfl⟩ := hseen
  refine ⟨pending file (seen ++ unseen), pending file seen, ?_, ?_, ?_, fun name => ?_⟩
  · have hsnapshot : ({ p with store := s }.onFileDiffs (seen ++ unseen) now).store.snapshot? file
        = s.snapshot? file := Store.snapshot?_congr hindex.snapshotFiles hindex.snapshots file
    rw [hsnapshot]
    exact hreread file
  · rw [pending_append]
    exact List.prefix_append _ _
  · intro hstill
    rw [← hall hstill]
  · have hbefore : s.changeLog = p.store.changeLog := by
      unfold Store.changeLog
      rw [hkept.events]
    unfold Store.changeLogOf
    rw [hlog, hbefore, List.filter_append, List.map_append, listed_of]

/-- So does one in which the page of one path was rewritten. -/
theorem advances_of_rewrites {p : Project} (h : p.Good) (hsound : p.isSound = true) {s : Store}
    {path : String} (hrewrites : p.store.Rewrites s path) {diffs : List FileDiff}
    (hreread : Reread (p.store.snapshot? path) (s.snapshot? path) (pending path diffs))
    (hdiffs : ∀ diff ∈ diffs, diff.path = path ∧ (diff.isFirst = true → diff.changes = []))
    (now : Time) : Advances p ({ p with store := s }.onFileDiffs diffs now) := by
  refine advances_of_reread h hsound hrewrites.intact hrewrites.kept
    (fun diff hmem => (hdiffs diff hmem).2) (fun file => ?_) now
  -- no other file has been compared or reported
  by_cases hfile : file = path
  · rw [hfile]
    exact hreread
  · have hsnapshot : s.snapshot? file = p.store.snapshot? file :=
      congrArg Page.snapshot (hrewrites.others file hfile)
    have hnone : pending file diffs = [] := by
      unfold pending
      rw [List.filter_eq_nil_iff.mpr, List.flatMap_nil]
      intro diff hmem heq
      exact hfile ((by simpa using heq : diff.path = file).symm.trans (hdiffs diff hmem).1)
    rw [hsnapshot, hnone]
    exact .same _

theorem unlessCrashed_fst {α : Type} (p : Project) (result : α) : (p.unlessCrashed result).1 = p := by
  unfold unlessCrashed
  split <;> rfl

/-- What may come of a pass over a project. -/
inductive PassOutcome (p : Project) (d : Disk) (options : PassOptions) (now : Time) :
    Project × Except ProjectFailure PassReport → Prop where
  /-- The project is broken. -/
  | broken {e : ProjectFailure} (unsound : p.isSound = false) : PassOutcome p d options now (p, .error e)
  /-- The pass fails as a whole. -/
  | failed {s : Store} {e : PassFailure} (sound : p.isSound = true)
      (pass : p.indexer.indexAll d p.store options = (s, .error e)) :
      PassOutcome p d options now ({ p with store := s }, .error (.pass e))
  /-- The project breaks while the changes are observed. -/
  | crashed {s : Store} {report : PassReport} (sound : p.isSound = true)
      (pass : p.indexer.indexAll d p.store options = (s, .ok report)) :
      PassOutcome p d options now
        ({ { p with store := s }.onFileDiffs report.diffs now with condition := .broken true },
          .error .crashed)
  /-- The changes have been observed. -/
  | passed {s : Store} {report : PassReport} (sound : p.isSound = true)
      (pass : p.indexer.indexAll d p.store options = (s, .ok report))
      (still : ({ p with store := s }.onFileDiffs report.diffs now).isSound = true) :
      PassOutcome p d options now ({ p with store := s }.onFileDiffs report.diffs now, .ok report)

theorem indexAll_outcome (p : Project) (d : Disk) (options : PassOptions) (now : Time) :
    PassOutcome p d options now (p.indexAll d options now) := by
  obtain ⟨indexer, store, observer, condition, isNew⟩ := p
  cases condition with
  | broken inPass =>
    cases inPass with
    | true => exact .broken rfl
    | false =>
      unfold indexAll
      simp only
      split <;> exact .broken rfl
  | sound =>
    unfold indexAll
    simp only
    split
    next s e hpass => exact .failed rfl hpass
    next s report hpass =>
      split
      next hstill => exact .passed rfl hpass hstill
      next => exact .crashed rfl hpass

/-- What a pass over a sound project leaves in the store, whether or not the project breaks over it. -/
theorem indexAll_store {p : Project} (hsound : p.condition = .sound) {d : Disk} {options : PassOptions}
    {s : Store} {report : PassReport} (hpass : p.indexer.indexAll d p.store options = (s, .ok report))
    (now : Time) :
    (p.indexAll d options now).1.store = ({ p with store := s }.onFileDiffs report.diffs now).store := by
  unfold indexAll
  rw [hsound, hpass]
  simp only
  split <;> rfl

variable {p : Project} (h : p.Good) (d : Disk) (now : Time)

include h

theorem index_advances (c : FileClass) (path : String) (force : Bool) :
    Advances p (p.index d c path force now).1 := by
  unfold index
  cases hsound : p.isSound with
  | false => exact .refl h
  | true =>
    have houtcome := Indexer.index_outcome p.indexer d h.intact c (p.indexer.relative path) force
    rw [if_neg (by simp)]
    generalize p.indexer.index d p.store c (p.indexer.relative path) force = result at houtcome
    cases houtcome with
    | refused => exact .refl h
    | current =>
      rw [unlessCrashed_fst]
      exact advances_of_reread h hsound h.intact (.refl _) (by simp) (fun file => .same _) now
    | @code bytes content s' id ofClass read decoded rewrites page =>
      rw [unlessCrashed_fst]
      refine advances_of_rewrites h hsound rewrites ?_ ?_ now
      · have hsnapshot : s'.snapshot? (p.indexer.relative path)
            = some (snapshotOf (parse (p.indexer.relative path) content).symbols) :=
          congrArg Page.snapshot page
        rw [hsnapshot, Option.toList_some, pending_comparison]
        exact .of_comparison _ _ _
      · intro diff hdiff
        obtain rfl := List.mem_singleton.mp hdiff
        exact ⟨comparison_path _ _ _, comparison_first _ _ _⟩
    | @doc bytes s' id ofClass read rewrites page =>
      rw [unlessCrashed_fst]
      refine advances_of_rewrites h hsound rewrites ?_ (by simp) now
      have hsnapshot : s'.snapshot? (p.indexer.relative path)
          = p.store.snapshot? (p.indexer.relative path) := congrArg Page.snapshot page
      rw [hsnapshot]
      exact .same _

theorem removeFile_advances (path : String) : Advances p (p.removeFile path now).1 := by
  unfold removeFile
  cases hsound : p.isSound with
  | false => exact .refl h
  | true =>
    rw [if_neg (by simp)]
    cases hrow : p.store.file? (p.indexer.relative path) with
    | none =>
      rw [Store.removeFile_of_noRow hrow]
      exact .refl h
    | some row =>
      obtain ⟨s, diff, hremove, hrewrites, -, hpath, hfirst, hreread⟩ :=
        Store.removeFile_page h.intact hrow
      rw [hremove]
      simp only [unlessCrashed_fst]
      refine @advances_of_rewrites p h hsound s _ hrewrites [diff] ?_ ?_ now
      · have hself : pending (p.indexer.relative path) [diff] = diff.changes :=
          hpath ▸ pending_self diff
        rw [hself]
        exact hreread
      · intro other hother
        obtain rfl := List.mem_singleton.mp hother
        exact ⟨hpath, hfirst⟩

theorem indexAll_advances (options : PassOptions) : Advances p (p.indexAll d options now).1 := by
  have houtcome := indexAll_outcome p d options now
  generalize p.indexAll d options now = result at houtcome
  -- a pass that succeeds and what is observed after it
  have hpassed : ∀ {s : Store} {report : PassReport}, p.isSound = true →
      p.indexer.indexAll d p.store options = (s, .ok report) →
      Advances p ({ p with store := s }.onFileDiffs report.diffs now) := by
    intro s report hsound hpass
    obtain ⟨files, hselected⟩ := Indexer.selected_of_indexAll hpass
    obtain ⟨s', report', hpass', hs, hkept, -, -, hfirsts, hpaths⟩ :=
      Indexer.indexAll_paths h.intact hselected
    obtain ⟨rfl, hreport⟩ := Prod.mk.inj (hpass.symm.trans hpass')
    obtain rfl := Except.ok.inj hreport
    exact advances_of_reread h hsound hs hkept hfirsts (fun file => (hpaths file).reread) now
  cases houtcome with
  | broken => exact .refl h
  | failed sound pass =>
    obtain rfl := Indexer.store_of_failed h.intact pass
    exact .refl h
  | passed sound pass => exact hpassed sound pass
  | crashed sound pass =>
    -- a crash leaves what was observed up to it, and a project that is not sound
    have hadvances := hpassed sound pass
    refine hadvances.congr ⟨hadvances.good.intact, hadvances.good.ready⟩ (fun _ => rfl) rfl ?_ ?_
    · intro hstill
      exact absurd hstill (by simp [isSound])
    · intro hbroken
      exact absurd (sound.symm.trans hbroken) (by simp)

omit h in
theorem resolvePaths_broken (hbroken : p.isSound = false) (paths : List String) :
    p.resolvePaths d paths = (p, .error .broken) := by
  unfold resolvePaths
  rw [hbroken]
  rfl

omit h in
/-- Resolving imports of a sound project succeeds. The imports of files with a plan are those that the
plan makes, and nothing but imports is written. -/
theorem resolvePaths_sound (hs : p.store.Intact) (hsound : p.isSound = true) (paths : List String) :
    let plan := Resolve.Surroundings.plan ⟨p.root, d, p.codePaths⟩ paths
    ∃ s report, p.resolvePaths d paths = ({ p with store := s }, .ok report) ∧ s.Intact
      ∧ Store.EdgesOnly p.store s
      ∧ ((plan.files.map (·.path)).Nodup → ∀ e, e ∈ s.allEdges ↔
        (e ∈ p.store.allEdges ∧ e.source ∉ plan.files.map (·.path)) ∨ plan.Makes p.store e) := by
  intro plan
  obtain ⟨s, report, happly, hs', honly, hedges⟩ :=
    apply_edges (Resolve.Surroundings.plan ⟨p.root, d, p.codePaths⟩ paths) hs
  refine ⟨s, report, ?_, hs', honly, hedges⟩
  unfold resolvePaths
  rw [hsound, if_neg (by simp)]
  simp only [happly]

/-- Resolving writes imports only. -/
theorem resolvePaths_good (paths : List String) :
    (p.resolvePaths d paths).1.Good ∧ Store.EdgesOnly p.store (p.resolvePaths d paths).1.store
      ∧ (p.resolvePaths d paths).1.isSound = p.isSound := by
  cases hsound : p.isSound with
  | false =>
    rw [resolvePaths_broken d hsound]
    exact ⟨h, .refl _, hsound⟩
  | true =>
    obtain ⟨s, report, hresolve, hs, honly, -⟩ := resolvePaths_sound d h.intact hsound paths
    rw [hresolve]
    refine ⟨⟨hs, fun hbegun => ?_⟩, honly, hsound⟩
    unfold Store.hasSession
    rw [honly.sessionsKept.sessions]
    exact h.ready hbegun

omit h in
/-- What an action has done is not changed by resolving imports after it. -/
theorem Advances.resolvePaths {mid : Project} (hadvances : Advances p mid) (paths : List String) :
    Advances p (mid.resolvePaths d paths).1 := by
  obtain ⟨hgood, honly, hsound⟩ := resolvePaths_good hadvances.good d paths
  refine hadvances.congr hgood (fun file => ?_) honly.sessionsKept.events (fun hstill => hsound ▸ hstill) ?_
  · rw [honly]
    rfl
  · intro hbroken
    obtain ⟨hstore, hstill⟩ := hadvances.broken hbroken
    refine ⟨?_, hsound.trans hstill⟩
    rw [resolvePaths_broken d hstill]
    exact hstore

theorem onWatchEvent_advances (event : WatchEvent) :
    Advances p (p.onWatchEvent d event now).1 := by
  have hwritten : Advances p (p.onFileWritten d event.path now).1 := by
    unfold onFileWritten
    simp only
    split
    next => exact .refl h
    next c hclass =>
      have hindex := index_advances h d now c (p.indexer.relative event.path) false
      -- whether the index was written or not, imports are all that may be written after it
      generalize p.index d c (p.indexer.relative event.path) false now = result at hindex
      obtain ⟨mid, outcome⟩ := result
      cases outcome with
      | error e =>
        cases e with
        | file e => cases e <;> exact hindex
        | _ => exact hindex
      | ok o =>
        simp only
        split
        · exact hindex
        · exact hindex.resolvePaths d _
  unfold onWatchEvent
  cases event.kind with
  | removed => exact removeFile_advances h now event.path
  | added => exact hwritten
  | changed => exact hwritten

theorem startSession_advances (mode : SessionMode) (label : Option String) (session : String) :
    Advances p (p.startSession mode label session).1 := by
  unfold startSession
  cases hsound : p.isSound with
  | false => exact .refl h
  | true =>
    -- a new observer has not begun its session
    refine (Advances.refl h).congr ⟨h.intact, fun hbegun => ?_⟩ (fun _ => rfl) rfl (fun _ => hsound) ?_
    · exact absurd hbegun (by simp [Observer.new])
    · intro hbroken
      exact absurd (hsound.symm.trans hbroken) (by simp)

end Project

/-- **Every action advances a project.** -/
theorem step_advances {w : World} (h : w.project.Good) (a : Action) :
    Project.Advances w.project (w.step a).project := by
  cases a with
  | edit disk => exact .refl h
  | indexAll options now => exact Project.indexAll_advances h w.disk now options
  | index c path force now => exact Project.index_advances h w.disk now c path force
  | remove path now => exact Project.removeFile_advances h now path
  | watch event now => exact Project.onWatchEvent_advances h w.disk now event
  | startSession mode label session => exact Project.startSession_advances h mode label session
  | resolve => exact (Project.Advances.refl h).resolvePaths w.disk _

/-! ## §5. A small project. -/

/-- Settings under which the files of one language are indexed. -/
def pythonConfig : Config := ⟨[("python", ["*.py"])], [], [], 10, 1000, Thresholds.default⟩

/-- What these settings select. -/
def pythonFilter : FileFilter := ⟨[⟨[.run, .literal '.', .literal 'p', .literal 'y']⟩], [], []⟩

/-- A project that was just opened. -/
def pythonProject : Project :=
  ⟨⟨"/p", pythonConfig, pythonFilter⟩, .empty, .new "/p" .default .indexed none "first", .sound, false⟩

/-- A project with one file, which holds the given bytes. -/
def pythonTree (bytes : Text.Bytes) : Disk :=
  ⟨[([['p']], .directory), ([['p'], ['a', '.', 'p', 'y']], .file bytes)], []⟩

/-- Settings with a window that reaches past the times that can be told. -/
def endlessConfig : Config :=
  { pythonConfig with thresholds := { Thresholds.default with thrashWindow := 9223372036854775807 } }

def endlessProject : Project :=
  ⟨⟨"/p", endlessConfig, pythonFilter⟩, .empty, .new "/p" endlessConfig.thresholds .indexed none "first", .sound,
    false⟩

/-- Two files, which hold the same bytes. -/
def pythonPair (bytes : Text.Bytes) : Disk :=
  ⟨[([['p']], .directory), ([['p'], ['a', '.', 'p', 'y']], .file bytes),
    ([['p'], ['b', '.', 'p', 'y']], .file bytes)], []⟩

/-- The text `def f():`. -/
def definesF : Text.Bytes := [100, 101, 102, 32, 102, 40, 41, 58]

end CodeIndex
