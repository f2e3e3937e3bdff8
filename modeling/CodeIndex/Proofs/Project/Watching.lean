import Mathlib
import CodeIndex.Proofs.Index.Imports
import CodeIndex.Proofs.Project.Leads

/-!
# The imports of a watched project

A watched project hears of one path at a time. The file there is indexed and its imports are resolved;
if it has gone, it is removed with the imports at either end. The imports of other files are not looked
at again.

So what is stored of a file is where its imports led when they were last resolved, less the targets that
have gone since (`World.held`). Resolving all imports would store where they lead now. A file is behind if
the two differ. It falls behind when another file comes or goes that one of its imports might mean, and
catches up when it is indexed itself.

Main result: `watched_imports_current`.
-/

namespace CodeIndex

open Resolve (Surroundings)

/-! ## §1. Events. -/

namespace Project

variable {p p' : Project} {d : Disk} {path : String}

/-- The key of the file that an event is about. -/
def keyOf (p : Project) (event : WatchEvent) : String :=
  match event.kind with
  | .removed => p.indexer.relative event.path
  | _ => p.indexer.relative (p.indexer.relative event.path)

/-- Whether a file that was added or changed is indexed. One that is not selected, that cannot be
indexed, or whose row has its digest, is passed over. -/
def indexes (p : Project) (d : Disk) (path : String) (now : Time) : Bool :=
  match p.indexer.filter.classify? (p.indexer.relative path) with
  | none => false
  | some c =>
    match (p.index d c (p.indexer.relative path) false now).2 with
    | .ok o => o.status ≠ .skipped
    | .error _ => false

/-- Whether an event brings the index in line with its file. -/
def refreshes (p : Project) (d : Disk) (event : WatchEvent) (now : Time) : Bool :=
  match event.kind with
  | .removed => true
  | _ => p.indexes d event.path now

/-- A file follows what is done to others: its row stays, and so do its imports of files that have
rows. -/
structure Follows (p p' : Project) (path : String) : Prop where
  row : p'.store.file? path = p.store.file? path
  edges : ∀ e : Edge, e.source = path →
    (e ∈ p'.store.allEdges ↔ e ∈ p.store.allEdges ∧ p'.hasRow e.target = true)

theorem Follows.refl (h : p.store.Intact) (path : String) : Follows p p path where
  row := rfl
  edges _ _ := ⟨fun he => ⟨he, (h.rows_of_edge he).2⟩, fun he => he.1⟩

theorem Follows.indexKept {mid : Project} (h : Follows p mid path)
    (hkept : SessionWrites.IndexKept mid.store p'.store) : Follows p p' path := by
  have hfile : ∀ name, p'.store.file? name = mid.store.file? name := by
    intro name
    unfold Store.file?
    rw [hkept.files]
  refine ⟨(hfile path).trans h.row, fun e hsource => ?_⟩
  rw [hkept.allEdges, h.edges e hsource]
  unfold hasRow
  rw [hfile]

theorem Follows.resolvePaths {mid : Project} (h : Follows p mid path) (hmid : mid.store.Intact) (d : Disk)
    {paths : List String} (hnodup : paths.Nodup) (hpath : path ∉ paths) :
    Follows p (mid.resolvePaths d paths).1 path := by
  have hfile : ∀ name, (mid.resolvePaths d paths).1.store.file? name = mid.store.file? name :=
    fun name => congrArg Page.row ((resolvePaths_edgesOnly hmid d paths).page name)
  refine ⟨(hfile path).trans h.row, fun e hsource => ?_⟩
  rw [resolvePaths_others hmid hnodup (fun hmem => absurd (hsource ▸ hmem) hpath), h.edges e hsource]
  unfold hasRow
  rw [hfile]

/-- Other files follow a page that is written. -/
theorem Follows.of_written (h : p.store.Intact) {s : Store} {key : String}
    (hrewrites : p.store.Rewrites s key) (hrow : (s.file? key).isSome = true) (hne : path ≠ key)
    (hedges : ∀ e : Edge, e.source = path → (e ∈ s.allEdges ↔ e ∈ p.store.allEdges)) :
    Follows p { p with store := s } path where
  row := congrArg Page.row (hrewrites.others path hne)
  edges e hsource := by
    rw [hedges e hsource]
    refine ⟨fun he => ⟨he, ?_⟩, fun he => he.1⟩
    show (s.file? e.target).isSome = true
    by_cases htarget : e.target = key
    · rw [htarget]
      exact hrow
    · have hsame : s.file? e.target = p.store.file? e.target :=
        congrArg Page.row (hrewrites.others e.target htarget)
      rw [hsame]
      exact (h.rows_of_edge he).2

/-- Other files follow a page that is removed: their imports of it have gone with it. -/
theorem Follows.of_removed (h : p.store.Intact) {s : Store} {key : String} {diff : FileDiff}
    (hremove : p.store.removeFile key = some (s, diff)) (hrewrites : p.store.Rewrites s key)
    (hrow : s.file? key = none) (hne : path ≠ key) : Follows p { p with store := s } path where
  row := congrArg Page.row (hrewrites.others path hne)
  edges e hsource := by
    show e ∈ s.allEdges ↔ e ∈ p.store.allEdges ∧ (s.file? e.target).isSome = true
    rw [Store.removeFile_allEdges h hremove]
    constructor
    · rintro ⟨he, -, htarget⟩
      have hsame : s.file? e.target = p.store.file? e.target :=
        congrArg Page.row (hrewrites.others e.target htarget)
      exact ⟨he, by rw [hsame]; exact (h.rows_of_edge he).2⟩
    · rintro ⟨he, hrow'⟩
      refine ⟨he, hsource ▸ hne, ?_⟩
      rintro rfl
      rw [hrow] at hrow'
      exact absurd hrow' (by simp)

/-- What is done about one file: others follow, and if it was refreshed, what is stored of it is where its
imports lead. -/
structure Applied (p p' : Project) (d : Disk) (key : String) (refreshed : Bool) : Prop where
  follows : ∀ path, path ≠ key ∨ refreshed = false → Follows p p' path
  settled : refreshed = true → p'.Holds key (p'.leads d key)

theorem Applied.passed (h : p.store.Intact) (hkept : SessionWrites.IndexKept p.store p'.store)
    (d : Disk) (key : String) : Applied p p' d key false where
  follows path _ := (Follows.refl h path).indexKept hkept
  settled hrefreshed := absurd hrefreshed (by simp)

theorem Holds.of_noCode (h : p.store.Intact)
    (hrow : ∀ row, p.store.file? path = some row → row.fileClass ≠ .code) (led : Option Leads) :
    p.Holds path led := by
  intro hcode
  obtain ⟨row, hfile, hclass⟩ := (mem_codePaths_iff h).mp hcode
  exact absurd hclass (hrow row hfile)

theorem removeFile_applied (h : p.Good) (d : Disk) (path : String) (now : Time)
    (hstill : (p.removeFile path now).1.isSound = true) :
    Applied p (p.removeFile path now).1 d (p.indexer.relative path) true := by
  have hgood := (removeFile_advances h now path).good
  cases hrow : p.store.file? (p.indexer.relative path) with
  | none =>
    have hsame : (p.removeFile path now).1 = p := by
      unfold removeFile
      rw [Store.removeFile_of_noRow hrow]
      split <;> rfl
    rw [hsame]
    refine ⟨fun other _ => .refl h.intact other, fun _ => .of_noCode h.intact ?_ _⟩
    intro row hfile
    rw [hrow] at hfile
    exact absurd hfile (by simp)
  | some row =>
    obtain ⟨s, diff, hremove, hrewrites, hpage, -⟩ := Store.removeFile_page h.intact hrow
    have hgone : s.file? (p.indexer.relative path) = none := congrArg Page.row hpage
    have hsound : p.isSound = true := by
      by_contra hbroken
      have hadvances := (removeFile_advances h now path).broken (by simpa using hbroken)
      rw [hadvances.2] at hstill
      exact absurd hstill (by simp)
    have hafter : (p.removeFile path now).1 = { p with store := s }.onFileDiffs [diff] now := by
      unfold removeFile
      rw [hsound, if_neg (by simp), hremove]
      exact unlessCrashed_fst _ _
    obtain ⟨-, hkept, -⟩ := onFileDiffs_index [diff] now { p with store := s }
    rw [← hafter] at hkept
    refine ⟨fun other hother => ?_, fun _ => .of_noCode hgood.intact ?_ _⟩
    · have hne : other ≠ p.indexer.relative path := hother.resolve_right (by simp)
      exact (Follows.of_removed h.intact hremove hrewrites hgone hne).indexKept hkept
    · intro other hother
      rw [← Store.page_row, hkept.page, Store.page_row, hgone] at hother
      exact absurd hother (by simp)

/-- What indexing a file does to imports. A file that is skipped leaves the index as it is. One that is
written has a row of its class, and the other files follow. -/
theorem index_follows (h : p.Good) {c : FileClass} {name : String} {force : Bool} {now : Time}
    {o : FileOutcome} (hresult : p.index d c name force now = (p', .ok o)) :
    (o.status = .skipped → SessionWrites.IndexKept p.store p'.store)
      ∧ (o.status ≠ .skipped →
        (∃ row, p'.store.file? (p.indexer.relative name) = some row ∧ row.fileClass = c)
          ∧ ∀ other, other ≠ p.indexer.relative name → Follows p p' other) := by
  obtain ⟨s, hwritten, hafter, -⟩ := index_eq_ok hresult
  obtain ⟨-, hkept, -⟩ := onFileDiffs_index o.diff.toList now { p with store := s }
  rw [← hafter] at hkept
  obtain ⟨hskipped, hedges⟩ := Indexer.index_allEdges h.intact hwritten
  refine ⟨fun hstatus => hskipped hstatus ▸ hkept, fun hstatus => ?_⟩
  obtain ⟨hrewrites, row, hrow, hclass⟩ : p.store.Rewrites s (p.indexer.relative name)
      ∧ ∃ row, s.file? (p.indexer.relative name) = some row ∧ row.fileClass = c := by
    have houtcome := Indexer.index_outcome p.indexer d h.intact c (p.indexer.relative name) force
    rw [hwritten] at houtcome
    cases houtcome with
    | current => exact absurd rfl hstatus
    | code ofClass read decoded rewrites page =>
      exact ⟨rewrites, _, congrArg Page.row page, ofClass.symm⟩
    | doc ofClass read rewrites page => exact ⟨rewrites, _, congrArg Page.row page, ofClass.symm⟩
  refine ⟨⟨row, ?_, hclass⟩, fun other hne => ?_⟩
  · rw [← Store.page_row, hkept.page]
    exact hrow
  · refine (Follows.of_written h.intact hrewrites (by rw [hrow]; rfl) hne fun e hsource => ?_).indexKept hkept
    -- only the imports of the file itself are cleared
    rw [hedges hstatus e]
    exact ⟨fun he => he.1, fun he => ⟨he, fun _ => hsource ▸ hne⟩⟩

theorem onFileWritten_applied (h : p.Good) (d : Disk) (path : String) (now : Time)
    (hstill : (p.onFileWritten d path now).1.isSound = true) :
    Applied p (p.onFileWritten d path now).1 d (p.indexer.relative (p.indexer.relative path))
      (p.indexes d path now) := by
  have hsame : SessionWrites.IndexKept p.store p.store := .refl _
  unfold indexes
  cases hclass : p.indexer.filter.classify? (p.indexer.relative path) with
  | none =>
    rw [onFileWritten_unselected hclass]
    exact .passed h.intact hsame d _
  | some c =>
    have hindexer := p.index_indexer d c (p.indexer.relative path) false now
    have hgood := (index_advances h d now c (p.indexer.relative path) false).good
    rw [onFileWritten_eq hclass] at hstill ⊢
    simp only
    generalize hresult : p.index d c (p.indexer.relative path) false now = result at hindexer hgood hstill ⊢
    obtain ⟨mid, outcome⟩ := result
    replace hindexer : mid.indexer = p.indexer := hindexer
    cases outcome with
    | error e =>
      -- what stands in the way of a file leaves the project as it is
      have hmid : mid = p := by
        refine (index_eq_error hresult).resolve_right fun hbroken => ?_
        rw [show mid.isSound = true from hstill] at hbroken
        exact absurd hbroken (by simp)
      subst hmid
      exact .passed h.intact hsame d _
    | ok o =>
      obtain ⟨-, -, -, hsound⟩ := index_eq_ok hresult
      obtain ⟨hskipped, hwritten⟩ := index_follows h hresult
      by_cases hstatus : o.status = .skipped
      · simp only [hstatus, decide_true, Bool.true_or, if_true, ne_eq, not_true_eq_false, decide_false]
        exact .passed h.intact (hskipped hstatus) d _
      · obtain ⟨⟨row, hrow, hrowclass⟩, hfollows⟩ := hwritten hstatus
        cases c with
        | doc =>
          -- a document has no imports
          simp only [hstatus, decide_true, Bool.or_true, if_true, ne_eq, not_false_eq_true]
          refine ⟨fun other hother => hfollows other (hother.resolve_right (by simp)), fun _ => ?_⟩
          refine .of_noCode hgood.intact (fun other hother => ?_) _
          rw [hrow, Option.some.injEq] at hother
          rw [← hother, hrowclass]
          decide
        | code =>
          simp only [hstatus, decide_false, Bool.or_self, if_false, Bool.false_eq_true, ne_eq,
            not_false_eq_true, decide_true, resolveFile, hindexer, reduceCtorEq]
          refine ⟨fun other hother => ?_, fun _ => ?_⟩
          · have hne := hother.resolve_right (by simp)
            exact (hfollows other hne).resolvePaths hgood.intact d (List.nodup_singleton _)
              (by simpa using hne)
          · rw [resolvePaths_leads hgood.intact]
            exact resolvePaths_holds hgood.intact (List.nodup_singleton _) hsound
              (List.mem_singleton_self _)

/-- **What an event does to imports.** -/
theorem onWatchEvent_applied (h : p.Good) (d : Disk) (event : WatchEvent) (now : Time)
    (hstill : (p.onWatchEvent d event now).1.isSound = true) :
    Applied p (p.onWatchEvent d event now).1 d (p.keyOf event) (p.refreshes d event now) := by
  unfold onWatchEvent keyOf refreshes at *
  cases hkind : event.kind with
  | removed =>
    simp only [hkind] at hstill ⊢
    exact removeFile_applied h d event.path now hstill
  | added =>
    simp only [hkind] at hstill ⊢
    exact onFileWritten_applied h d event.path now hstill
  | changed =>
    simp only [hkind] at hstill ⊢
    exact onFileWritten_applied h d event.path now hstill

end Project

/-! ## §2. Watching. -/

/-- The disk changes, and the watcher tells of one path. -/
structure Incident where
  disk : Disk
  event : WatchEvent
  now : Time

namespace World

/-- What is left when the disk has changed and the project has heard of it. -/
def meet (w : World) (n : Incident) : World := w.run [.edit n.disk, .watch n.event n.now]

/-- What incidents leave, one after another. -/
def meetAll (w : World) (incidents : List Incident) : World := incidents.foldl meet w

/-- Where the imports of a file lead. -/
def leads (w : World) (path : String) : Option Leads := w.project.leads w.disk path

/-- Whether an incident brings the index in line with a file. -/
def refreshes (w : World) (n : Incident) (path : String) : Bool :=
  path == w.project.keyOf n.event && w.project.refreshes n.disk n.event n.now

/-- Where the imports of a file led when they were last resolved, less the targets that have gone since. -/
def held (path : String) : World → Option Leads → List Incident → Option Leads
  | _, led, [] => led
  | w, led, n :: rest =>
    held path (w.meet n)
      (if w.refreshes n path then (w.meet n).leads path
        else led.map (·.keep (w.meet n).project.hasRow))
      rest

/-- Whether a source file is behind after some incidents: its imports lead elsewhere than what is held of
them. -/
def behind (w : World) (incidents : List Incident) (path : String) : Bool :=
  Leads.outdated path ((w.meetAll incidents).leads path) (held path w (w.leads path) incidents)
    && (w.meetAll incidents).project.codePaths.contains path

variable {w : World} {path : String}

theorem meet_good (h : w.project.Good) (n : Incident) : (w.meet n).project.Good :=
  (step_advances (w := ⟨n.disk, w.project⟩) h (.watch n.event n.now)).good

/-- A project that is sound was so before. -/
theorem sound_of_meet (h : w.project.Good) {n : Incident} (hstill : (w.meet n).project.isSound = true) :
    w.project.isSound = true := by
  by_contra hbroken
  have hadvances := step_advances (w := ⟨n.disk, w.project⟩) h (.watch n.event n.now)
  have hstill' : (w.meet n).project.isSound = false := (hadvances.broken (by simpa using hbroken)).2
  rw [hstill'] at hstill
  exact absurd hstill (by simp)

/-- A file that an incident does not refresh follows it. -/
theorem meet_follows (h : w.project.Good) {n : Incident} (hstill : (w.meet n).project.isSound = true)
    (hrefreshed : w.refreshes n path = false) : w.project.Follows (w.meet n).project path := by
  refine (Project.onWatchEvent_applied h n.disk n.event n.now hstill).follows path ?_
  by_cases hpath : path = w.project.keyOf n.event
  · exact .inr (by simpa [refreshes, hpath] using hrefreshed)
  · exact .inl hpath

theorem codePaths_of_follows (h : w.project.Good) {n : Incident}
    (hfollows : w.project.Follows (w.meet n).project path) :
    path ∈ (w.meet n).project.codePaths ↔ path ∈ w.project.codePaths := by
  rw [Project.mem_codePaths_iff (meet_good h n).intact, Project.mem_codePaths_iff h.intact, hfollows.row]

/-- **What is stored of a file is what is held of it**, one incident later. -/
theorem meet_holds (h : w.project.Good) {led : Option Leads}
    (hholds : w.project.isSound = true → w.project.Holds path led) (n : Incident)
    (hstill : (w.meet n).project.isSound = true) :
    (w.meet n).project.Holds path (if w.refreshes n path then (w.meet n).leads path
      else led.map (·.keep (w.meet n).project.hasRow)) := by
  cases hrefreshed : w.refreshes n path with
  | true =>
    simp only [refreshes, Bool.and_eq_true, beq_iff_eq] at hrefreshed
    obtain ⟨rfl, hrefreshed⟩ := hrefreshed
    exact (Project.onWatchEvent_applied h n.disk n.event n.now hstill).settled hrefreshed
  | false =>
    have hfollows := meet_follows h hstill hrefreshed
    intro hcode leads hleads e hsource
    obtain ⟨before, rfl, rfl⟩ := Option.map_eq_some_iff.mp hleads
    have hbefore := hholds (sound_of_meet h hstill) ((codePaths_of_follows h hfollows).mp hcode)
      before rfl e hsource
    rw [Leads.mem_edges_keep, ← hbefore]
    exact hfollows.edges e hsource

/-- So it is after any number of them. -/
theorem meetAll_holds (incidents : List Incident) :
    ∀ {w : World} {led : Option Leads}, w.project.Good →
      (w.project.isSound = true → w.project.Holds path led) →
      (w.meetAll incidents).project.isSound = true →
      (w.meetAll incidents).project.Holds path (held path w led incidents) := by
  induction incidents with
  | nil =>
    intro w led _ hholds hstill
    exact hholds hstill
  | cons n rest ih =>
    intro w led h hholds hstill
    exact ih (meet_good h n) (meet_holds h hholds n) hstill

theorem meetAll_good (incidents : List Incident) :
    ∀ {w : World}, w.project.Good → (w.meetAll incidents).project.Good := by
  induction incidents with
  | nil => intro w h; exact h
  | cons n rest ih => intro w h; exact ih (meet_good h n)

theorem meetAll_concat (w : World) (incidents : List Incident) (n : Incident) :
    w.meetAll (incidents ++ [n]) = (w.meetAll incidents).meet n := by
  unfold meetAll
  rw [List.foldl_concat]

theorem held_concat (incidents : List Incident) (n : Incident) :
    ∀ (w : World) (led : Option Leads), held path w led (incidents ++ [n])
      = if (w.meetAll incidents).refreshes n path then (w.meetAll (incidents ++ [n])).leads path
        else (held path w led incidents).map (·.keep (w.meetAll (incidents ++ [n])).project.hasRow) := by
  induction incidents with
  | nil => intro w led; rfl
  | cons first rest ih => intro w led; exact ih (w.meet first) _

/-! ## §3. Falling behind. -/

section Alone

/-- An incident is about one file alone: of the other files with a row, none has changed on the disk. -/
def About (w : World) (n : Incident) : Prop :=
  ∀ row ∈ w.project.store.files, row.path ≠ w.project.keyOf n.event →
    n.disk.entry (w.project.indexer.place row.path) = w.disk.entry (w.project.indexer.place row.path)

variable (h : w.project.Good) {n : Incident} (hstill : (w.meet n).project.isSound = true)
  (habout : w.About n)

theorem meet_root (w : World) (n : Incident) : (w.meet n).project.root = w.project.root :=
  congrArg Indexer.root (w.project.onWatchEvent_indexer n.disk n.event n.now)

include habout in
theorem meet_entry (hcode : path ∈ w.project.codePaths) (hne : path ≠ w.project.keyOf n.event) :
    n.disk.entry (Path.under w.project.root path) = w.disk.entry (Path.under w.project.root path) := by
  obtain ⟨row, hrow, rfl, -⟩ := Project.mem_codePaths.mp hcode
  exact habout row hrow hne

include habout in
theorem meet_importsOf (hcode : path ∈ w.project.codePaths) (hne : path ≠ w.project.keyOf n.event) :
    ((w.meet n).project.around n.disk).importsOf path = (w.project.around w.disk).importsOf path := by
  unfold Surroundings.importsOf Project.around Disk.read
  simp only [meet_root, meet_entry habout hcode hne]

include h hstill habout

theorem meet_accepts {importer other : String} (hne : other ≠ w.project.keyOf n.event) :
    ((w.meet n).project.around n.disk).accepts importer other
      = (w.project.around w.disk).accepts importer other := by
  have hfollows := (Project.onWatchEvent_applied h n.disk n.event n.now hstill).follows other (.inl hne)
  have hknown : (w.meet n).project.codePaths.contains other = w.project.codePaths.contains other := by
    rw [Bool.eq_iff_iff, List.contains_iff_mem, List.contains_iff_mem]
    exact codePaths_of_follows h hfollows
  unfold Surroundings.accepts Project.around Disk.isFile
  simp only [meet_root, hknown]
  cases hcode : w.project.codePaths.contains other with
  | false => simp
  | true => rw [meet_entry habout (List.contains_iff_mem.mp hcode) hne]

/-- The imports of a file that could not mean the file of the incident lead where they led. -/
theorem meet_leads (hcode : path ∈ w.project.codePaths) (hne : path ≠ w.project.keyOf n.event)
    (hcandidates : ∀ imports, (w.project.around w.disk).importsOf path = .ok imports →
      ∀ i ∈ imports, w.project.keyOf n.event ∉ Resolve.candidates path i.source) :
    (w.meet n).leads path = (w.leads path).map (·.keep (w.meet n).project.hasRow) := by
  show Option.map _ (Except.toOption (((w.meet n).project.around n.disk).importsOf path)) = _
  unfold leads Project.leads
  rw [meet_importsOf habout hcode hne]
  cases himports : (w.project.around w.disk).importsOf path with
  | error failure => rfl
  | ok imports =>
    simp only [Except.toOption, Option.map_some, Leads.keep, List.map_map, Option.some.injEq]
    refine List.map_congr_left fun i hi => ?_
    have hnot := hcandidates imports himports i hi
    have hcandidate : ∀ other ∈ Resolve.candidates path i.source, other ≠ w.project.keyOf n.event :=
      fun other hother heq => hnot (heq ▸ hother)
    have hsame : ((w.meet n).project.around n.disk).target? path i.source
        = (w.project.around w.disk).target? path i.source :=
      List.find?_congr fun other hother => meet_accepts h hstill habout (hcandidate other hother)
    simp only [Function.comp_apply]
    show (i, ((w.meet n).project.around n.disk).target? path i.source) = _
    rw [hsame]
    -- where it leads is one of the other files, and these have kept their rows
    cases htarget : (w.project.around w.disk).target? path i.source with
    | none => rfl
    | some target =>
      have hother := hcandidate target (List.mem_of_find?_eq_some htarget)
      have hfollows := (Project.onWatchEvent_applied h n.disk n.event n.now hstill).follows target
        (.inl hother)
      have hrow : (w.meet n).project.hasRow target = true := by
        have hbefore := Project.hasRow_of_target htarget
        unfold Project.hasRow at hbefore ⊢
        rw [← hbefore]
        exact congrArg Option.isSome hfollows.row
      simp [Option.filter, hrow]

end Alone

/-- **Which files fall behind** when an incident is about one file alone: that file, if it is passed over,
and those with an import that might mean it. -/
theorem falls_behind (h : w.project.Good) {incidents : List Incident} {n : Incident}
    (habout : (w.meetAll incidents).About n)
    (hstill : ((w.meetAll incidents).meet n).project.isSound = true)
    (hnot : w.behind incidents path = false) (hbehind : w.behind (incidents ++ [n]) path = true) :
    (path = (w.meetAll incidents).project.keyOf n.event
        ∧ (w.meetAll incidents).refreshes n path = false)
      ∨ ∃ imports,
        ((w.meetAll incidents).project.around (w.meetAll incidents).disk).importsOf path = .ok imports
          ∧ ∃ i ∈ imports,
            (w.meetAll incidents).project.keyOf n.event ∈ Resolve.candidates path i.source := by
  have hgood := meetAll_good incidents h
  unfold behind at hnot hbehind
  rw [held_concat, meetAll_concat] at hbehind
  generalize held path w (w.leads path) incidents = led at hnot hbehind
  generalize w.meetAll incidents = v at *
  by_cases hpath : path = v.project.keyOf n.event
  · refine .inl ⟨hpath, ?_⟩
    by_contra hrefreshed
    rw [if_pos (by simpa using hrefreshed), Leads.outdated_self, Bool.false_and] at hbehind
    exact absurd hbehind (by simp)
  · refine .inr ?_
    by_contra hnone
    have hrefreshed : v.refreshes n path = false := by simp [refreshes, hpath]
    rw [hrefreshed, if_neg (by simp), Bool.and_eq_true, List.contains_iff_mem,
      codePaths_of_follows hgood (meet_follows hgood hstill hrefreshed)] at hbehind
    obtain ⟨hbehind, hcode⟩ := hbehind
    rw [List.contains_iff_mem.mpr hcode, Bool.and_true] at hnot
    rw [meet_leads hgood hstill habout hcode hpath fun imports himports i hi hmem =>
      hnone ⟨imports, himports, i, hi, hmem⟩, Leads.outdated_keep _ hnot] at hbehind
    exact absurd hbehind (by simp)

/-! ## §4. Watching against resolving. -/

section Current

variable {incidents : List Incident} (h : w.project.Good)
  (hholds : w.project.isSound = true → w.project.Holds path (w.leads path))
  (hsound : (w.meetAll incidents).project.isSound = true)

include h hsound

theorem resolved_iff {now : Leads} (hcode : path ∈ (w.meetAll incidents).project.codePaths)
    (hleads : (w.meetAll incidents).leads path = some now) {e : Edge} (hsource : e.source = path) :
    e ∈ ((w.meetAll incidents).project.resolve (w.meetAll incidents).disk).1.store.allEdges
      ↔ e ∈ now.edges path := by
  have hintact := (meetAll_good incidents h).intact
  refine Project.resolve_holds hintact hsound _ path ?_ now hleads e hsource
  rw [Project.resolve, Project.resolvePaths_codePaths hintact]
  exact hcode

include hholds

/-- Resolving all imports leaves those of a file that is not behind. -/
theorem stored_of_notBehind (hnot : w.behind incidents path = false) {e : Edge}
    (hsource : e.source = path) :
    e ∈ (w.meetAll incidents).project.store.allEdges
      ↔ e ∈ ((w.meetAll incidents).project.resolve (w.meetAll incidents).disk).1.store.allEdges := by
  have hintact := (meetAll_good incidents h).intact
  have hkept : ((w.meetAll incidents).project.codePaths.contains path = true →
      (w.meetAll incidents).leads path = none) → _ := fun hread =>
    (Project.resolvePaths_others hintact (Project.codePaths_nodup hintact) fun hmem =>
      hsource ▸ hread (hsource ▸ List.contains_iff_mem.mpr hmem)).symm
  unfold behind at hnot
  rw [Bool.and_eq_false_iff] at hnot
  rcases hnot with hsame | hcode
  · unfold Leads.outdated at hsame
    split at hsame
    next hleads => exact hkept fun _ => hleads
    next => exact absurd hsame (by simp)
    next now before hleads hheld =>
      by_cases hcode : path ∈ (w.meetAll incidents).project.codePaths
      · have hstored := meetAll_holds incidents h hholds hsound hcode before hheld e hsource
        rw [hstored, resolved_iff h hsound hcode hleads hsource]
        have hedges : (now.edges path).toFinset = (before.edges path).toFinset := by simpa using hsame
        rw [← List.mem_toFinset, ← hedges, List.mem_toFinset]
      · exact hkept fun hcode' => absurd (List.contains_iff_mem.mp hcode') hcode
  · exact hkept fun hcode' => absurd (hcode.symm.trans hcode') (by simp)

/-- It changes those of a file that is behind, if something is held of it. -/
theorem stored_of_behind (hbehind : w.behind incidents path = true)
    (hheld : (held path w (w.leads path) incidents).isSome = true) :
    ∃ e : Edge, e.source = path ∧ ¬ (e ∈ (w.meetAll incidents).project.store.allEdges
      ↔ e ∈ ((w.meetAll incidents).project.resolve (w.meetAll incidents).disk).1.store.allEdges) := by
  unfold behind at hbehind
  rw [Bool.and_eq_true, List.contains_iff_mem] at hbehind
  obtain ⟨hdiffer, hcode⟩ := hbehind
  unfold Leads.outdated at hdiffer
  split at hdiffer
  next => exact absurd hdiffer (by simp)
  next hnone => exact absurd (hnone ▸ hheld) (by simp)
  next now before hleads hbefore =>
    by_contra hnone
    refine of_decide_eq_true hdiffer (Finset.ext fun e => ?_)
    rw [List.mem_toFinset, List.mem_toFinset]
    -- an import of another file is on neither side
    by_cases hsource : e.source = path
    · rw [← meetAll_holds incidents h hholds hsound hcode before hbefore e hsource,
        ← resolved_iff h hsound hcode hleads hsource]
      by_contra hdiffers
      exact hnone ⟨e, hsource, fun hiff => hdiffers hiff.symm⟩
    · exact ⟨fun he => absurd (Leads.mem_edges.mp he).1 hsource,
        fun he => absurd (Leads.mem_edges.mp he).1 hsource⟩

end Current

/-- Once all imports are resolved, what is stored of each file is where its imports lead. -/
theorem step_resolve_holds (h : w.project.Good) (path : String)
    (hsound : (w.step .resolve).project.isSound = true) :
    (w.step .resolve).project.Holds path ((w.step .resolve).leads path) := by
  have hbefore : w.project.isSound = true := (Project.resolvePaths_good h _ _).2.2 ▸ hsound
  have hleads : (w.step .resolve).leads path = w.project.leads w.disk path :=
    Project.resolvePaths_leads h.intact w.disk _ w.disk path
  rw [hleads]
  exact Project.resolve_holds h.intact hbefore w.disk path

theorem run_good (actions : List Action) :
    ∀ {w : World}, w.project.Good → (w.run actions).project.Good := by
  induction actions with
  | nil => intro w h; exact h
  | cons a rest ih => intro w h; exact ih (step_advances h a).good

end World

open World (held)

/-- **Watching keeps the imports of every file current that is not behind.** A project is opened on a
store, goes through any history, and resolves its imports. Then incidents come, one after another.

The imports of a file that is not behind are those that resolving all imports would leave, and those of a
file that is behind are not, if its imports could be read when they were last resolved. The files that import
a file are the same as after resolving, but for those that are behind. If an incident is about one file
alone, then it leaves behind only that file, where it is passed over, and files with an import that might
mean it. -/
theorem watched_imports_current {root : String} {config : Config} {session : String} {s : Store}
    {p : Project} (hs : s.Intact) (hopen : Project.ofStore root config session s = .ok p) (d : Disk)
    (history : List Action) (incidents : List Incident) :
    let w := World.run ⟨d, p⟩ (history ++ [.resolve])
    let v := w.meetAll incidents
    let full := (v.project.resolve v.disk).1
    (∀ path, w.behind incidents (v.project.indexer.relative path) = false →
        v.project.dependenciesOf path = full.dependenciesOf path)
      ∧ (∀ path, w.behind incidents (v.project.indexer.relative path) = true → v.project.isSound = true →
        (held (v.project.indexer.relative path) w (w.leads (v.project.indexer.relative path))
          incidents).isSome = true → v.project.dependenciesOf path ≠ full.dependenciesOf path)
      ∧ (∀ path, (v.project.importedBy path).map (·.filter fun e => !w.behind incidents e.source)
        = (full.importedBy path).map (·.filter fun e => !w.behind incidents e.source))
      ∧ ∀ n, v.About n → (v.meet n).project.isSound = true → ∀ path,
        w.behind incidents path = false → w.behind (incidents ++ [n]) path = true →
        (path = v.project.keyOf n.event ∧ v.refreshes n path = false)
          ∨ ∃ imports, (v.project.around v.disk).importsOf path = .ok imports
            ∧ ∃ i ∈ imports, v.project.keyOf n.event ∈ Resolve.candidates path i.source := by
  intro w v full
  have hopened : p.Good := (Project.good_ofStore hs hopen).1
  have hw : w = (World.run ⟨d, p⟩ history).step .resolve := List.foldl_concat ..
  have hgood : w.project.Good := World.run_good _ (w := ⟨d, p⟩) hopened
  have hv : v.project.Good := World.meetAll_good incidents hgood
  -- the imports of all files have just been resolved
  have hholds : ∀ path, w.project.isSound = true → w.project.Holds path (w.leads path) := by
    intro path
    rw [hw]
    exact World.step_resolve_holds (World.run_good history (w := ⟨d, p⟩) hopened) path
  have hindexer : full.indexer = v.project.indexer := v.project.resolvePaths_indexer v.disk _
  obtain ⟨hfull, -, hstill⟩ := Project.resolvePaths_good hv v.disk v.project.codePaths
  have hagree : v.project.isSound = true → ∀ e : Edge, w.behind incidents e.source = false →
      (e ∈ v.project.store.allEdges ↔ e ∈ full.store.allEdges) :=
    fun hsound e hnot => World.stored_of_notBehind hgood (hholds e.source) hsound hnot rfl
  refine ⟨fun path hnot => ?_, fun path hbehind hsound hheld hsame => ?_, fun path => ?_, ?_⟩
  · unfold Project.dependenciesOf
    rw [hindexer]
    refine Project.ask_congr hstill fun hsound => ?_
    refine Store.allEdges_filter_eq hv.intact hfull.intact fun e hsource => hagree hsound e ?_
    rw [beq_iff_eq.mp hsource]
    exact hnot
  · obtain ⟨e, hsource, hdiffers⟩ :=
      World.stored_of_behind hgood (hholds _) hsound hbehind hheld
    unfold Project.dependenciesOf Project.ask at hsame
    rw [show full.isSound = v.project.isSound from hstill, hindexer, hsound, if_pos rfl, if_pos rfl,
      Except.ok.injEq] at hsame
    refine hdiffers ?_
    have hmem : e ∈ v.project.store.dependenciesOf (v.project.indexer.relative path)
        ↔ e ∈ full.store.dependenciesOf (v.project.indexer.relative path) := iff_of_eq (congrArg _ hsame)
    simpa [Store.dependenciesOf, hsource] using hmem
  · unfold Project.importedBy
    rw [hindexer, Project.ask_map, Project.ask_map]
    refine Project.ask_congr hstill fun hsound => ?_
    unfold Store.importedBy
    rw [List.filter_filter, List.filter_filter]
    refine Store.allEdges_filter_eq hv.intact hfull.intact fun e he => hagree hsound e ?_
    simp only [Bool.and_eq_true, Bool.not_eq_true'] at he
    exact he.1
  · intro n habout hafter path hnot hbehind
    exact World.falls_behind hgood habout hafter hnot hbehind

/-! ## §5. A target that comes. -/

/-- The text `from .a import f`. -/
def importsF : Text.Bytes := [102, 114, 111, 109, 32, 46, 97, 32, 105, 109, 112, 111, 114, 116, 32, 102]

/-- A project with a file that imports another, and more files. -/
def importTree (more : List (Location × Entry)) : Disk :=
  ⟨([['p']], .directory) :: ([['p'], ['b', '.', 'p', 'y']], .file importsF) :: more, []⟩

/-- The file that is imported. -/
def importedFile : Location × Entry := ([['p'], ['a', '.', 'p', 'y']], .file definesF)

/-- The imported file comes. -/
def targetComes : Incident := ⟨importTree [importedFile], ⟨.added, "a.py"⟩, 1⟩

/-- A project with one file, whose import leads nowhere. -/
def beforeTarget : World := World.run ⟨importTree [], pythonProject⟩ ([.indexAll ⟨false, []⟩ 0] ++ [.resolve])

theorem targetComes_codePaths :
    (beforeTarget.meetAll [targetComes]).project.codePaths = ["a.py", "b.py"] :=
  Project.codePaths_eq (by decide) (by decide +kernel)

theorem targetComes_about : beforeTarget.About targetComes := by
  intro row hrow _
  have hrows : beforeTarget.project.indexer.place "b.py" = "/p/b.py"
      ∧ ∀ row ∈ beforeTarget.project.store.files, row.path = "b.py" := by decide +kernel
  rw [hrows.2 row hrow, hrows.1]
  show (importTree [importedFile]).entry "/p/b.py" = (importTree []).entry "/p/b.py"
  cbv

theorem watched_imports_current_as_target_comes :
    let v := beforeTarget.meetAll [targetComes]
    beforeTarget.behind [targetComes] "a.py" = false
      ∧ v.project.dependenciesOf "a.py" = (v.project.resolve v.disk).1.dependenciesOf "a.py"
      ∧ beforeTarget.behind [targetComes] "b.py" = true
      ∧ v.project.dependenciesOf "b.py" ≠ (v.project.resolve v.disk).1.dependenciesOf "b.py"
      ∧ (("b.py" = beforeTarget.project.keyOf targetComes.event
          ∧ beforeTarget.refreshes targetComes "b.py" = false)
        ∨ ∃ imports, (beforeTarget.project.around beforeTarget.disk).importsOf "b.py" = .ok imports
          ∧ ∃ i ∈ imports,
            beforeTarget.project.keyOf targetComes.event ∈ Resolve.candidates "b.py" i.source) := by
  intro v
  have hopen : Project.ofStore "/p" pythonConfig "first" Store.empty = .ok pythonProject := rfl
  have hcurrent := watched_imports_current Store.intact_empty hopen (importTree [])
    [.indexAll ⟨false, []⟩ 0]
  obtain ⟨hbefore, hnot, hsound, hheld, ha, hb⟩ : beforeTarget.behind [] "b.py" = false
      ∧ beforeTarget.behind [targetComes] "a.py" = false ∧ v.project.isSound = true
      ∧ (held "b.py" beforeTarget (beforeTarget.leads "b.py") [targetComes]).isSome = true
      ∧ v.project.indexer.relative "a.py" = "a.py" ∧ v.project.indexer.relative "b.py" = "b.py" := by
    decide +kernel
  have hbehind : beforeTarget.behind [targetComes] "b.py" = true := by
    unfold World.behind World.leads Project.leads Project.around
    rw [targetComes_codePaths]
    decide +kernel
  refine ⟨hnot, (hcurrent [targetComes]).1 "a.py" (ha.symm ▸ hnot), hbehind, ?_, ?_⟩
  · exact (hcurrent [targetComes]).2.1 "b.py" (hb.symm ▸ hbehind) hsound (hb.symm ▸ hheld)
  · exact (hcurrent []).2.2.2 targetComes targetComes_about hsound "b.py" hbefore hbehind

/-- A file whose import led nowhere is passed over when the target comes: resolving would find it. -/
theorem new_target_passed_over :
    let v := beforeTarget.meetAll [targetComes]
    v.project.dependenciesOf "b.py" = .ok []
      ∧ (v.project.resolve v.disk).1.dependenciesOf "b.py" = .ok [⟨"b.py", "a.py", some "f"⟩]
      ∧ v.project.importedBy "a.py" = .ok []
      ∧ (v.project.resolve v.disk).1.importedBy "a.py" = .ok [⟨"b.py", "a.py", some "f"⟩] := by
  intro v
  unfold Project.resolve Project.resolvePaths
  rw [targetComes_codePaths]
  decide +kernel

end CodeIndex
