import Mathlib
import CodeIndex.Proofs.Project.Leads
import CodeIndex.Proofs.Resolve.Count

/-!
# Resolving all imports

What a full resolve should leave can be said without the plan that it makes. A relative import leads to
the first of its candidates that fits: a source file of the index other than the importing one, and a
regular file on the disk (`LeadsTo`). A source file that can be read has the imports that lead somewhere,
under each of their names; any other file keeps what it had. Nothing else is written, so a second resolve
finds the same files, the same candidates and the same imports.

That no file imports itself is an invariant of the projects that can come about: resolving does not
write such an import, and nothing else writes any (`Reached.loopless`).

Main results:
  * `Reached.loopless` — in no project that can come about does a file import itself;
  * `resolve_dependencies` — what is stored of a source file that can be read;
  * `resolve_report` — what is counted and what is reported;
  * `full_resolve_exact` — all of this, and that a second resolve changes nothing.
-/

namespace CodeIndex

open Resolve (Surroundings candidates)

namespace Project

/-! ## §1. Projects that can come about. -/

/-- A project that has come about by what can be done to projects, from an empty index on. The disk may
be another one at every step. -/
inductive Reached : Project → Prop where
  | opened {root : String} {config : Config} {session : String} {p : Project}
      (opens : ofStore root config session Store.empty = .ok p) : Reached p
  | reopened {p p' : Project} {root : String} {config : Config} {session : String} (before : Reached p)
      (opens : ofStore root config session p.store = .ok p') : Reached p'
  | startSession {p : Project} (before : Reached p) (mode : SessionMode) (label : Option String)
      (session : String) : Reached (p.startSession mode label session).1
  | onToolCall {p : Project} (before : Reached p) (d : Disk) (call : ToolCall) (now : Time) :
      Reached (p.onToolCall d call now)
  | onFileDiff {p : Project} (before : Reached p) (diff : FileDiff) (now : Time) :
      Reached (p.onFileDiff diff now)
  | computeDiff {p : Project} (before : Reached p) (path : String) (symbols : List Symbol) :
      Reached (p.computeDiff path symbols).1
  | index {p : Project} (before : Reached p) (d : Disk) (c : FileClass) (path : String) (force : Bool)
      (now : Time) : Reached (p.index d c path force now).1
  | removeFile {p : Project} (before : Reached p) (path : String) (now : Time) :
      Reached (p.removeFile path now).1
  | indexAll {p : Project} (before : Reached p) (d : Disk) (options : PassOptions) (now : Time) :
      Reached (p.indexAll d options now).1
  | resolve {p : Project} (before : Reached p) (d : Disk) : Reached (p.resolve d).1
  | resolveFile {p : Project} (before : Reached p) (d : Disk) (path : String) :
      Reached (p.resolveFile d path).1
  | onWatchEvent {p : Project} (before : Reached p) (d : Disk) (event : WatchEvent) (now : Time) :
      Reached (p.onWatchEvent d event now).1

/-- The rows of a project hang together, and no file imports itself. -/
structure Loopless (p : Project) : Prop where
  intact : p.store.Intact
  apart : ∀ e ∈ p.store.allEdges, e.source ≠ e.target

variable {p p' : Project} {d : Disk} {path : String}

theorem Loopless.of_store (h : p.Loopless) {s : Store} (hs : s.Intact)
    (hedges : ∀ e ∈ s.allEdges, e ∈ p.store.allEdges) (hstore : p'.store = s) : p'.Loopless :=
  ⟨hstore ▸ hs, fun e he => h.apart e (hedges e (hstore ▸ he))⟩

/-- Observing writes no import. -/
theorem Loopless.onFileDiffs (h : p.Loopless) {s : Store} (hs : s.Intact)
    (hedges : ∀ e ∈ s.allEdges, e ∈ p.store.allEdges) (diffs : List FileDiff) (now : Time) :
    ({ p with store := s }.onFileDiffs diffs now).Loopless := by
  obtain ⟨-, hkept, hintact⟩ := onFileDiffs_index diffs now { p with store := s }
  exact h.of_store (hintact hs) (fun e he => hedges e (hkept.allEdges ▸ he)) rfl

theorem Loopless.index (h : p.Loopless) (d : Disk) (c : FileClass) (path : String) (force : Bool)
    (now : Time) : (p.index d c path force now).1.Loopless := by
  have houtcome := Indexer.index_outcome p.indexer d h.intact c (p.indexer.relative path) force
  unfold Project.index
  split
  · exact h
  · split
    next => exact h
    next s o hindex =>
      rw [unlessCrashed_fst]
      rw [hindex] at houtcome
      cases houtcome with
      | current => exact h.onFileDiffs h.intact (fun _ he => he) _ now
      | code _ _ _ rewrites => exact h.onFileDiffs rewrites.intact (fun _ => rewrites.allEdges h.intact) _ now
      | doc _ _ rewrites => exact h.onFileDiffs rewrites.intact (fun _ => rewrites.allEdges h.intact) _ now

theorem Loopless.removeFile (h : p.Loopless) (path : String) (now : Time) :
    (p.removeFile path now).1.Loopless := by
  unfold Project.removeFile
  split
  · exact h
  · split
    next => exact h
    next s diff hremove =>
      rw [unlessCrashed_fst]
      obtain ⟨row, hrow, -⟩ := Option.map_eq_some_iff.mp hremove
      obtain ⟨s', diff', hremove', hrewrites, -⟩ := Store.removeFile_page h.intact hrow
      rw [hremove, Option.some.injEq, Prod.mk.injEq] at hremove'
      obtain ⟨rfl, rfl⟩ := hremove'
      exact h.onFileDiffs hrewrites.intact (fun _ => hrewrites.allEdges h.intact) [diff] now

theorem Loopless.indexAll (h : p.Loopless) (d : Disk) (options : PassOptions) (now : Time) :
    (p.indexAll d options now).1.Loopless := by
  obtain ⟨-, s, hs, hkept, hintact⟩ := indexAll_index p d options now
  have hpass : s.Intact ∧ ∀ e ∈ s.allEdges, e ∈ p.store.allEdges := by
    rcases hs with rfl | rfl
    · exact ⟨h.intact, fun _ he => he⟩
    · cases hselected : p.indexer.selected d options.additional with
      | error e =>
        unfold Indexer.indexAll
        rw [hselected]
        exact ⟨h.intact, fun _ he => he⟩
      | ok files =>
        obtain ⟨s, report, hpass, hs, -, hedges, -⟩ := Indexer.indexAll_paths h.intact hselected
        rw [hpass]
        exact ⟨hs, hedges⟩
  exact h.of_store (hintact hpass.1) (fun e he => hpass.2 e (hkept.allEdges ▸ he)) rfl

/-- An import leads to another file. -/
theorem target_ne_of_mem_leads {leads : Leads} (hleads : p.leads d path = some leads) {e : Edge}
    (he : e ∈ leads.edges path) : path ≠ e.target := by
  obtain ⟨-, i, hlead, -⟩ := Leads.mem_edges.mp he
  obtain ⟨imports, -, rfl⟩ := Option.map_eq_some_iff.mp hleads
  obtain ⟨i', -, heq⟩ := List.mem_map.mp hlead
  have haccepts := List.find?_some (Prod.mk.inj heq).2
  simp only [Surroundings.accepts, Bool.and_eq_true, bne_iff_ne] at haccepts
  exact Ne.symm haccepts.1.1

/-- Resolving writes imports of other files only. -/
theorem Loopless.resolvePaths (h : p.Loopless) (d : Disk) {paths : List String} (hnodup : paths.Nodup) :
    (p.resolvePaths d paths).1.Loopless := by
  cases hsound : p.isSound with
  | false => rw [resolvePaths_broken d hsound]; exact h
  | true =>
    obtain ⟨s, report, hresolve, hs, -, hedges⟩ := resolvePaths_sound d h.intact hsound paths
    rw [hresolve]
    refine ⟨hs, fun e he => ?_⟩
    rcases (hedges (hnodup.sublist (Surroundings.plan_paths _ paths)) e).mp he with ⟨hold, -⟩ | hmade
    · exact h.apart e hold
    · have hrow : p.hasRow e.source = true := by
        obtain ⟨f, -, -, hrow, -⟩ := hmade
        exact hrow
      obtain ⟨-, leads, hleads, hmem⟩ := (plan_makes d paths hrow).mp hmade
      exact target_ne_of_mem_leads hleads hmem

/-- **No file imports itself** in a project that can come about. -/
theorem Reached.loopless (h : p.Reached) : p.Loopless := by
  induction h with
  | opened opens =>
    obtain ⟨filter, -, rfl⟩ := ofStore_eq_ok opens
    exact ⟨Store.intact_empty, by simp [Store.allEdges, Store.sortEdges, Store.empty]⟩
  | reopened before opens ih =>
    obtain ⟨filter, -, rfl⟩ := ofStore_eq_ok opens
    exact ⟨ih.intact, ih.apart⟩
  | startSession before mode label session ih =>
    unfold Project.startSession
    split
    · exact ⟨ih.intact, ih.apart⟩
    · exact ih
  | @onToolCall p before d call now ih =>
    have hwrites := Observer.onToolCall_writes p.observer d p.store call now
    unfold Project.onToolCall
    split
    · exact ih.of_store (hwrites.intact ih.intact) (fun e he => hwrites.indexKept.allEdges ▸ he) rfl
    · exact ih
  | onFileDiff before diff now ih => exact ih.onFileDiffs ih.intact (fun _ he => he) [diff] now
  | @computeDiff p before path symbols ih =>
    unfold Project.computeDiff
    split
    · exact ih
    · have hrewrites := Store.computeDiff_rewrites ih.intact (p.indexer.relative path) symbols
      exact ih.of_store hrewrites.intact (fun _ => hrewrites.allEdges ih.intact) rfl
  | index before d c path force now ih => exact ih.index d c path force now
  | removeFile before path now ih => exact ih.removeFile path now
  | indexAll before d options now ih => exact ih.indexAll d options now
  | resolve before d ih => exact ih.resolvePaths d (codePaths_nodup ih.intact)
  | resolveFile before d path ih => exact ih.resolvePaths d (List.nodup_singleton _)
  | @onWatchEvent p before d event now ih =>
    -- an event indexes a file, with its imports or without, or takes one away
    have hwritten : (p.onFileWritten d event.path now).1.Loopless := by
      cases hclass : p.indexer.filter.classify? (p.indexer.relative event.path) with
      | none => rw [onFileWritten_unselected hclass]; exact ih
      | some c =>
        have hindexed := ih.index d c (p.indexer.relative event.path) false now
        rcases onFileWritten_selected hclass d now with hsame | hresolved
        · rw [hsame]
          exact hindexed
        · rw [hresolved]
          exact hindexed.resolvePaths d (List.nodup_singleton _)
    unfold Project.onWatchEvent
    cases event.kind with
    | removed => exact ih.removeFile event.path now
    | added => exact hwritten
    | changed => exact hwritten

/-! ## §2. Where imports should lead. -/

/-- Whether an import in one file may lead to another: a source file of the index other than the
importing one, and a regular file on the disk. -/
def fits (p : Project) (d : Disk) (importer candidate : String) : Bool :=
  candidate != importer && (p.store.file? candidate).any (·.fileClass == .code)
    && d.isFile (Path.under p.root candidate)

/-- An import leads to the first of its candidates that fits. -/
def LeadsTo (p : Project) (d : Disk) (importer specifier target : String) : Prop :=
  ∃ before after, candidates importer specifier = before ++ target :: after
    ∧ p.fits d importer target = true ∧ ∀ candidate ∈ before, p.fits d importer candidate = false

/-- An import leads nowhere if none of its candidates fits. -/
def leadsNowhere (p : Project) (d : Disk) (importer : String) (i : Import) : Bool :=
  (candidates importer i.source).all fun candidate => !p.fits d importer candidate

/-- The text of a file of the project; `none` if it cannot be read or is not text. -/
def content? (p : Project) (d : Disk) (path : String) : Option (List Char) :=
  (d.read (Path.under p.root path)).toOption.bind Text.decode?

/-- What should be reported of a file: that it cannot be read, that it is not text, or each of its
relative imports that leads nowhere. -/
def failuresOf (p : Project) (d : Disk) (path : String) : List Resolve.Failure :=
  match d.read (Path.under p.root path) with
  | .error cause => [.unreadable path cause]
  | .ok bytes =>
    match Text.decode? bytes with
    | none => [.notText path]
    | some content =>
      ((parse path content).imports.filter fun i => i.isRelative && p.leadsNowhere d path i).map
        fun i => .unresolved path i.source

/-- The symbols that an import is stored under: its names, or the empty one for the whole file. -/
def storedSymbols (i : Import) : List String := if i.names.isEmpty then [""] else i.names

theorem accepts_eq_fits (hs : p.store.Intact) (d : Disk) (importer candidate : String) :
    (p.around d).accepts importer candidate = p.fits d importer candidate := by
  have hknown : p.codePaths.contains candidate
      = (p.store.file? candidate).any (·.fileClass == .code) := by
    rw [Bool.eq_iff_iff, List.contains_iff_mem, mem_codePaths_iff hs, Option.any_eq_true]
    simp
  unfold Surroundings.accepts fits around
  rw [hknown]

/-- The search for a candidate finds the one that an import leads to. -/
theorem target?_eq_some_iff (hs : p.store.Intact) {importer specifier target : String} :
    (p.around d).target? importer specifier = some target ↔ p.LeadsTo d importer specifier target := by
  unfold Surroundings.target? LeadsTo
  rw [List.find?_eq_some_iff_append]
  simp only [accepts_eq_fits hs, Bool.not_eq_true']
  constructor
  · rintro ⟨hfits, before, after, hsplit, hnone⟩
    exact ⟨before, after, hsplit, hfits, hnone⟩
  · rintro ⟨before, after, hsplit, hfits, hnone⟩
    exact ⟨hfits, before, after, hsplit, hnone⟩

theorem target?_eq_none_iff (hs : p.store.Intact) {importer : String} {i : Import} :
    (p.around d).target? importer i.source = none ↔ p.leadsNowhere d importer i = true := by
  unfold Surroundings.target? leadsNowhere
  rw [List.find?_eq_none]
  simp [accepts_eq_fits hs]

theorem content?_eq_some {content : List Char} (h : p.content? d path = some content) :
    ∃ bytes, d.read (Path.under p.root path) = .ok bytes ∧ Text.decode? bytes = some content := by
  obtain ⟨bytes, hread, hdecode⟩ := Option.bind_eq_some_iff.mp h
  refine ⟨bytes, ?_, hdecode⟩
  cases hresult : d.read (Path.under p.root path) with
  | error cause => rw [hresult] at hread; exact absurd hread (by simp [Except.toOption])
  | ok found => rw [hresult] at hread; exact congrArg Except.ok (Option.some.inj hread)

/-- The imports of a file that can be read. -/
theorem importsOf_of_content {content : List Char} (h : p.content? d path = some content) :
    (p.around d).importsOf path = .ok ((parse path content).imports.filter (·.isRelative)) := by
  obtain ⟨bytes, hread, hdecode⟩ := content?_eq_some h
  unfold Surroundings.importsOf around
  simp only [hread, hdecode]

/-- A file that cannot be read, or is not text, yields one failure and no imports. -/
theorem importsOf_of_unread (h : p.content? d path = none) :
    ∃ failure, (p.around d).importsOf path = .error failure ∧ p.failuresOf d path = [failure] := by
  unfold content? at h
  unfold Surroundings.importsOf failuresOf around
  cases hread : d.read (Path.under p.root path) with
  | error cause => exact ⟨_, rfl, rfl⟩
  | ok bytes =>
    rw [hread] at h
    have hdecode : Text.decode? bytes = none := h
    simp only [hdecode]
    exact ⟨_, rfl, rfl⟩

/-- A file has a plan if it can be read. -/
theorem leads_of_content {content : List Char} (h : p.content? d path = some content) :
    p.leads d path = some (((parse path content).imports.filter (·.isRelative)).map fun i =>
      (i, (p.around d).target? path i.source)) := by
  unfold leads
  rw [importsOf_of_content h]
  rfl

theorem leads_of_unread (h : p.content? d path = none) : p.leads d path = none := by
  obtain ⟨failure, himports, -⟩ := importsOf_of_unread h
  unfold leads
  rw [himports]
  rfl

/-- An import that leads to a file is stored once for each of its symbols. -/
theorem exists_edgesTo_iff {target : String} {i : Import} {shown : Option String} :
    (∃ planned ∈ Surroundings.edgesTo target i,
        shown = Store.Intact.shownSymbol (planned.symbol.getD ""))
      ↔ ∃ symbol ∈ storedSymbols i, shown = Store.Intact.shownSymbol symbol := by
  unfold Surroundings.edgesTo storedSymbols
  split
  · simp
  · simp

/-! ## §3. What a full resolve leaves. -/

/-- **What is stored of a source file that can be read**: where its relative imports lead, under each of
their symbols. The empty symbol is shown as none. -/
theorem resolve_dependencies (hs : p.store.Intact) (hsound : p.isSound = true) {content : List Char}
    (hpath : path ∈ p.codePaths) (hcontent : p.content? d path = some content) {e : Edge} :
    e ∈ (p.resolve d).1.store.dependenciesOf path ↔
      e.source = path ∧ ∃ i ∈ (parse path content).imports, i.isRelative = true
        ∧ p.LeadsTo d path i.source e.target
        ∧ ∃ symbol ∈ storedSymbols i, e.symbol = Store.Intact.shownSymbol symbol := by
  have hcode : path ∈ (p.resolve d).1.codePaths := by
    rw [resolve, resolvePaths_codePaths hs]
    exact hpath
  have hholds := resolve_holds hs hsound d path hcode _ (leads_of_content hcontent)
  unfold Store.dependenciesOf
  rw [List.mem_filter, beq_iff_eq, and_comm]
  refine and_congr_right fun hsource => ?_
  rw [hholds e hsource, Leads.mem_edges]
  simp only [exists_edgesTo_iff]
  constructor
  · rintro ⟨-, i, hlead, hsymbol⟩
    obtain ⟨i', hi, heq⟩ := List.mem_map.mp hlead
    obtain ⟨rfl, htarget⟩ := Prod.mk.inj heq
    obtain ⟨hmem, hrelative⟩ := List.mem_filter.mp hi
    exact ⟨i', hmem, hrelative, (target?_eq_some_iff hs).mp htarget, hsymbol⟩
  · rintro ⟨i, hmem, hrelative, hleads, hsymbol⟩
    refine ⟨hsource, i, List.mem_map.mpr ⟨i, List.mem_filter.mpr ⟨hmem, hrelative⟩, ?_⟩, hsymbol⟩
    rw [(target?_eq_some_iff hs).mpr hleads]

/-- Any other file keeps what is stored of it. -/
theorem resolve_keeps (hs : p.store.Intact) (hsound : p.isSound = true)
    (hunread : path ∈ p.codePaths → p.content? d path = none) :
    (p.resolve d).1.store.dependenciesOf path = p.store.dependenciesOf path := by
  obtain ⟨s, report, hresolve, hs', -⟩ := resolve_sound hs hsound d
  refine Store.allEdges_filter_eq (by rw [hresolve]; exact hs') hs fun e hsource => ?_
  obtain rfl : e.source = path := by simpa using hsource
  exact resolvePaths_others hs (codePaths_nodup hs) fun hmem => leads_of_unread (hunread hmem)

/-! ## §4. What a full resolve reports. -/

/-- The source files that can be read. -/
def readable (p : Project) (d : Disk) : List String :=
  p.codePaths.filter fun path => (p.content? d path).isSome

/-- What is wrong with the imports of a file: some of them lead nowhere. -/
theorem filterMap_failureOf? (hs : p.store.Intact) (d : Disk) (path : String) (imports : List Import) :
    imports.filterMap ((p.around d).failureOf? path)
      = (imports.filter (p.leadsNowhere d path)).map fun i => .unresolved path i.source := by
  induction imports with
  | nil => rfl
  | cons i rest ih =>
    cases hnowhere : p.leadsNowhere d path i with
    | true =>
      have hfailure : (p.around d).failureOf? path i = some (.unresolved path i.source) := by
        unfold Surroundings.failureOf?
        rw [(target?_eq_none_iff hs).mpr hnowhere]
      rw [List.filterMap_cons_some hfailure, List.filter_cons_of_pos hnowhere, List.map_cons, ih]
    | false =>
      have hfailure : (p.around d).failureOf? path i = none := by
        unfold Surroundings.failureOf?
        split
        · rfl
        next htarget =>
          rw [(target?_eq_none_iff hs).mp htarget] at hnowhere
          exact absurd hnowhere (by simp)
      rw [List.filterMap_cons_none hfailure, List.filter_cons_of_neg (by simp [hnowhere]), ih]

/-- The plan for one file: it is about the file if that can be read. -/
theorem planFile_eq (hs : p.store.Intact) (d : Disk) (path : String) :
    ((p.around d).planFile path).files.map (·.path)
        = (if (p.content? d path).isSome then [path] else [])
      ∧ ((p.around d).planFile path).failures = p.failuresOf d path := by
  unfold Surroundings.planFile
  cases hcontent : p.content? d path with
  | none =>
    obtain ⟨failure, himports, hfailures⟩ := importsOf_of_unread hcontent
    rw [himports, hfailures]
    exact ⟨rfl, rfl⟩
  | some content =>
    obtain ⟨bytes, hread, hdecode⟩ := content?_eq_some hcontent
    rw [importsOf_of_content hcontent]
    refine ⟨rfl, ?_⟩
    unfold failuresOf
    simp only [hread, hdecode]
    rw [filterMap_failureOf? hs, List.filter_filter]
    simp only [Bool.and_comm]

/-- The plan for some files is about those that can be read, in their order. -/
theorem plan_eq (hs : p.store.Intact) (d : Disk) (paths : List String) :
    ((p.around d).plan paths).files.map (·.path)
        = paths.filter (fun path => (p.content? d path).isSome)
      ∧ ((p.around d).plan paths).failures = paths.flatMap (p.failuresOf d) := by
  induction paths with
  | nil => exact ⟨rfl, rfl⟩
  | cons path rest ih =>
    obtain ⟨hfiles, hfailures⟩ := planFile_eq hs d path
    have hplan : ((p.around d).plan (path :: rest)).files
        = ((p.around d).planFile path).files ++ ((p.around d).plan rest).files := rfl
    have hplanned : ((p.around d).plan (path :: rest)).failures
        = ((p.around d).planFile path).failures ++ ((p.around d).plan rest).failures := rfl
    rw [hplan, hplanned, List.map_append, hfiles, hfailures, ih.1, ih.2, List.flatMap_cons,
      List.filter_cons]
    refine ⟨?_, rfl⟩
    split <;> rfl

/-- **The report of a full resolve**: the source files that can be read, the imports that these have in
the end, and what is wrong with each source file, in the order of the files. -/
theorem resolve_report (hs : p.store.Intact) (hsound : p.isSound = true) {report : Resolve.Report}
    (h : p.resolve d = (p', .ok report)) :
    report.files = (p.readable d).length
      ∧ report.edges = p'.store.allEdges.countP (fun e => (p.readable d).contains e.source)
      ∧ report.failures = p.codePaths.flatMap (p.failuresOf d) := by
  obtain ⟨hfiles, hfailures⟩ := plan_eq hs d p.codePaths
  obtain ⟨s, report', hresolve, hs', honly, -⟩ := resolve_sound hs hsound d
  obtain ⟨rfl, hreport⟩ := Prod.mk.inj (h.symm.trans hresolve)
  obtain rfl := Except.ok.inj hreport
  have happly : ((p.around d).plan p.codePaths).apply p.store = .ok (s, report) := by
    have hunfolded := hresolve
    unfold resolve resolvePaths at hunfolded
    rw [hsound, if_neg (by simp)] at hunfolded
    simp only at hunfolded
    split at hunfolded
    next => exact absurd (Prod.mk.inj hunfolded).2 (by simp)
    next s' found hfound =>
      obtain ⟨hstore, hfoundReport⟩ := Prod.mk.inj hunfolded
      obtain rfl := Except.ok.inj hfoundReport
      obtain rfl : s' = s := congrArg Project.store hstore
      exact hfound
  have hrows : ∀ f ∈ ((p.around d).plan p.codePaths).files, (p.store.file? f.path).isSome = true := by
    intro f hf
    have hmem : f.path ∈ ((p.around d).plan p.codePaths).files.map (·.path) := List.mem_map_of_mem hf
    rw [hfiles] at hmem
    exact hasRow_of_codePath hs (List.mem_filter.mp hmem).1
  have hnodup : (((p.around d).plan p.codePaths).files.map (·.path)).Nodup := by
    rw [hfiles]
    exact (codePaths_nodup hs).filter _
  obtain ⟨hcount, hreported, hedges⟩ := apply_counts hs hrows hnodup happly
  refine ⟨?_, ?_, hreported.trans hfailures⟩
  · rw [hcount, ← List.length_map (f := (·.path)), hfiles]
    rfl
  · rw [hedges]
    show _ = s.allEdges.countP _
    rw [← countP_rows hs' (p.readable d)]
    refine List.countP_congr fun row _ => ?_
    unfold readable
    rw [← hfiles, List.any_map]
    simp only [Function.comp_def, honly.fileId?]

/-! ## §5. A second resolve. -/

/-- Resolving changes nothing that it looks at. -/
theorem resolve_looks (hs : p.store.Intact) (d : Disk) :
    (p.resolve d).1.codePaths = p.codePaths ∧ (p.resolve d).1.readable d = p.readable d
      ∧ (p.resolve d).1.failuresOf d = p.failuresOf d := by
  have hcode := resolvePaths_codePaths hs d p.codePaths
  have hroot : (p.resolve d).1.root = p.root := congrArg Indexer.root (p.resolvePaths_indexer d _)
  have hfile : ∀ path, (p.resolve d).1.store.file? path = p.store.file? path := by
    intro path
    exact congrArg Page.row ((resolvePaths_edgesOnly hs d p.codePaths).page path)
  refine ⟨hcode, ?_, ?_⟩
  · unfold readable content?
    rw [hroot]
    exact congrArg _ hcode
  · funext path
    unfold failuresOf leadsNowhere fits
    simp only [hroot, hfile]

/-- A second resolve leaves the imports that the first one has left. -/
theorem resolve_resolve_allEdges (hs : p.store.Intact) (hsound : p.isSound = true) (d : Disk) :
    ((p.resolve d).1.resolve d).1.store.allEdges = (p.resolve d).1.store.allEdges := by
  obtain ⟨s, report, hresolve, hs', -⟩ := resolve_sound hs hsound d
  have hintact : (p.resolve d).1.store.Intact := by rw [hresolve]; exact hs'
  have hstill : (p.resolve d).1.isSound = true := by rw [hresolve]; exact hsound
  obtain ⟨s', report', hresolve', hs'', -⟩ := resolve_sound hintact hstill d
  refine Store.allEdges_eq (by rw [hresolve']; exact hs'') hintact fun e => ?_
  have hcode := (resolve_looks hs d).1
  have hleads : (p.resolve d).1.leads d e.source = p.leads d e.source := resolvePaths_leads hs d _ d _
  by_cases hread : e.source ∈ p.codePaths ∧ p.leads d e.source ≠ none
  · -- both times the file is left with where its imports lead
    obtain ⟨leads, hsome⟩ := Option.ne_none_iff_exists'.mp hread.2
    have hmem : e.source ∈ (p.resolve d).1.codePaths := hcode ▸ hread.1
    have hmem' : e.source ∈ ((p.resolve d).1.resolve d).1.codePaths := by
      rw [(resolve_looks hintact d).1]
      exact hmem
    rw [resolve_holds hs hsound d e.source hmem leads hsome e rfl,
      resolve_holds hintact hstill d e.source hmem' leads (hleads.trans hsome) e rfl]
  · refine resolvePaths_others hintact (codePaths_nodup hintact) fun hmem => ?_
    rw [hleads]
    by_contra hsome
    exact hread ⟨hcode ▸ hmem, hsome⟩

/-- **A second resolve** reports what the first one has reported, and changes no import. -/
theorem resolve_resolve (hs : p.store.Intact) (hsound : p.isSound = true) {report : Resolve.Report}
    (h : p.resolve d = (p', .ok report)) :
    ∃ p'', p'.resolve d = (p'', .ok report) ∧ p''.store.allEdges = p'.store.allEdges := by
  have hfirst : (p.resolve d).1 = p' := by rw [h]
  obtain ⟨hcode, hreadable, hfailuresOf⟩ := resolve_looks hs d
  have hedges := resolve_resolve_allEdges hs hsound d
  obtain ⟨s, found, hresolve, hs', -⟩ := resolve_sound hs hsound d
  obtain rfl : p' = { p with store := s } := (Prod.mk.inj (h.symm.trans hresolve)).1
  rw [hfirst] at hcode hreadable hfailuresOf hedges
  have hstill : ({ p with store := s } : Project).isSound = true := hsound
  obtain ⟨s'', report'', hagain, -⟩ :=
    @resolve_sound { p with store := s } hs' hstill d
  rw [hagain] at hedges
  refine ⟨_, ?_, hedges⟩
  -- the counts and the failures are told by what is looked at, and by the imports in the end
  obtain ⟨hfiles, hcount, hfailures⟩ := resolve_report hs hsound h
  obtain ⟨hfiles', hcount', hfailures'⟩ := resolve_report hs' hstill hagain
  have hreport : report'' = report := by
    obtain ⟨files, edges, failures⟩ := report
    obtain ⟨files'', edges'', failures''⟩ := report''
    simp only at hfiles hcount hfailures hfiles' hcount' hfailures'
    rw [hfiles', hcount', hfailures', hreadable, hedges, hcode, hfailuresOf, hfiles, hcount, hfailures]
  rw [← hreport]
  exact hagain

end Project

/-! ## §6. The full resolve. -/

/-- **A full resolve computes exactly the imports.** In a project that can come about and is not broken,
on any disk, it succeeds. A source file that can be read has, for each of its relative imports that leads
to a file, one import of that file under each of its symbols, and no others; the empty symbol, which
stands for the whole file, is shown as none. No file imports itself. Every other file keeps the imports
that it had. The report counts the source files that can be read and the imports that these have, and
lists what is wrong with each source file. A second resolve reports the same and changes no import. -/
theorem full_resolve_exact {p : Project} (h : p.Reached) (hsound : p.isSound = true) (d : Disk) :
    ∃ p' report, p.resolve d = (p', .ok report)
      ∧ (∀ row ∈ p.store.files, row.fileClass = .code →
          ∀ content, p.content? d row.path = some content →
          ∀ e : Edge, e ∈ p'.store.dependenciesOf row.path ↔
            e.source = row.path ∧ ∃ i ∈ (parse row.path content).imports, i.isRelative = true
              ∧ p.LeadsTo d row.path i.source e.target
              ∧ ∃ symbol ∈ Project.storedSymbols i, e.symbol = Store.Intact.shownSymbol symbol)
      ∧ (∀ e ∈ p'.store.allEdges, e.source ≠ e.target)
      ∧ (∀ row ∈ p.store.files, (row.fileClass = .code → p.content? d row.path = none) →
          p'.store.dependenciesOf row.path = p.store.dependenciesOf row.path)
      ∧ report.files = (p.readable d).length
      ∧ p'.store.allEdges.Nodup
      ∧ report.edges = p'.store.allEdges.countP (fun e => (p.readable d).contains e.source)
      ∧ report.failures = p.codePaths.flatMap (p.failuresOf d)
      ∧ ∃ p'', p'.resolve d = (p'', .ok report) ∧ p''.store.allEdges = p'.store.allEdges := by
  have hloopless := h.loopless
  have hs := hloopless.intact
  obtain ⟨s, report, hresolve, hs', -⟩ := Project.resolve_sound hs hsound d
  have hafter := hloopless.resolvePaths d (Project.codePaths_nodup hs)
  have hcode : ∀ row ∈ p.store.files, (row.path ∈ p.codePaths ↔ row.fileClass = .code) := by
    intro row hrow
    rw [Project.mem_codePaths_iff hs, Store.file?_of_mem hs.paths hrow]
    simp
  obtain ⟨hfiles, hedges, hfailures⟩ := Project.resolve_report hs hsound hresolve
  have hfirst : (p.resolve d).1 = { p with store := s } := by rw [hresolve]
  refine ⟨_, report, hresolve, ?_, ?_, ?_, hfiles, hs'.allEdges_nodup, hedges, hfailures, ?_⟩
  · intro row hrow hclass content hcontent e
    rw [← hfirst]
    exact Project.resolve_dependencies hs hsound ((hcode row hrow).mpr hclass) hcontent
  · rw [← hfirst]
    exact hafter.apart
  · intro row hrow hunread
    rw [← hfirst]
    exact Project.resolve_keeps hs hsound fun hmem => hunread ((hcode row hrow).mp hmem)
  · exact Project.resolve_resolve hs hsound hresolve

/-- The text `from .z import g`, with another letter in the place of `z`. -/
def importsFrom (letter : UInt8) : Text.Bytes :=
  [102, 114, 111, 109, 32, 46, letter, 32, 105, 109, 112, 111, 114, 116, 32, 103]

/-- A project with three files: one with an import that leads nowhere, one that imports the first, and
one with given bytes. -/
def threeFiles (bytes : Text.Bytes) : Disk :=
  ⟨[([['p']], .directory), ([['p'], ['a', '.', 'p', 'y']], .file (importsFrom 122)),
    ([['p'], ['b', '.', 'p', 'y']], .file (importsFrom 97)),
    ([['p'], ['c', '.', 'p', 'y']], .file bytes)], []⟩

/-- The three files have been indexed. -/
def threeIndexed : Project :=
  (((pythonProject.index (threeFiles []) .code "a.py" false 0).1.index (threeFiles []) .code "b.py" false
    1).1.index (threeFiles []) .code "c.py" false 2).1

theorem threeIndexed_reached : threeIndexed.Reached :=
  .index (.index (.index (@Project.Reached.opened "/p" pythonConfig "first" _ rfl) _ _ _ _ _) _ _ _ _ _)
    _ _ _ _ _

theorem threeIndexed_codePaths : threeIndexed.codePaths = ["a.py", "b.py", "c.py"] :=
  Project.codePaths_eq (by decide) (by decide +kernel)

theorem full_resolve_exact_of_three :
    ∃ p' report, threeIndexed.resolve (threeFiles [255]) = (p', .ok report)
      ∧ ⟨"b.py", "a.py", some "g"⟩ ∈ p'.store.dependenciesOf "b.py"
      ∧ report.files = 2
      ∧ report.failures = [.unresolved "a.py" "./z", .notText "c.py"] := by
  obtain ⟨p', report, hresolve, hexact, -, -, hfiles, -, -, hfailures, -⟩ :=
    full_resolve_exact threeIndexed_reached (by decide +kernel) (threeFiles [255])
  refine ⟨p', report, hresolve, ?_, ?_, ?_⟩
  · obtain ⟨row, hrow, hpath, hclass⟩ : ∃ row ∈ threeIndexed.store.files,
        row.path = "b.py" ∧ row.fileClass = .code := by decide +kernel
    have hcontent : threeIndexed.content? (threeFiles [255]) "b.py"
        = some "from .a import g".toList := by decide +kernel
    have hstored := hexact row hrow hclass
    rw [hpath] at hstored
    refine (hstored _ hcontent _).mpr ⟨rfl, ⟨"./a", ["g"]⟩, by decide +kernel, by decide,
      ⟨["a", "a.ts", "a.tsx", "a.js", "a.jsx", "a.mjs", "a.cjs"], (candidates "b.py" "./a").drop 8, ?_, ?_⟩,
      "g", by decide, by decide⟩
    · decide +kernel
    · decide +kernel
  · rw [hfiles, Project.readable, threeIndexed_codePaths]
    decide +kernel
  · rw [hfailures, threeIndexed_codePaths]
    decide +kernel

end CodeIndex
