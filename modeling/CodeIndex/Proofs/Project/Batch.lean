import Mathlib
import CodeIndex.Proofs.Project.Routine
import CodeIndex.Proofs.Selection.Keys

/-!
# Batches of a watcher

Notices that arrive close together are collected into one batch, in which a path has its last event only. Applying
the batch brings the rows of these paths in line with the disk.

The events of a batch are about different paths, and paths below the root have keys of their own, so each event
works on a page that no other event works on. What is left of that page is what the event would have left alone
(`onBatch_leaves`). A file whose row has its digest is left as it is; that is right if the row was last written
under the class of its key, as it is along routine turns.

Main results:
  * `gather_latest` — a batch holds the last event of each path;
  * `onBatch_leaves` — each event of a batch does what it would have done alone;
  * `batch_brings_rows_in_line` — what a batch leaves;
  * `batch_leaves_rows_behind` — two batches that do not bring the rows in line.
-/

namespace CodeIndex

open Text (Bytes)

/-! ## §1. Collecting. -/

/-- A notice, and the disk as it was when the notice was read. -/
structure Sighting where
  disk : Disk
  notice : Notice

/-- The events of some notices, in the order in which they are translated. -/
def translated (sightings : List Sighting) : List WatchEvent :=
  sightings.flatMap fun s => s.notice.events s.disk

/-- The batch into which some notices are collected. -/
def gather (sightings : List Sighting) : List WatchEvent :=
  sightings.foldl (fun batch s => collectNotice s.disk batch s.notice) []

/-- An event is the last one about its path. -/
def Latest (events : List WatchEvent) (e : WatchEvent) : Prop :=
  ∃ before after, events = before ++ e :: after ∧ ∀ later ∈ after, samePath later.path e.path = false

theorem samePath_comm (a b : String) : samePath a b = samePath b a := by
  unfold samePath
  rw [Bool.beq_comm]

/-- A further event takes the place of those about its path. -/
theorem latest_concat (events : List WatchEvent) (e' e : WatchEvent) :
    Latest (events ++ [e']) e ↔ (Latest events e ∧ samePath e.path e'.path = false) ∨ e = e' := by
  constructor
  · rintro ⟨before, after, heq, hafter⟩
    -- the event is the further one itself, or the further one is the last of those after it
    rcases List.eq_nil_or_concat after with rfl | ⟨front, last, rfl⟩
    · obtain ⟨-, hlast⟩ := List.append_inj' heq rfl
      exact .inr (List.cons.inj hlast).1.symm
    · rw [List.concat_eq_append, ← List.cons_append, ← List.append_assoc] at heq
      obtain ⟨hevents, hlast⟩ := List.append_inj' heq rfl
      obtain rfl : e' = last := (List.cons.inj hlast).1
      refine .inl ⟨⟨before, front, hevents, fun later hlater => hafter later (by simp [hlater])⟩, ?_⟩
      rw [samePath_comm]
      exact hafter e' (by simp)
  · rintro (⟨⟨before, after, rfl, hafter⟩, hother⟩ | rfl)
    · refine ⟨before, after ++ [e'], by simp, fun later hlater => ?_⟩
      rcases List.mem_append.mp hlater with hlater | hlater
      · exact hafter later hlater
      · rw [List.mem_singleton.mp hlater, samePath_comm]
        exact hother
    · exact ⟨events, [], rfl, by simp⟩

theorem collected_latest (events : List WatchEvent) :
    (events.foldl pushLatest []).Pairwise (fun a b => samePath a.path b.path = false)
      ∧ ∀ e, e ∈ events.foldl pushLatest [] ↔ Latest events e := by
  induction events using List.reverseRecOn with
  | nil =>
    refine ⟨List.Pairwise.nil, fun e => ?_⟩
    constructor
    · intro h
      exact absurd h (by simp)
    · rintro ⟨before, after, heq, -⟩
      exact absurd heq (by simp)
  | append_singleton events e' ih =>
    obtain ⟨hapart, hmem⟩ := ih
    have hpush : (events ++ [e']).foldl pushLatest [] = pushLatest (events.foldl pushLatest []) e' :=
      List.foldl_concat ..
    rw [hpush]
    generalize events.foldl pushLatest [] = batch at hapart hmem
    unfold pushLatest
    constructor
    · rw [List.pairwise_append]
      refine ⟨hapart.sublist List.filter_sublist, List.pairwise_singleton _ _, fun a ha b hb => ?_⟩
      rw [List.mem_singleton.mp hb]
      simpa using (List.mem_filter.mp ha).2
    · intro e
      rw [List.mem_append, List.mem_filter, List.mem_singleton, hmem, latest_concat]
      simp

/-- **A batch holds the last event of each path.** -/
theorem gather_latest (sightings : List Sighting) :
    (gather sightings).Pairwise (fun a b => samePath a.path b.path = false)
      ∧ ∀ e, e ∈ gather sightings ↔ Latest (translated sightings) e := by
  have hgather : gather sightings = (translated sightings).foldl pushLatest [] := by
    unfold gather translated
    rw [List.foldl_flatMap]
    rfl
  rw [hgather]
  exact collected_latest (translated sightings)

theorem mem_translated {sightings : List Sighting} {e : WatchEvent} (h : e ∈ translated sightings) :
    ∃ s ∈ sightings, e.path ∈ s.notice.paths := by
  obtain ⟨s, hs, he⟩ := List.mem_flatMap.mp h
  obtain ⟨path, hpath, hevent⟩ := List.mem_filterMap.mp he
  obtain ⟨kind, -, rfl⟩ := Option.map_eq_some_iff.mp hevent
  exact ⟨s, hs, hpath⟩

theorem Latest.mem {events : List WatchEvent} {e : WatchEvent} (h : Latest events e) : e ∈ events := by
  obtain ⟨before, after, rfl, -⟩ := h
  simp

/-! ## §2. Applying a batch. -/

namespace Project

variable {x : Indexer} {p q : Project} {d : Disk} {now since : Time} {event : WatchEvent} {path : String}

/-- An event does nothing to a page but that of its key. -/
theorem watchEffect_other (hkey : x.relative (x.relative event.path) = x.relative event.path)
    (hindexer : p.indexer = x) (hne : x.relative event.path ≠ path) : p.watchEffect d event path = .kept := by
  subst hindexer
  by_cases hkind : event.kind = .removed
  · unfold watchEffect removeEffect Effect.on
    rw [hkind]
    simp only [if_neg hne, ite_self]
  · rw [watchEffect_written hkind]
    unfold writtenEffect indexEffect Effect.on
    rw [hkey]
    split
    · rfl
    · simp only [if_neg hne, ite_self]

/-- What an event does to a page depends on the page and the settings only. -/
theorem watchEffect_congr (hindexer : q.indexer = p.indexer) (hsound : q.isSound = p.isSound)
    (hpage : q.store.page path = p.store.page path) : q.watchEffect d event path = p.watchEffect d event path := by
  unfold watchEffect removeEffect writtenEffect indexEffect
  rw [hindexer, hsound, hpage]

/-- **A batch is applied** by a sound project whose window can be told. If its events have keys of their own
then each does to the page of its key what it would have done alone, and all other pages stay. -/
theorem onBatch_leaves (hwindow : windowStart x.config.thresholds now = .ok since) (batch : List WatchEvent) :
    ∀ {p : Project}, p.GoesBy x → p.isSound = true →
      batch.Pairwise (fun a b => x.relative a.path ≠ x.relative b.path) →
      (∀ e ∈ batch, x.relative (x.relative e.path) = x.relative e.path) →
      (p.onBatch d now batch).2 = .ok ()
        ∧ (∀ e ∈ batch, Indexer.Leaves x (x.relative e.path) (p.store.page (x.relative e.path))
          (p.watchEffect d e (x.relative e.path)) ((p.onBatch d now batch).1.store.page (x.relative e.path)))
        ∧ ∀ path, (∀ e ∈ batch, x.relative e.path ≠ path) →
          (p.onBatch d now batch).1.store.page path = p.store.page path := by
  induction batch with
  | nil => intro p _ _ _ _; exact ⟨rfl, by simp, fun _ _ => rfl⟩
  | cons e rest ih =>
    intro p hgoes hsound hapart hkeys
    have hwindow' : windowStart p.observer.thresholds now = .ok since := by
      rw [hgoes.thresholds]
      exact hwindow
    obtain ⟨hfirst, hlater⟩ := List.pairwise_cons.mp hapart
    obtain ⟨hstill, hok⟩ := onWatchEvent_told hgoes.good hsound hwindow' d e
    have hleaves := onWatchEvent_leaves hgoes.good d e now
    have hmid : (p.onWatchEvent d e now).1.GoesBy x :=
      ⟨(onWatchEvent_advances hgoes.good d now e).good,
        (p.onWatchEvent_indexer d e now).trans hgoes.indexer,
        (p.onWatchEvent_thresholds d e now).trans hgoes.thresholds⟩
    have hstep : p.onBatch d now (e :: rest) = (p.onWatchEvent d e now).1.onBatch d now rest := by
      rw [onBatch]
      generalize p.onWatchEvent d e now = result at hok
      obtain ⟨mid, outcome⟩ := result
      obtain rfl : outcome = .ok () := hok
      rfl
    generalize (p.onWatchEvent d e now).1 = mid at hstill hleaves hmid hstep
    rw [hstep]
    -- the event has left all pages but that of its key
    have hothers : ∀ path, x.relative e.path ≠ path → mid.store.page path = p.store.page path := by
      intro path hne
      have hkept := hleaves path
      rw [watchEffect_other (hkeys e List.mem_cons_self) hgoes.indexer hne] at hkept
      exact hkept.page_of_kept
    obtain ⟨hresult, hpages, hrest⟩ := ih hmid hstill hlater fun e' he' => hkeys e' (List.mem_cons_of_mem _ he')
    refine ⟨hresult, fun e' he' => ?_, fun path hpath => ?_⟩
    · rcases List.mem_cons.mp he' with rfl | he'
      · rw [hrest _ fun later hlater => (hfirst later hlater).symm]
        exact hgoes.indexer ▸ hleaves _
      · have hne : x.relative e.path ≠ x.relative e'.path := hfirst e' he'
        have hpage := hothers _ hne
        rw [← hpage, ← watchEffect_congr (hmid.indexer.trans hgoes.indexer.symm) (hstill.trans hsound.symm) hpage]
        exact hpages e' he'
    · rw [hrest path fun e' he' => hpath e' (List.mem_cons_of_mem _ he'),
        hothers path (hpath e List.mem_cons_self)]

/-- What an event does to the page of its key, if the file was added or changed and is selected. -/
theorem watchEffect_own (hindexer : p.indexer = x) (hsound : p.isSound = true) (hkind : event.kind ≠ .removed)
    (hkey : x.relative (x.relative event.path) = x.relative event.path) {c : FileClass}
    (hclass : x.filter.classify? (x.relative event.path) = some c) :
    p.watchEffect d event (x.relative event.path)
      = x.effect d false (p.store.page (x.relative event.path)) c (x.relative event.path) := by
  subst hindexer
  rw [watchEffect_written hkind]
  unfold writtenEffect indexEffect Effect.on
  rw [hclass, hkey, hsound]
  simp only [if_true]

theorem watchEffect_removed (hindexer : p.indexer = x) (hsound : p.isSound = true)
    (hkind : event.kind = .removed) : p.watchEffect d event (x.relative event.path) = .cleared := by
  unfold watchEffect removeEffect Effect.on
  rw [hkind, hsound, hindexer]
  simp only [if_true]

/-- An event about a file that was added or changed and is selected leaves the page of its content. -/
theorem watchEffect_pageOf (hindexer : p.indexer = x) (hsound : p.isSound = true)
    (hkind : event.kind ≠ .removed) (hkey : x.relative (x.relative event.path) = x.relative event.path)
    {c : FileClass} {bytes : Bytes} (hclass : x.filter.classify? (x.relative event.path) = some c)
    (hread : x.read d (x.relative event.path) = .ok bytes)
    (hdecoded : c = .code → (Text.decode? bytes).isSome = true) {last : Option Write}
    (hholds : x.Holds (x.relative event.path) (p.store.page (x.relative event.path)) last)
    (hdigest : ∀ write, last = some write → Digest.ofBytes write.bytes = Digest.ofBytes bytes →
      write.bytes = bytes) {new : Page}
    (hleaves : x.Leaves (x.relative event.path) (p.store.page (x.relative event.path))
      (p.watchEffect d event (x.relative event.path)) new) :
    x.PageOf (x.relative event.path) c bytes new := by
  subst hindexer
  have hafter := hleaves.holds hholds fun c' bytes' heffect => watchEffect_class (fun _ => hkey) heffect
  rw [watchEffect_own rfl hsound hkind hkey hclass, Indexer.effect_of_read hread] at hleaves hafter
  rw [← FileFilter.classOf_eq hclass]
  by_cases hcurrent : (p.store.page (p.indexer.relative event.path)).row.any
      (·.hash == Digest.ofBytes bytes) = true
  · -- the file is left alone, and its row was last written with this content
    rw [if_pos (by simp [hcurrent])] at hleaves
    rw [hleaves.page_of_kept]
    exact hholds.of_current hcurrent hdigest
  · have hwritten : ¬(c = .code ∧ (Text.decode? bytes).isNone = true) := by
      rintro ⟨hcode, hnone⟩
      rw [Option.isNone_iff_eq_none] at hnone
      exact absurd (hdecoded hcode) (by simp [hnone])
    rw [if_neg (by simpa using hcurrent), if_neg hwritten] at hafter
    exact hafter

end Project

/-- Paths below the root that are not the same have keys of their own, and these are their own keys. -/
theorem keys_of_below {x : Indexer} (hroot : Path.isAbsolute x.root.toList = true) {batch : List WatchEvent}
    (hapart : batch.Pairwise fun a b => samePath a.path b.path = false)
    (hbelow : ∀ e ∈ batch, Path.IsBelow x.root e.path) :
    batch.Pairwise (fun a b => x.relative a.path ≠ x.relative b.path)
      ∧ ∀ e ∈ batch, x.relative (x.relative e.path) = x.relative e.path := by
  constructor
  · refine hapart.imp_of_mem fun ha hb hother hsame => ?_
    rw [(hbelow _ ha).samePath hroot (hbelow _ hb) hsame] at hother
    exact absurd hother (by simp)
  · intro e he
    exact (hbelow e he).relative_relative hroot

/-- **A batch brings rows in line with the disk.** A project starts with an empty store and goes through any
routine turns without breaking. Then some notices about paths below its root are collected, and the batch is
applied.

The batch has one event for each path that the notices tell something about, and that is the last one. It is
applied to its end. A selected file that was added or changed, and that can be read and is text if it is a
source file, has the page of its content afterwards, under its class. A path that was removed has no row, and
all other pages stay. The digests of the content that a row was last written with and of the content now are
taken to tell these two apart. -/
theorem batch_brings_rows_in_line {root : String} {config : Config} {session : String} {p : Project}
    (hopen : Project.ofStore root config session Store.empty = .ok p)
    (hroot : Path.isAbsolute root.toList = true) (d : Disk) (history : List Turn)
    (hroutine : ∀ t ∈ history, t.Routine p.indexer)
    (hsound : (World.turns ⟨d, p⟩ history).project.isSound = true) (sightings : List Sighting)
    (hbelow : ∀ s ∈ sightings, ∀ path ∈ s.notice.paths, Path.IsBelow root path) {now since : Time}
    (hwindow : windowStart config.thresholds now = .ok since) :
    let w := World.turns ⟨d, p⟩ history
    let x := p.indexer
    let batch := gather sightings
    let after := w.project.onBatch w.disk now batch
    batch.Pairwise (fun a b => samePath a.path b.path = false)
      ∧ (∀ e, e ∈ batch ↔ Latest (translated sightings) e)
      ∧ after.2 = .ok ()
      ∧ (∀ e ∈ batch, e.kind ≠ .removed → ∀ c bytes,
          x.filter.classify? (x.relative e.path) = some c →
          x.read w.disk (x.relative e.path) = .ok bytes →
          (c = .code → (Text.decode? bytes).isSome = true) →
          (∀ write, World.lastWrite (x.relative e.path) ⟨d, p⟩ none history = some write →
            Digest.ofBytes write.bytes = Digest.ofBytes bytes → write.bytes = bytes) →
          x.PageOf (x.relative e.path) c bytes (after.1.store.page (x.relative e.path)))
      ∧ (∀ e ∈ batch, e.kind = .removed → Indexer.Vacant (after.1.store.page (x.relative e.path)))
      ∧ ∀ path, (∀ e ∈ batch, x.relative e.path ≠ path) →
          after.1.store.page path = w.project.store.page path := by
  intro w x batch after
  obtain ⟨hgoes, hxroot, hxconfig, hxfilter⟩ := Project.GoesBy.ofStore Store.intact_empty hopen
  rw [← hxroot] at hroot
  rw [← hxconfig] at hwindow
  -- what the history has left
  have hholds (path : String) : w.project.GoesBy x
      ∧ x.Holds path (w.project.store.page path) (World.lastWrite path ⟨d, p⟩ none history) := by
    refine World.turns_hold hxfilter history hgoes hroutine ?_
    show Indexer.Vacant (p.store.page path)
    rw [(Project.good_ofStore Store.intact_empty hopen).2]
    exact ⟨rfl, rfl, rfl⟩
  have hindexer : w.project.indexer = x := (hholds "").1.indexer
  -- what the batch is about
  obtain ⟨hapart, hlatest⟩ := gather_latest sightings
  have hpaths : ∀ e ∈ batch, Path.IsBelow x.root e.path := by
    intro e he
    obtain ⟨s, hs, hpath⟩ := mem_translated ((hlatest e).mp he).mem
    rw [hxroot]
    exact hbelow s hs e.path hpath
  obtain ⟨hkeysApart, hkeys⟩ := keys_of_below hroot hapart hpaths
  obtain ⟨hok, hleaves, hothers⟩ := @Project.onBatch_leaves x w.disk now since hwindow batch w.project
    (hholds "").1 hsound hkeysApart hkeys
  refine ⟨hapart, hlatest, hok, ?_, ?_, hothers⟩
  · intro e he hkind c bytes hclass hread hdecoded hdigest
    exact Project.watchEffect_pageOf hindexer hsound hkind (hkeys e he) hclass hread hdecoded
      (hholds _).2 hdigest (hleaves e he)
  · intro e he hkind
    have hcleared := hleaves e he
    rw [Project.watchEffect_removed hindexer hsound hkind] at hcleared
    cases hcleared with
    | cleared vacant => exact vacant

/-! ## §3. A file that gets another name. -/

/-- The file of the project has another name. -/
def renamedTree : Disk := ⟨[([['p']], .directory), ([['p'], ['b', '.', 'p', 'y']], .file definesF)], []⟩

/-- The project is indexed, and the file gets another name. -/
def renamedHistory : List Turn := [.act (.indexAll ⟨false, []⟩ 0), .act (.edit renamedTree)]

/-- The file is written, gets its other name, and is written again; one path has two spellings. -/
def renamedSightings : List Sighting :=
  [⟨pythonTree definesF, ⟨.content, ["/p/a.py"]⟩⟩, ⟨renamedTree, ⟨.renamed, ["/p/a.py", "/p/b.py"]⟩⟩,
    ⟨renamedTree, ⟨.metadata, ["/p/a.py"]⟩⟩, ⟨renamedTree, ⟨.modified, ["/p/./b.py"]⟩⟩]

theorem batch_brings_rows_in_line_after_rename :
    let w := World.turns ⟨pythonTree definesF, pythonProject⟩ renamedHistory
    let after := w.project.onBatch w.disk 1 (gather renamedSightings)
    gather renamedSightings = [⟨.removed, "/p/a.py"⟩, ⟨.changed, "/p/./b.py"⟩]
      ∧ (w.project.store.file? "a.py").isSome = true
      ∧ after.2 = .ok ()
      ∧ pythonProject.indexer.PageOf "b.py" .code definesF (after.1.store.page "b.py")
      ∧ Indexer.Vacant (after.1.store.page "a.py") := by
  have hopen : Project.ofStore "/p" pythonConfig "first" Store.empty = .ok pythonProject := rfl
  have hbatch : gather renamedSightings = [⟨.removed, "/p/a.py"⟩, ⟨.changed, "/p/./b.py"⟩] := by decide +kernel
  have hroutine : ∀ t ∈ renamedHistory, t.Routine pythonProject.indexer := by
    simp [renamedHistory, Turn.Routine]
  have hbelow : ∀ s ∈ renamedSightings, ∀ path ∈ s.notice.paths, Path.IsBelow "/p" path := by
    simp only [renamedSightings, List.mem_cons, List.not_mem_nil, or_false, forall_eq_or_imp, forall_eq]
    decide
  obtain ⟨-, -, hok, hwritten, hremoved, -⟩ := batch_brings_rows_in_line hopen (by decide) (pythonTree definesF)
    renamedHistory hroutine (by decide +kernel) renamedSightings hbelow
    (show windowStart pythonConfig.thresholds 1 = .ok (-299999) by decide)
  refine ⟨hbatch, by decide +kernel, hok, ?_, ?_⟩
  · have hkey : pythonProject.indexer.relative "/p/./b.py" = "b.py" := by decide
    have hnew : (World.lastWrite "b.py" ⟨pythonTree definesF, pythonProject⟩ none renamedHistory).isNone
        = true := by decide +kernel
    have hpage := hwritten ⟨.changed, "/p/./b.py"⟩ (by rw [hbatch]; simp) (by decide) .code definesF
      (by decide) (by decide +kernel) (by decide) fun write hlast => by
        rw [hkey] at hlast
        rw [hlast] at hnew
        exact absurd hnew (by simp)
    rw [hkey] at hpage
    exact hpage
  · have hkey : pythonProject.indexer.relative "/p/a.py" = "a.py" := by decide
    have hpage := hremoved ⟨.removed, "/p/a.py"⟩ (by rw [hbatch]; simp) rfl
    rw [hkey] at hpage
    exact hpage

/-! ## §4. Rows that are not brought in line. -/

/-- Files whose keys start with a dot and a slash are source files, and other files are documents. -/
def dottedConfig : Config := ⟨[("python", ["./*"])], ["*.md"], [], 10, 1000, Thresholds.default⟩

def dottedFilter : FileFilter :=
  ⟨[⟨[.literal '.', .literal '/', .run]⟩], [⟨[.run, .literal '.', .literal 'm', .literal 'd']⟩], []⟩

def dottedProject : Project :=
  ⟨⟨"/p", dottedConfig, dottedFilter⟩, .empty, .new "/p" .default .indexed none "first", .sound, false⟩

/-- A document, and a file with backslashes in its name. -/
def dottedTree : Disk :=
  ⟨[([['p']], .directory), ([['p'], ['x', '.', 'm', 'd']], .file definesF),
    ([['p'], ['.', '\\', '.', '\\', 'x', '.', 'm', 'd']], .file [])], []⟩

/-- The file of the project is empty, and there is another one. -/
def emptiedTree : Disk :=
  ⟨[([['p']], .directory), ([['p'], ['a', '.', 'p', 'y']], .file []),
    ([['p'], ['b', '.', 'p', 'y']], .file [])], []⟩

/-- **Batches that leave rows behind.** The key `./x.md` of a path with backslashes is that of a source file,
but the file is indexed under the key of that key, `x.md`. When the document of that name is reported, it is
left alone as a source file, since its content is that of its row.

With a window that cannot be told the project breaks at the first event that brings a change, and the events
after it are not applied. -/
theorem batch_leaves_rows_behind :
    (Project.ofStore "/p" dottedConfig "first" Store.empty = .ok dottedProject
        ∧ let w := World.turns ⟨dottedTree, dottedProject⟩ [.act (.watch ⟨.added, "/p/.\\.\\x.md"⟩ 0)]
          let batch := gather [⟨dottedTree, ⟨.content, ["/p/x.md"]⟩⟩]
          let after := w.project.onBatch w.disk 1 batch
          Path.IsBelow "/p" "/p/x.md" ∧ batch = [⟨.changed, "/p/x.md"⟩] ∧ after.2 = .ok ()
            ∧ w.project.indexer.filter.classify? "x.md" = some .doc
            ∧ w.project.indexer.read w.disk "x.md" = .ok definesF
            ∧ (after.1.store.file? "x.md").map (·.fileClass) = some .code)
      ∧ Project.ofStore "/p" endlessConfig "first" Store.empty = .ok endlessProject
      ∧ let w := World.turns ⟨pythonTree definesF, endlessProject⟩
          [.act (.indexAll ⟨false, []⟩ 0), .act (.edit emptiedTree)]
        let batch := gather [⟨emptiedTree, ⟨.content, ["/p/a.py"]⟩⟩, ⟨emptiedTree, ⟨.created, ["/p/b.py"]⟩⟩]
        let after := w.project.onBatch w.disk 1 batch
        batch = [⟨.changed, "/p/a.py"⟩, ⟨.added, "/p/b.py"⟩] ∧ after.2 = .error .crashed
          ∧ w.project.indexer.filter.classify? "b.py" = some .code
          ∧ w.project.indexer.read w.disk "b.py" = .ok []
          ∧ (after.1.store.file? "b.py").isNone = true := by
  refine ⟨⟨rfl, ?_⟩, rfl, ?_⟩ <;> decide +kernel

end CodeIndex
