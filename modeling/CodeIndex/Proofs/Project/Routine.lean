import Mathlib
import CodeIndex.Proofs.Project.LastWrite

/-!
# Files under the classes of their keys

A project that is not broken, and whose window can be told, does not break: handling an event succeeds whatever
stands in the way of its file. So much for the outcome.

What is left is told by the last write of each row. A pass and an event leave it to the settings under which class
a file is indexed, and both ask for the class of its key, unless the key of the path of an event has another key.
If all turns of a history are such (`Turn.Routine`), and the settings stay, then each page is the one that its last
write has made: it holds nothing of the other class.

Main results:
  * `onWatchEvent_told` — an event is applied if the window can be told;
  * `World.effect_class` — a routine turn writes files under the classes of their keys;
  * `World.turns_hold` — along routine turns each page holds what was last written.
-/

namespace CodeIndex

open Text (Bytes)

/-! ## §1. Settings. -/

theorem Observer.begin_thresholds (o : Observer) (s : Store) : (o.begin s).1.thresholds = o.thresholds := by
  rw [begin_fst]

namespace Project

variable {p : Project} {d : Disk} {now : Time}

theorem onFileDiff_thresholds (p : Project) (diff : FileDiff) (now : Time) :
    (p.onFileDiff diff now).observer.thresholds = p.observer.thresholds := by
  have hbegin := p.observer.begin_thresholds p.store
  unfold onFileDiff Observer.onFileDiff
  split
  · split
    · rfl
    · simp only
      split
      · exact hbegin
      · split <;> exact hbegin
  · rfl

theorem onFileDiffs_thresholds (diffs : List FileDiff) (now : Time) :
    ∀ p : Project, (p.onFileDiffs diffs now).observer.thresholds = p.observer.thresholds := by
  induction diffs with
  | nil => intro p; rfl
  | cons diff rest ih =>
    intro p
    exact (ih (p.onFileDiff diff now)).trans (onFileDiff_thresholds p diff now)

theorem index_thresholds (p : Project) (d : Disk) (c : FileClass) (path : String) (force : Bool) (now : Time) :
    (p.index d c path force now).1.observer.thresholds = p.observer.thresholds := by
  unfold index
  split
  · rfl
  · split
    · rfl
    · rw [unlessCrashed_fst]
      exact onFileDiffs_thresholds _ now _

theorem removeFile_thresholds (p : Project) (path : String) (now : Time) :
    (p.removeFile path now).1.observer.thresholds = p.observer.thresholds := by
  unfold removeFile
  split
  · rfl
  · split
    · rfl
    · rw [unlessCrashed_fst]
      exact onFileDiff_thresholds _ _ now

theorem resolvePaths_thresholds (p : Project) (d : Disk) (paths : List String) :
    (p.resolvePaths d paths).1.observer.thresholds = p.observer.thresholds := by
  unfold resolvePaths
  split
  · rfl
  · simp only
    split <;> rfl

theorem onWatchEvent_thresholds (p : Project) (d : Disk) (event : WatchEvent) (now : Time) :
    (p.onWatchEvent d event now).1.observer.thresholds = p.observer.thresholds := by
  have hwritten : (p.onFileWritten d event.path now).1.observer.thresholds = p.observer.thresholds := by
    cases hclass : p.indexer.filter.classify? (p.indexer.relative event.path) with
    | none => rw [onFileWritten_unselected hclass]
    | some c =>
      rcases onFileWritten_selected hclass d now with h | h
      · rw [h]
        exact p.index_thresholds d c _ false now
      · rw [h, resolveFile, resolvePaths_thresholds]
        exact p.index_thresholds d c _ false now
  unfold onWatchEvent
  cases event.kind with
  | removed => exact p.removeFile_thresholds event.path now
  | added => exact hwritten
  | changed => exact hwritten

theorem indexAll_thresholds (p : Project) (d : Disk) (options : PassOptions) (now : Time) :
    (p.indexAll d options now).1.observer.thresholds = p.observer.thresholds := by
  have houtcome := indexAll_outcome p d options now
  generalize p.indexAll d options now = result at houtcome
  cases houtcome with
  | broken => rfl
  | failed => rfl
  | crashed => exact onFileDiffs_thresholds _ now _
  | passed => exact onFileDiffs_thresholds _ now _

end Project

/-! ## §2. Projects that do not break. -/

theorem reported_told (nested : Bool) (s : Store) (session : String) (event : NewEvent)
    (observation : NewObservation) (now : Time) :
    reported (emit nested s session event observation now) ≠ .error .timeOverflow := by
  unfold reported emit
  split
  · simp [Except.map]
  · split
    · simp [Except.map]
    · split <;> simp [Except.map]

/-- A check of the window fails only if the store refuses, where the window can be told. -/
theorem checkThrash_told {t : Thresholds} {now since : Time} (h : windowStart t now = .ok since)
    (nested : Bool) (s : Store) (session file : String) :
    checkThrash t nested s session file now ≠ .error .timeOverflow := by
  unfold checkThrash
  rw [h]
  simp only [bind, Except.bind]
  split
  · simp [pure, Except.pure]
  · exact reported_told nested s session _ _ now

namespace Project

variable {p : Project} {d : Disk} {now since : Time}

theorem onFileDiff_sound (hsound : p.isSound = true) (hwindow : windowStart p.observer.thresholds now = .ok since)
    (diff : FileDiff) : (p.onFileDiff diff now).isSound = true := by
  rw [← p.observer.begin_thresholds p.store] at hwindow
  have hcrashed : (p.observer.onFileDiff p.store diff now).crashed = false := by
    unfold Observer.onFileDiff
    split
    · rfl
    · simp only
      split
      · rfl
      · split
        · rfl
        next hcheck => exact absurd hcheck (checkThrash_told hwindow _ _ _ _)
        · rfl
  unfold onFileDiff
  rw [if_pos hsound]
  simp only [hcrashed]
  rfl

theorem onFileDiffs_sound (diffs : List FileDiff) :
    ∀ {p : Project}, p.isSound = true → windowStart p.observer.thresholds now = .ok since →
      (p.onFileDiffs diffs now).isSound = true := by
  induction diffs with
  | nil => intro p hsound _; exact hsound
  | cons diff rest ih =>
    intro p hsound hwindow
    refine @ih (p.onFileDiff diff now) (onFileDiff_sound hsound hwindow diff) ?_
    rw [onFileDiff_thresholds]
    exact hwindow

/-- Indexing a file succeeds, or something stands in the way of the file. -/
theorem index_told (h : p.Good) (hsound : p.isSound = true)
    (hwindow : windowStart p.observer.thresholds now = .ok since) (d : Disk) (c : FileClass) (path : String)
    (force : Bool) :
    (p.index d c path force now).1.isSound = true
      ∧ ((∃ o, (p.index d c path force now).2 = .ok o)
        ∨ ∃ e, (p.index d c path force now).2 = .error (.file e) ∧ ∀ cause, e ≠ .store cause) := by
  unfold index
  rw [hsound, if_neg (by simp)]
  have houtcome := Indexer.index_outcome p.indexer d h.intact c (p.indexer.relative path) force
  cases hindex : p.indexer.index d p.store c (p.indexer.relative path) force with
  | error e =>
    rw [hindex] at houtcome
    -- the rows hang together, so that only the file itself is refused
    cases houtcome with
    | refused refusal => exact ⟨hsound, .inr ⟨e, rfl, Indexer.refusal?_unstored refusal⟩⟩
  | ok done =>
    obtain ⟨s, o⟩ := done
    have hstill := @onFileDiffs_sound now since o.diff.toList { p with store := s } hsound hwindow
    simp only [unlessCrashed, hstill, if_true]
    exact ⟨trivial, .inl ⟨o, rfl⟩⟩

/-- A file that was added or changed is handled, whatever stands in its way. -/
theorem onFileWritten_told (h : p.Good) (hsound : p.isSound = true)
    (hwindow : windowStart p.observer.thresholds now = .ok since) (d : Disk) (path : String) :
    (p.onFileWritten d path now).1.isSound = true ∧ (p.onFileWritten d path now).2 = .ok () := by
  unfold onFileWritten
  simp only
  split
  · exact ⟨hsound, rfl⟩
  next c hclass =>
    have hgood := (index_advances h d now c (p.indexer.relative path) false).good
    obtain ⟨hstill, hresult⟩ := index_told h hsound hwindow d c (p.indexer.relative path) false
    generalize p.index d c (p.indexer.relative path) false now = result at hgood hstill hresult
    obtain ⟨mid, outcome⟩ := result
    rcases hresult with ⟨o, rfl⟩ | ⟨e, rfl, he⟩
    · simp only
      split
      · exact ⟨hstill, rfl⟩
      · obtain ⟨s, report, hresolve, -⟩ :=
          resolvePaths_sound d hgood.intact hstill [mid.indexer.relative (p.indexer.relative path)]
        rw [resolveFile, hresolve]
        exact ⟨hstill, rfl⟩
    · -- what stands in the way of a file is passed over
      cases e with
      | store cause => exact absurd rfl (he cause)
      | _ => exact ⟨hstill, rfl⟩

theorem removeFile_told (hsound : p.isSound = true)
    (hwindow : windowStart p.observer.thresholds now = .ok since) (path : String) :
    (p.removeFile path now).1.isSound = true ∧ ∃ removed, (p.removeFile path now).2 = .ok removed := by
  unfold removeFile
  rw [hsound, if_neg (by simp)]
  split
  · exact ⟨hsound, false, rfl⟩
  next s diff _ =>
    have hstill := @onFileDiff_sound { p with store := s } now since hsound hwindow diff
    simp only [unlessCrashed, hstill, if_true]
    exact ⟨trivial, true, rfl⟩

/-- **An event is applied** by a sound project whose window can be told. -/
theorem onWatchEvent_told (h : p.Good) (hsound : p.isSound = true)
    (hwindow : windowStart p.observer.thresholds now = .ok since) (d : Disk) (event : WatchEvent) :
    (p.onWatchEvent d event now).1.isSound = true ∧ (p.onWatchEvent d event now).2 = .ok () := by
  unfold onWatchEvent
  cases event.kind with
  | removed =>
    obtain ⟨hstill, removed, hresult⟩ := removeFile_told hsound hwindow event.path
    refine ⟨hstill, ?_⟩
    simp only [hresult]
    rfl
  | added => exact onFileWritten_told h hsound hwindow d event.path
  | changed => exact onFileWritten_told h hsound hwindow d event.path

end Project

/-! ## §3. The class of a key. -/

theorem FileFilter.classOf_eq {f : FileFilter} {path : String} {c : FileClass} (h : f.classify? path = some c) :
    f.classOf path = c := by
  unfold classOf
  rw [h]

theorem Walk.found?_class {d : Disk} {f : FileFilter} {root dir : String} {start : Location}
    {entry : Location × Entry} {file : Discovered} (h : found? d f root dir start entry = some file) :
    f.classify? file.path = some file.fileClass := by
  obtain ⟨names, -, hnames⟩ := Option.bind_eq_some_iff.mp h
  split at hnames
  · exact absurd hnames (by simp)
  · obtain ⟨c, hclass, rfl⟩ := Option.map_eq_some_iff.mp hnames
    exact hclass

/-- A file is discovered under the class of its key. -/
theorem discover_class {d : Disk} {f : FileFilter} {root dir : String} {files : List Discovered}
    (h : discover d f root dir = .ok files) : ∀ file ∈ files, file.fileClass = f.classOf file.path := by
  unfold discover at h
  split at h
  next start hstart =>
    split at h
    · obtain rfl := Except.ok.inj h
      intro file hfile
      unfold sortDiscovered at hfile
      rw [List.mem_mergeSort, List.mem_filterMap] at hfile
      obtain ⟨entry, -, hfound⟩ := hfile
      exact (FileFilter.classOf_eq (Walk.found?_class hfound)).symm
    · exact absurd h (by simp)
    · exact absurd h (by simp)
  next => exact absurd h (by simp)

namespace Indexer

variable {x : Indexer} {d : Disk} {path : String} {c : FileClass} {bytes : Bytes} {old new : Page}

theorem expand_class {files : List Discovered} (h : x.expand d path = .ok files) :
    ∀ f ∈ files, f.fileClass = x.filter.classOf f.path := by
  unfold expand at h
  simp only at h
  split at h
  · exact discover_class h
  · obtain rfl := Except.ok.inj h
    simp

theorem expandAll_class (additional : List String) :
    ∀ {added : List (List Discovered)}, additional.mapM (x.expand d) = .ok added →
      ∀ f ∈ added.flatten, f.fileClass = x.filter.classOf f.path := by
  induction additional with
  | nil =>
    intro added h
    obtain rfl := Except.ok.inj h
    simp
  | cons name rest ih =>
    intro added h
    rw [List.mapM_cons] at h
    cases hfirst : x.expand d name with
    | error e => rw [hfirst] at h; exact absurd h (by simp [bind, Except.bind])
    | ok first =>
      cases hrest : rest.mapM (x.expand d) with
      | error e => rw [hfirst, hrest] at h; exact absurd h (by simp [bind, Except.bind])
      | ok others =>
        rw [hfirst, hrest] at h
        obtain rfl := Except.ok.inj h
        intro f hf
        rcases List.mem_append.mp hf with hf | hf
        · exact expand_class hfirst f hf
        · exact ih hrest f hf

/-- A pass indexes every file under the class of its key. -/
theorem selected_class {additional : List String} {files : List Discovered}
    (h : x.selected d additional = .ok files) : ∀ f ∈ files, f.fileClass = x.filter.classOf f.path := by
  unfold selected at h
  cases hfound : discover d x.filter x.root x.root with
  | error e => rw [hfound] at h; exact absurd h (by simp [bind, Except.bind])
  | ok found =>
    cases hadded : additional.mapM (x.expand d) with
    | error e => rw [hfound, hadded] at h; exact absurd h (by simp [bind, Except.bind])
    | ok added =>
      rw [hfound, hadded] at h
      simp only [bind, Except.bind, pure, Except.pure, Except.ok.injEq] at h
      intro f hf
      rw [← h] at hf
      have hmem := (eraseDupsBy_paths _).2.1 f hf
      unfold sortDiscovered at hmem
      rcases List.mem_append.mp (List.mem_mergeSort.mp hmem) with hmem | hmem
      · exact discover_class hfound f hmem
      · exact expandAll_class additional hadded f hmem

/-- What indexing a file writes is written under the class that was asked for. -/
theorem effect_class {force : Bool} {c' : FileClass} (h : x.effect d force old c path = .written c' bytes) :
    c' = c := by
  cases hread : x.read d path with
  | error e =>
    unfold effect at h
    rw [hread] at h
    exact absurd h (by simp)
  | ok content =>
    rw [effect_of_read hread] at h
    split at h
    · exact absurd h (by simp)
    · split at h
      · exact absurd h (by simp)
      · exact (Effect.written.inj h).1.symm

theorem passEffect_class {additional : List String} {files : List Discovered}
    (hselected : x.selected d additional = .ok files) {force : Bool}
    (h : x.passEffect d force files old path = .written c bytes) : c = x.filter.classOf path := by
  unfold passEffect at h
  split at h
  · split at h
    next f hfound =>
      have hpath : f.path = path := by simpa using List.find?_some hfound
      rw [effect_class h, selected_class hselected f (List.mem_of_find?_eq_some hfound), hpath]
    next => exact absurd h (by simp)
  · exact absurd h (by simp)

/-- A page holds what the last write of its row has put there, under the class of its key. -/
def Holds (x : Indexer) (path : String) (page : Page) : Option Write → Prop
  | none => Vacant page
  | some write => PageOf x path (x.filter.classOf path) write.bytes page

/-- There is nothing of the other class on such a page. -/
theorem Holds.others_empty {last : Option Write} (h : Holds x path old last) :
    (x.filter.classOf path = .code → old.chunks = []) ∧ (x.filter.classOf path = .doc → old.symbols = []) := by
  cases last with
  | none => exact ⟨fun _ => h.chunks, fun _ => h.symbols⟩
  | some write =>
    simp only [Holds] at h
    generalize x.filter.classOf path = c at h
    cases h with
    | code decoded => exact ⟨fun _ => rfl, fun hdoc => absurd hdoc (by simp)⟩
    | doc => exact ⟨fun hcode => absurd hcode (by simp), fun _ => rfl⟩

/-- A row that has the digest of a content was last written with that content, if the two contents can be told
apart by their digests. -/
theorem Holds.of_current {last : Option Write} (h : Holds x path old last)
    (hcurrent : old.row.any (·.hash == Digest.ofBytes bytes) = true)
    (hdigest : ∀ write, last = some write → Digest.ofBytes write.bytes = Digest.ofBytes bytes →
      write.bytes = bytes) : PageOf x path (x.filter.classOf path) bytes old := by
  cases last with
  | none =>
    rw [show old.row = none from h.row] at hcurrent
    exact absurd hcurrent (by simp)
  | some write =>
    have hpage : PageOf x path (x.filter.classOf path) write.bytes old := h
    obtain ⟨row, hrow, -, -, hhash⟩ := hpage.row
    rw [hrow] at hcurrent
    rw [← hdigest write rfl (hhash.symm.trans (by simpa using hcurrent))]
    exact hpage

/-- **An effect under the class of the key** leaves what it has written. -/
theorem Leaves.holds {e : Effect} {last : Option Write} (h : Leaves x path old e new)
    (hold : Holds x path old last)
    (hclass : ∀ c bytes, e = .written c bytes → c = x.filter.classOf path) :
    Holds x path new (e.track x last) := by
  obtain ⟨hchunks, hsymbols⟩ := hold.others_empty
  cases h with
  | kept => exact hold
  | cleared vacant => exact vacant
  | code decoded =>
    have hcode := (hclass _ _ rfl).symm
    simp only [Effect.track, Holds, hchunks hcode, hcode]
    exact .code decoded
  | doc =>
    have hdoc := (hclass _ _ rfl).symm
    simp only [Effect.track, Holds, hsymbols hdoc, hdoc]
    exact .doc

end Indexer

/-! ## §4. Histories. -/

/-- A project whose rows hang together goes by the settings of an indexer. -/
structure Project.GoesBy (x : Indexer) (p : Project) : Prop where
  good : p.Good
  indexer : p.indexer = x
  thresholds : p.observer.thresholds = x.config.thresholds

/-- A project that was just opened goes by its settings. -/
theorem Project.GoesBy.ofStore {root : String} {config : Config} {session : String} {s : Store} {p : Project}
    (hs : s.Intact) (hopen : ofStore root config session s = .ok p) :
    p.GoesBy p.indexer ∧ p.indexer.root = root ∧ p.indexer.config = config
      ∧ FileFilter.ofConfig p.indexer.config = .ok p.indexer.filter := by
  have hgood := (good_ofStore hs hopen).1
  obtain ⟨filter, hfilter, rfl⟩ := ofStore_eq_ok hopen
  exact ⟨⟨hgood, rfl, rfl⟩, rfl, rfl, hfilter⟩

/-- A turn that leaves the class of a file to the settings, and the settings as they are. The key of a path that
was added or changed is its own key, so that the file is classified by the key under which it is indexed. -/
def Turn.Routine (x : Indexer) : Turn → Prop
  | .act (.index ..) => False
  | .act (.watch event _) => event.kind ≠ .removed → x.relative (x.relative event.path) = x.relative event.path
  | .act _ => True
  | .reopen config _ => config = x.config

namespace Project

variable {x : Indexer} {p : Project} {d : Disk} {event : WatchEvent} {path : String}

theorem watchEffect_written (hkind : event.kind ≠ .removed) :
    p.watchEffect d event path = p.writtenEffect d event.path path := by
  unfold watchEffect
  cases hcase : event.kind with
  | removed => exact absurd hcase hkind
  | added => rfl
  | changed => rfl

/-- An event writes a file under the class of its key. -/
theorem watchEffect_class {c : FileClass} {bytes : Bytes}
    (hkey : event.kind ≠ .removed →
      p.indexer.relative (p.indexer.relative event.path) = p.indexer.relative event.path)
    (h : p.watchEffect d event path = .written c bytes) : c = p.indexer.filter.classOf path := by
  by_cases hkind : event.kind = .removed
  · unfold watchEffect removeEffect Effect.on at h
    rw [hkind] at h
    simp only at h
    split_ifs at h
  · rw [watchEffect_written hkind] at h
    unfold writtenEffect at h
    split at h
    · exact absurd h (by simp)
    next c' hclass =>
      -- the file is indexed under the key of the key by which it was classified
      unfold indexEffect Effect.on at h
      rw [hkey hkind] at h
      split_ifs at h with hsound hpath
      rw [Indexer.effect_class h, ← hpath, FileFilter.classOf_eq hclass]

end Project

namespace World

variable {x : Indexer} {w : World} {t : Turn} {path : String}

/-- A routine turn leaves the settings as they are. -/
theorem turn_goesBy (hfilter : FileFilter.ofConfig x.config = .ok x.filter) (h : w.project.GoesBy x)
    (ht : t.Routine x) : (w.turn t).project.GoesBy x := by
  obtain ⟨hgood, hindexer, hthresholds⟩ := h
  -- a turn with the indexer and the thresholds of before
  have hsame : (w.turn t).project.indexer = w.project.indexer →
      (w.turn t).project.observer.thresholds = w.project.observer.thresholds → (w.turn t).project.GoesBy x :=
    fun h h' => ⟨turn_good hgood t, h.trans hindexer, h'.trans hthresholds⟩
  cases t with
  | act a =>
    cases a with
    | edit => exact hsame rfl rfl
    | indexAll options now =>
      exact hsame (w.project.indexAll_index w.disk options now).1
        (w.project.indexAll_thresholds w.disk options now)
    | index => exact ht.elim
    | remove name now =>
      exact hsame (w.project.removeFile_indexer name now) (w.project.removeFile_thresholds name now)
    | watch event now =>
      exact hsame (w.project.onWatchEvent_indexer w.disk event now)
        (w.project.onWatchEvent_thresholds w.disk event now)
    | resolve =>
      exact hsame (w.project.resolvePaths_indexer w.disk _) (w.project.resolvePaths_thresholds w.disk _)
    | startSession mode label session =>
      -- a new observer has the thresholds of the settings
      refine ⟨turn_good hgood _, ?_, ?_⟩
      · show (w.project.startSession mode label session).1.indexer = x
        unfold Project.startSession
        split <;> exact hindexer
      · show (w.project.startSession mode label session).1.observer.thresholds = x.config.thresholds
        unfold Project.startSession
        split
        · show w.project.indexer.config.thresholds = x.config.thresholds
          rw [hindexer]
        · exact hthresholds
  | reopen config session =>
    obtain rfl : config = x.config := ht
    refine ⟨turn_good hgood _, ?_, ?_⟩ <;> unfold turn <;> simp only <;> split
    next p hopen =>
      -- the filter is made from the settings, and these are the same
      obtain ⟨filter, hfilter', rfl⟩ := Project.ofStore_eq_ok hopen
      obtain rfl : x.filter = filter := Except.ok.inj (hfilter.symm.trans hfilter')
      show (⟨w.project.indexer.root, x.config, x.filter⟩ : Indexer) = x
      rw [hindexer]
    next => exact hindexer
    next p hopen =>
      obtain ⟨filter, -, rfl⟩ := Project.ofStore_eq_ok hopen
      rfl
    next => exact hthresholds

/-- A routine turn writes files under the classes of their keys. -/
theorem effect_class (h : w.project.GoesBy x) (ht : t.Routine x) {c : FileClass} {bytes : Bytes}
    (heffect : w.effect path t = .written c bytes) : c = x.filter.classOf path := by
  obtain rfl := h.indexer
  cases t with
  | reopen => exact absurd heffect (by simp [effect])
  | act a =>
    cases a with
    | index => exact ht.elim
    | indexAll options now =>
      have heffect : w.project.passEffect w.disk options path = .written c bytes := heffect
      unfold Project.passEffect at heffect
      split at heffect
      · split at heffect
        · exact absurd heffect (by simp)
        next files hselected => exact Indexer.passEffect_class hselected heffect
      · exact absurd heffect (by simp)
    | remove name now =>
      have heffect : w.project.removeEffect (w.project.indexer.relative name) path = .written c bytes := heffect
      unfold Project.removeEffect Effect.on at heffect
      split_ifs at heffect
    | watch event now => exact Project.watchEffect_class ht heffect
    | _ => exact absurd heffect (by simp [effect])

/-- Along routine turns each page holds what was last written, under the class of its key. -/
theorem turns_hold (hfilter : FileFilter.ofConfig x.config = .ok x.filter) (l : List Turn) :
    ∀ {w : World} {last : Option Write}, w.project.GoesBy x → (∀ t ∈ l, t.Routine x) →
      x.Holds path (w.project.store.page path) last →
      (w.turns l).project.GoesBy x
        ∧ x.Holds path ((w.turns l).project.store.page path) (lastWrite path w last l) := by
  induction l with
  | nil => intro w last h _ hholds; exact ⟨h, hholds⟩
  | cons t rest ih =>
    intro w last h hroutine hholds
    have ht := hroutine t List.mem_cons_self
    have hleaves := turn_leaves h.good t path
    rw [h.indexer] at hleaves
    have hnext := hleaves.holds hholds fun c bytes heffect => effect_class h ht heffect
    unfold lastWrite
    rw [h.indexer]
    exact ih (turn_goesBy hfilter h ht) (fun t' ht' => hroutine t' (List.mem_cons_of_mem _ ht')) hnext

end World

end CodeIndex
