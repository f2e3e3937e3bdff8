import Mathlib
import CodeIndex.Proofs.Project.Incremental

/-!
# The call that last wrote a row

A file is left alone if its row has its digest, whatever class it is indexed under and whatever the
settings are. So what the index holds of a file fits the call that last wrote its row, and that may be one
under another class, or by a project that was opened with other settings.

What happens to the page of a path is known before it happens (`World.effect`): it stays, it is cleared, or
it is written under a class with a content. Along a run this tells the last write of each row
(`World.lastWrite`), and the page always fits it.

What a file had of the other class is not looked at when its row is written. Nothing is said about it but that
there is none if the row was always written under one class.

Main result: `rows_fit_last_write`.
-/

namespace CodeIndex

open Text (Bytes)

/-! ## §1. What is done to a page. -/

/-- What is done to the page of a path. -/
inductive Effect where
  | kept
  /-- The row goes, and all that belongs to it. -/
  | cleared
  /-- The row is written under a class, with a content. -/
  | written (c : FileClass) (bytes : Bytes)
  deriving DecidableEq, Repr

/-- What an effect on the page of one key does to the page of a path. -/
def Effect.on (e : Effect) (key path : String) : Effect := if key = path then e else .kept

namespace Indexer

variable {x : Indexer} {d : Disk} {force : Bool} {path : String} {c : FileClass} {old new : Page}

/-- What indexing a file does to its page. The page stays if something stands in the way of the file, or if
its row has its digest. -/
def effect (x : Indexer) (d : Disk) (force : Bool) (page : Page) (c : FileClass) (path : String) : Effect :=
  match x.read d path with
  | .error _ => .kept
  | .ok bytes =>
    if !force && page.row.any (·.hash == Digest.ofBytes bytes) then .kept
    else
      match c with
      | .code => if (Text.decode? bytes).isSome then .written .code bytes else .kept
      | .doc => .written .doc bytes

/-- The pages that an effect may leave. What the file had of the other class stays when its row is written. -/
inductive Leaves (x : Indexer) (path : String) (old : Page) : Effect → Page → Prop where
  | kept : Leaves x path old .kept old
  | cleared {new : Page} (vacant : Vacant new) : Leaves x path old .cleared new
  | code {bytes : Bytes} {content : List Char} {id : RowId} (decoded : Text.decode? bytes = some content) :
      Leaves x path old (.written .code bytes)
        ⟨some ⟨codeInfo path bytes content, id⟩, (parse path content).symbols, old.chunks,
          some (snapshotOf (parse path content).symbols)⟩
  | doc {bytes : Bytes} {id : RowId} :
      Leaves x path old (.written .doc bytes)
        ⟨some ⟨docInfo path bytes, id⟩, old.symbols,
          x.chunks (Language.ofPath path) (Text.decodeLossy bytes), old.snapshot⟩

theorem Leaves.on {e : Effect} {key : String} (hkey : key = path → Leaves x path old e new)
    (hothers : path ≠ key → new = old) : Leaves x path old (e.on key path) new := by
  unfold Effect.on
  split
  next heq => exact hkey heq
  next hne =>
    rw [hothers (Ne.symm hne)]
    exact .kept

theorem Leaves.page_of_kept (h : Leaves x path old .kept new) : new = old := by
  cases h with
  | kept => rfl

theorem effect_of_refused {e : IndexFailure} (h : x.refusal? d force old c path = some e) :
    x.effect d force old c path = .kept := by
  unfold refusal? at h
  unfold effect
  cases hread : x.read d path with
  | error e => rfl
  | ok bytes =>
    simp only [hread] at h ⊢
    split at h
    next => exact absurd h (by simp)
    next hchanged =>
      rw [if_neg hchanged]
      cases c with
      | doc => exact absurd h (by simp)
      | code =>
        simp only at h ⊢
        split at h
        next hnone => rw [if_neg (by simpa using hnone)]
        next => exact absurd h (by simp)

/-- What comes of indexing a file that can be read. -/
theorem effect_of_read {bytes : Bytes} (hread : x.read d path = .ok bytes) :
    x.effect d force old c path =
      if !force && old.row.any (·.hash == Digest.ofBytes bytes) then .kept
      else if c = .code ∧ (Text.decode? bytes).isNone then .kept else .written c bytes := by
  unfold effect
  rw [hread]
  cases c with
  | code => cases hdecoded : Text.decode? bytes <;> simp [hdecoded]
  | doc => simp

/-- A visit does to the page what indexing the file does. -/
theorem Visit.leaves {changes : List SymbolChange} (h : Visit x d force c path old new changes) :
    Leaves x path old (x.effect d force old c path) new := by
  cases h with
  | refused refusal =>
    rw [effect_of_refused refusal]
    exact .kept
  | current read same kept =>
    rw [effect_of_read read, if_pos (by simp [kept, same])]
    exact .kept
  | code ofClass read decoded changed =>
    rw [effect_of_read read, changed, if_neg (by simp), if_neg (by simp [decoded]), ofClass]
    exact .code decoded
  | doc ofClass read changed =>
    rw [effect_of_read read, changed, if_neg (by simp), if_neg (by simp [ofClass]), ofClass]
    exact .doc

/-- What a pass over selected files does to the page of a path. A file that has gone is cleared; the others
are indexed if they are selected. -/
def passEffect (x : Indexer) (d : Disk) (force : Bool) (files : List Discovered) (page : Page)
    (path : String) : Effect :=
  if d.exists? (x.place path) then
    match files.find? (·.path == path) with
    | some f => x.effect d force page f.fileClass path
    | none => .kept
  else .cleared

theorem PathPass.leaves {files : List Discovered} (hnodup : (files.map (·.path)).Nodup)
    {changes : List SymbolChange} (h : PathPass x d force files path old new changes)
    (hold : old.row = none → Vacant old) :
    Leaves x path old (x.passEffect d force files old path) new := by
  obtain ⟨mid, visited, pruned, -, hvisit, hprune⟩ := h
  unfold passEffect
  cases hexists : d.exists? (x.place path) with
  | true =>
    -- what is there is not pruned
    have hnew : new = mid := by
      rcases hprune with ⟨-, hprune⟩ | ⟨-, rfl, -⟩
      · exact (hprune.of_exists hexists).1
      · rfl
    rw [if_pos rfl, hnew]
    rcases hvisit with ⟨f, hf, rfl, hvisit⟩ | ⟨hnot, rfl, -⟩
    · rw [find?_key_of_mem hnodup hf]
      exact hvisit.leaves
    · have hnone : files.find? (·.path == path) = none := by
        rw [List.find?_eq_none]
        intro f hf hpath
        exact hnot (List.mem_map.mpr ⟨f, hf, by simpa using hpath⟩)
      rw [hnone]
      exact .kept
  | false =>
    -- what is not there cannot be read, so that the visit has left the page alone
    have hmid : mid = old := by
      rcases hvisit with ⟨f, -, rfl, hvisit⟩ | ⟨-, rfl, -⟩
      · have hread : ∀ bytes, x.read d f.path ≠ .ok bytes := by
          intro bytes hread
          rw [exists_of_read hread] at hexists
          exact absurd hexists (by simp)
        cases hvisit with
        | refused => rfl
        | current read => exact absurd read (hread _)
        | code _ read => exact absurd read (hread _)
        | doc _ read => exact absurd read (hread _)
      · rfl
    subst hmid
    rw [if_neg (by simp)]
    rcases hprune with ⟨-, hprune⟩ | ⟨hnone, rfl, -⟩
    · cases hprune with
      | present found => rw [hexists] at found; exact absurd found (by simp)
      | vanished => exact .cleared ⟨rfl, rfl, rfl⟩
    · exact .cleared (hold hnone)

/-- Indexing a file does that to its page, and nothing to other pages. The status tells whether the row was
written. -/
theorem index_leaves {s s' : Store} (hs : s.Intact) {o : FileOutcome}
    (h : x.index d s c path force = .ok (s', o)) :
    Leaves x path (s.page path) (x.effect d force (s.page path) c path) (s'.page path)
      ∧ (∀ other, other ≠ path → s'.page other = s.page other)
      ∧ ∃ bytes, x.read d path = .ok bytes
        ∧ ((o.status = .skipped ∧ x.effect d force (s.page path) c path = .kept
            ∧ (s.page path).row.any (·.hash == Digest.ofBytes bytes) = true)
          ∨ (o.status ≠ .skipped ∧ x.effect d force (s.page path) c path = .written c bytes)) := by
  have hwritten : ∀ existed, IndexStatus.ofExisted existed ≠ .skipped := by
    intro existed
    cases existed <;> decide
  have houtcome := index_outcome x d hs c path force
  rw [h] at houtcome
  cases houtcome with
  | current read kept same =>
    have heffect : x.effect d force (s.page path) c path = .kept := by
      rw [effect_of_read read, if_pos (by simp [kept, same])]
    rw [heffect]
    exact ⟨.kept, fun _ _ => rfl, _, read, .inl ⟨rfl, rfl, same⟩⟩
  | code ofClass read decoded rewrites page changed =>
    rw [effect_of_read read, changed, if_neg (by simp), if_neg (by simp [decoded]), page]
    exact ⟨ofClass ▸ .code decoded, rewrites.others, _, read, .inr ⟨hwritten _, rfl⟩⟩
  | doc ofClass read rewrites page changed =>
    rw [effect_of_read read, changed, if_neg (by simp), if_neg (by simp [ofClass]), page]
    exact ⟨ofClass ▸ .doc, rewrites.others, _, read, .inr ⟨hwritten _, rfl⟩⟩

end Indexer

/-! ## §2. What actions do to pages. -/

theorem Store.vacant_of_noRow {s : Store} {path : String} (h : (s.page path).row = none) :
    Indexer.Vacant (s.page path) := by
  rw [Store.page_of_noRow h]
  exact ⟨rfl, rfl, rfl⟩

namespace Project

variable {p : Project} {d : Disk} {path : String}

/-- What indexing a file under a key does to the page of a path. -/
def indexEffect (p : Project) (d : Disk) (c : FileClass) (key : String) (force : Bool) (path : String) :
    Effect :=
  if p.isSound then (p.indexer.effect d force (p.store.page path) c path).on key path else .kept

/-- What taking away a key does to the page of a path. -/
def removeEffect (p : Project) (key path : String) : Effect :=
  if p.isSound then Effect.cleared.on key path else .kept

open Indexer (Leaves)

theorem index_leaves (h : p.Good) (d : Disk) (c : FileClass) (name : String) (force : Bool) (now : Time)
    (path : String) :
    Leaves p.indexer path (p.store.page path)
      (p.indexEffect d c (p.indexer.relative name) force path)
      ((p.index d c name force now).1.store.page path) := by
  unfold index indexEffect
  generalize p.indexer.relative name = key
  cases p.isSound with
  | false => exact .kept
  | true =>
    simp only [if_true, Bool.not_true, Bool.false_eq_true, if_false]
    cases hindex : p.indexer.index d p.store c key force with
    | error e =>
      -- what stands in the way of a file leaves its page alone
      have houtcome := Indexer.index_outcome p.indexer d h.intact c key force
      rw [hindex] at houtcome
      cases houtcome with
      | refused refusal =>
        refine .on (fun hkey => ?_) fun _ => rfl
        subst hkey
        rw [Indexer.effect_of_refused refusal]
        exact .kept
    | ok done =>
      obtain ⟨s, o⟩ := done
      obtain ⟨hleaves, hothers, -⟩ := Indexer.index_leaves h.intact hindex
      obtain ⟨-, hkept, -⟩ := onFileDiffs_index o.diff.toList now { p with store := s }
      simp only [unlessCrashed_fst, hkept.page]
      exact .on (fun hkey => hkey ▸ hleaves) (hothers path)

theorem removeFile_leaves (h : p.Good) (name : String) (now : Time) (path : String) :
    Leaves p.indexer path (p.store.page path) (p.removeEffect (p.indexer.relative name) path)
      ((p.removeFile name now).1.store.page path) := by
  unfold removeFile removeEffect
  generalize p.indexer.relative name = key
  cases p.isSound with
  | false => exact .kept
  | true =>
    simp only [if_true, Bool.not_true, Bool.false_eq_true, if_false]
    cases hrow : p.store.file? key with
    | none =>
      rw [Store.removeFile_of_noRow hrow]
      exact .on (fun hkey => .cleared (Store.vacant_of_noRow (hkey ▸ hrow))) fun _ => rfl
    | some row =>
      obtain ⟨s, diff, hremove, hrewrites, hpage, -⟩ := Store.removeFile_page h.intact hrow
      obtain ⟨-, hkept, -⟩ := onFileDiffs_index [diff] now { p with store := s }
      have hafter : ({ p with store := s }.onFileDiff diff now).store.page path = s.page path :=
        hkept.page path
      simp only [hremove, unlessCrashed_fst, hafter]
      refine .on (fun hkey => ?_) (hrewrites.others path)
      rw [← hkey, hpage]
      exact .cleared ⟨rfl, rfl, rfl⟩

theorem resolvePaths_page (h : p.Good) (d : Disk) (paths : List String) (path : String) :
    (p.resolvePaths d paths).1.store.page path = p.store.page path :=
  (resolvePaths_good h d paths).2.1.page path

/-- What indexing a file that was added or changed does to the page of a path. -/
def writtenEffect (p : Project) (d : Disk) (name path : String) : Effect :=
  match p.indexer.filter.classify? (p.indexer.relative name) with
  | none => .kept
  | some c => p.indexEffect d c (p.indexer.relative (p.indexer.relative name)) false path

theorem onFileWritten_leaves (h : p.Good) (d : Disk) (name : String) (now : Time) (path : String) :
    Leaves p.indexer path (p.store.page path) (p.writtenEffect d name path)
      ((p.onFileWritten d name now).1.store.page path) := by
  unfold writtenEffect
  cases hclass : p.indexer.filter.classify? (p.indexer.relative name) with
  | none =>
    rw [onFileWritten_unselected hclass]
    exact .kept
  | some c =>
    have hleaves := index_leaves h d c (p.indexer.relative name) false now path
    have hgood := (index_advances h d now c (p.indexer.relative name) false).good
    rcases onFileWritten_selected hclass d now with hresult | hresult
    · rw [hresult]
      exact hleaves
    · -- resolving its imports does nothing to the page
      rw [hresult, resolveFile, resolvePaths_page hgood]
      exact hleaves

/-- What an event does to the page of a path. -/
def watchEffect (p : Project) (d : Disk) (event : WatchEvent) (path : String) : Effect :=
  match event.kind with
  | .removed => p.removeEffect (p.indexer.relative event.path) path
  | _ => p.writtenEffect d event.path path

theorem onWatchEvent_leaves (h : p.Good) (d : Disk) (event : WatchEvent) (now : Time) (path : String) :
    Leaves p.indexer path (p.store.page path) (p.watchEffect d event path)
      ((p.onWatchEvent d event now).1.store.page path) := by
  unfold onWatchEvent watchEffect
  cases event.kind with
  | removed => exact removeFile_leaves h event.path now path
  | added => exact onFileWritten_leaves h d event.path now path
  | changed => exact onFileWritten_leaves h d event.path now path

/-- What a pass does to the page of a path. -/
def passEffect (p : Project) (d : Disk) (options : PassOptions) (path : String) : Effect :=
  if p.isSound then
    match p.indexer.selected d options.additional with
    | .error _ => .kept
    | .ok files => p.indexer.passEffect d options.force files (p.store.page path) path
  else .kept

theorem indexAll_leaves (h : p.Good) (d : Disk) (options : PassOptions) (now : Time) (path : String) :
    Leaves p.indexer path (p.store.page path) (p.passEffect d options path)
      ((p.indexAll d options now).1.store.page path) := by
  -- the store that the pass has left, and what is observed after it
  have hpassed : ∀ {s : Store} {report : PassReport}, p.isSound = true →
      p.indexer.indexAll d p.store options = (s, .ok report) →
      Leaves p.indexer path (p.store.page path) (p.passEffect d options path)
        (({ p with store := s }.onFileDiffs report.diffs now).store.page path) := by
    intro s report hsound hpass
    obtain ⟨files, hselected⟩ := Indexer.selected_of_indexAll hpass
    obtain ⟨s', report', hpass', -, -, -, -, -, hpaths⟩ := Indexer.indexAll_paths h.intact hselected
    obtain ⟨rfl, -⟩ := Prod.mk.inj (hpass.symm.trans hpass')
    obtain ⟨-, hkept, -⟩ := onFileDiffs_index report.diffs now { p with store := s }
    unfold passEffect
    rw [hsound, if_pos rfl, hselected, hkept.page]
    exact (hpaths path).leaves (Indexer.selected_paths hselected) Store.vacant_of_noRow
  have houtcome := indexAll_outcome p d options now
  generalize p.indexAll d options now = result at houtcome
  cases houtcome with
  | broken unsound =>
    unfold passEffect
    rw [unsound]
    exact .kept
  | failed sound pass =>
    obtain rfl := Indexer.store_of_failed h.intact pass
    unfold passEffect
    rw [sound, if_pos rfl]
    cases hselected : p.indexer.selected d options.additional with
    | error e => exact .kept
    | ok files =>
      obtain ⟨s', report', hpass, -⟩ := Indexer.indexAll_paths h.intact hselected
      exact absurd (congrArg Prod.snd (pass.symm.trans hpass)) (by simp)
  | crashed sound pass => exact hpassed sound pass
  | passed sound pass => exact hpassed sound pass

end Project

/-! ## §3. Runs. -/

/-- What may happen over the life of a store: an action, or that the project is opened again, with settings
of its own. -/
inductive Turn where
  | act (a : Action)
  | reopen (config : Config) (session : String)

/-- The call that last wrote a row. -/
structure Write where
  /-- The project as it was opened then. -/
  indexer : Indexer
  fileClass : FileClass
  bytes : Bytes
  /-- The row was written under this class only since it is there. -/
  alone : Bool

/-- A page fits the call that last wrote its row: the row has its class and the digest of its content, and
symbols or chunks are those of this content, under the settings of the call. -/
structure Write.Fits (write : Write) (path : String) (page : Page) : Prop where
  row : ∃ row, page.row = some row ∧ row.fileClass = write.fileClass
    ∧ row.hash = Digest.ofBytes write.bytes
  symbols : write.fileClass = .code → ∃ content, Text.decode? write.bytes = some content
    ∧ page.symbols = (parse path content).symbols
  chunks : write.fileClass = .doc →
    page.chunks = write.indexer.chunks (Language.ofPath path) (Text.decodeLossy write.bytes)
  others : write.alone = true →
    (write.fileClass = .code → page.chunks = []) ∧ (write.fileClass = .doc → page.symbols = [])

/-- The last write of a row after an effect. -/
def Effect.track (x : Indexer) (last : Option Write) : Effect → Option Write
  | .kept => last
  | .cleared => none
  | .written c bytes => some ⟨x, c, bytes, last.all fun write => write.alone && write.fileClass == c⟩

/-- A page fits the last write of its row; without one there is no row. -/
def FitsLast (path : String) (page : Page) : Option Write → Prop
  | none => Indexer.Vacant page
  | some write => write.Fits path page

/-- A row that has the digest of a content was last written with one of that digest. -/
theorem FitsLast.of_current {path : String} {page : Page} {last : Option Write} {bytes : Bytes}
    (h : FitsLast path page last) (hcurrent : page.row.any (·.hash == Digest.ofBytes bytes) = true) :
    ∃ write, last = some write ∧ write.Fits path page
      ∧ Digest.ofBytes write.bytes = Digest.ofBytes bytes := by
  obtain ⟨row, hrow, hhash⟩ := (Option.any_eq_true _ _).mp hcurrent
  cases last with
  | none => exact absurd (hrow.symm.trans h.row) (by simp)
  | some write =>
    obtain ⟨row', hrow', -, hhash'⟩ := h.row
    obtain rfl : row = row' := Option.some.inj (hrow.symm.trans hrow')
    exact ⟨write, rfl, h, hhash'.symm.trans (by simpa using hhash)⟩

/-- One effect keeps this. -/
theorem Indexer.Leaves.fitsLast {x : Indexer} {path : String} {old new : Page} {e : Effect}
    {last : Option Write} (h : Leaves x path old e new) (hold : FitsLast path old last) :
    FitsLast path new (e.track x last) := by
  cases h with
  | kept => exact hold
  | cleared vacant => exact vacant
  | code decoded =>
    refine ⟨⟨_, rfl, rfl, rfl⟩, fun _ => ⟨_, decoded, rfl⟩, fun hdoc => absurd hdoc (by simp), ?_⟩
    -- there are no chunks if the row was not there, or was always that of a source file
    refine fun halone => ⟨fun _ => ?_, fun hdoc => absurd hdoc (by simp)⟩
    cases last with
    | none => exact hold.chunks
    | some write =>
      simp only [Option.all_some, Bool.and_eq_true, beq_iff_eq] at halone
      exact (hold.others halone.1).1 halone.2
  | doc =>
    refine ⟨⟨_, rfl, rfl, rfl⟩, fun hcode => absurd hcode (by simp), fun _ => rfl, ?_⟩
    refine fun halone => ⟨fun hcode => absurd hcode (by simp), fun _ => ?_⟩
    cases last with
    | none => exact hold.symbols
    | some write =>
      simp only [Option.all_some, Bool.and_eq_true, beq_iff_eq] at halone
      exact (hold.others halone.1).2 halone.2

namespace World

variable {w : World} {path : String}

/-- What happens in a turn. A project that cannot be opened with the settings is not opened. -/
def turn (w : World) : Turn → World
  | .act a => w.step a
  | .reopen config session =>
    match Project.ofStore w.project.root config session w.project.store with
    | .ok p => { w with project := p }
    | .error _ => w

/-- What turns leave, one after another. -/
def turns (w : World) (l : List Turn) : World := l.foldl turn w

/-- What a turn does to the page of a path. -/
def effect (w : World) (path : String) : Turn → Effect
  | .act (.index c name force _) =>
    w.project.indexEffect w.disk c (w.project.indexer.relative name) force path
  | .act (.indexAll options _) => w.project.passEffect w.disk options path
  | .act (.remove name _) => w.project.removeEffect (w.project.indexer.relative name) path
  | .act (.watch event _) => w.project.watchEffect w.disk event path
  | _ => .kept

/-- The last write of a row along some turns. -/
def lastWrite (path : String) : World → Option Write → List Turn → Option Write
  | _, last, [] => last
  | w, last, t :: rest => lastWrite path (w.turn t) ((w.effect path t).track w.project.indexer last) rest

theorem turn_good (h : w.project.Good) (t : Turn) : (w.turn t).project.Good := by
  cases t with
  | act a => exact (step_advances h a).good
  | reopen config session =>
    unfold turn
    simp only
    split
    next p hopen => exact (Project.good_ofStore h.intact hopen).1
    next => exact h

/-- **A turn does to each page what was said before it.** -/
theorem turn_leaves (h : w.project.Good) (t : Turn) (path : String) :
    Indexer.Leaves w.project.indexer path (w.project.store.page path) (w.effect path t)
      ((w.turn t).project.store.page path) := by
  cases t with
  | act a =>
    cases a with
    | edit => exact .kept
    | indexAll options now => exact Project.indexAll_leaves h w.disk options now path
    | index c name force now => exact Project.index_leaves h w.disk c name force now path
    | remove name now => exact Project.removeFile_leaves h name now path
    | watch event now => exact Project.onWatchEvent_leaves h w.disk event now path
    | startSession mode label session =>
      show Indexer.Leaves _ path _ .kept ((w.project.startSession mode label session).1.store.page path)
      unfold Project.startSession
      split <;> exact .kept
    | resolve =>
      show Indexer.Leaves _ path _ .kept ((w.project.resolve w.disk).1.store.page path)
      rw [Project.resolve, Project.resolvePaths_page h]
      exact .kept
  | reopen config session =>
    unfold turn
    simp only
    split
    next p hopen =>
      rw [(Project.good_ofStore h.intact hopen).2]
      exact .kept
    next => exact .kept

/-- Along any turns, each page fits the last write of its row. -/
theorem turns_fitsLast (l : List Turn) :
    ∀ {w : World} {last : Option Write}, w.project.Good →
      FitsLast path (w.project.store.page path) last →
      (w.turns l).project.Good
        ∧ FitsLast path ((w.turns l).project.store.page path) (lastWrite path w last l) := by
  induction l with
  | nil => intro w last h hfits; exact ⟨h, hfits⟩
  | cons t rest ih =>
    intro w last h hfits
    exact ih (turn_good h t) ((turn_leaves h t path).fitsLast hfits)

theorem lastWrite_concat (l : List Turn) (t : Turn) :
    ∀ (w : World) (last : Option Write), lastWrite path w last (l ++ [t])
      = ((w.turns l).effect path t).track (w.turns l).project.indexer (lastWrite path w last l) := by
  induction l with
  | nil => intro w last; rfl
  | cons first rest ih => intro w last; exact ih (w.turn first) _

end World

/-! ## §4. Calls that index a path. -/

/-- A call that indexes a path under a class and succeeds for it, with a status. In a pass this is the call
for one of the selected files, on the store that the files before it have left. -/
inductive Indexes (w : World) : Action → String → FileClass → IndexStatus → Prop where
  | index {c : FileClass} {name : String} {force : Bool} {now : Time} {o : FileOutcome}
      (ok : (w.project.index w.disk c name force now).2 = .ok o) :
      Indexes w (.index c name force now) (w.project.indexer.relative name) c o.status
  | pass {options : PassOptions} {now : Time} {report : PassReport} {before after : List Discovered}
      {f : Discovered} {s : Store} {o : FileOutcome}
      (ok : (w.project.indexAll w.disk options now).2 = .ok report)
      (selected : w.project.indexer.selected w.disk options.additional = .ok (before ++ f :: after))
      (outcome : w.project.indexer.index w.disk
        (before.foldl (w.project.indexer.advance w.disk options.force) ⟨w.project.store, .empty, none⟩).store
        f.fileClass f.path options.force = .ok (s, o)) :
      Indexes w (.indexAll options now) f.path f.fileClass o.status
  | watch {event : WatchEvent} {now : Time} {c : FileClass} {o : FileOutcome}
      (kind : event.kind ≠ .removed)
      (classOf : w.project.indexer.filter.classify? (w.project.indexer.relative event.path) = some c)
      (ok : (w.project.index w.disk c (w.project.indexer.relative event.path) false now).2 = .ok o) :
      Indexes w (.watch event now)
        (w.project.indexer.relative (w.project.indexer.relative event.path)) c o.status

variable {w : World} {path : String} {c : FileClass} {status : IndexStatus}

/-- What a status says of the effect of a call. -/
def Says (w : World) (path : String) (c : FileClass) (status : IndexStatus) (e : Effect) : Prop :=
  ∃ bytes, w.project.indexer.read w.disk path = .ok bytes
    ∧ ((status = .skipped ∧ e = .kept
        ∧ (w.project.store.page path).row.any (·.hash == Digest.ofBytes bytes) = true)
      ∨ (status ≠ .skipped ∧ e = .written c bytes))

theorem index_says (h : w.project.Good) {name : String} {force : Bool} {now : Time} {o : FileOutcome}
    (hok : (w.project.index w.disk c name force now).2 = .ok o) :
    Says w (w.project.indexer.relative name) c o.status
      (w.project.indexEffect w.disk c (w.project.indexer.relative name) force
        (w.project.indexer.relative name)) := by
  obtain ⟨s, hindex, -, -⟩ := Project.index_eq_ok (Prod.ext rfl hok)
  obtain ⟨-, -, hsays⟩ := Indexer.index_leaves h.intact hindex
  have hsound : w.project.isSound = true := by
    by_contra hbroken
    unfold Project.index at hok
    rw [if_pos (by simpa using hbroken)] at hok
    exact absurd hok (by simp)
  unfold Project.indexEffect Effect.on
  rw [hsound, if_pos rfl, if_pos rfl]
  exact hsays

theorem Indexes.says (h : w.project.Good) {a : Action} (hindexes : Indexes w a path c status) :
    Says w path c status (w.effect path (.act a)) := by
  cases hindexes with
  | index ok => exact index_says h ok
  | @watch event now c o kind classOf ok =>
    have heffect : w.project.watchEffect w.disk event
        (w.project.indexer.relative (w.project.indexer.relative event.path))
        = w.project.indexEffect w.disk c (w.project.indexer.relative (w.project.indexer.relative event.path))
          false (w.project.indexer.relative (w.project.indexer.relative event.path)) := by
      unfold Project.watchEffect Project.writtenEffect
      rw [classOf]
      cases hkind : event.kind with
      | removed => exact absurd hkind kind
      | added => rfl
      | changed => rfl
    show Says w _ _ _ (w.project.watchEffect w.disk event _)
    rw [heffect]
    exact index_says h ok
  | @pass options now report before after f s o ok selected outcome =>
    -- the files before it are others, so that its page is the one that the pass started with
    have hnodup := Indexer.selected_paths selected
    rw [List.map_append, List.map_cons] at hnodup
    have hvisited := @Indexer.advanceAll_visited w.project.indexer w.disk options.force before
      ⟨w.project.store, .empty, none⟩ rfl h.intact (List.nodup_append.mp hnodup).1
    have hother : f.path ∉ before.map (·.path) := fun hmem =>
      (List.nodup_append.mp hnodup).2.2 f.path hmem f.path List.mem_cons_self rfl
    obtain ⟨-, -, bytes, hread, hcase⟩ := Indexer.index_leaves hvisited.intact outcome
    rw [(hvisited.others f.path hother).1] at hcase
    have hsound : w.project.isSound = true := by
      have houtcome := Project.indexAll_outcome w.project w.disk options now
      generalize w.project.indexAll w.disk options now = result at ok houtcome
      cases houtcome with
      | passed sound => exact sound
      | broken => exact absurd ok (by simp)
      | failed => exact absurd ok (by simp)
      | crashed => exact absurd ok (by simp)
    have heffect : w.project.passEffect w.disk options f.path
        = w.project.indexer.effect w.disk options.force (w.project.store.page f.path) f.fileClass f.path := by
      unfold Project.passEffect Indexer.passEffect
      rw [hsound, if_pos rfl, selected]
      simp only
      rw [if_pos (Indexer.exists_of_read hread),
        find?_key_of_mem (Indexer.selected_paths selected) (by simp)]
    show Says w _ _ _ (w.project.passEffect w.disk options f.path)
    rw [heffect]
    exact ⟨bytes, hread, hcase⟩

/-- **The rows of a file fit the call that last wrote them.** A project starts with an empty store and goes
through any turns. If a call then indexes a path under a class and succeeds, whatever the status, then the
row is there, and its page fits the content of the file as it is now, under the class and the settings of
the call that last wrote the row. That is this call, unless the status says that the file was skipped; then
nothing has changed. The digests of the content that the row was last written with and of the content now
are taken to tell these two apart. -/
theorem rows_fit_last_write {root : String} {config : Config} {session : String} {p : Project}
    (hopen : Project.ofStore root config session Store.empty = .ok p) (d : Disk) (l : List Turn)
    {a : Action} {path : String} {c : FileClass} {status : IndexStatus}
    (hindexes : Indexes (World.turns ⟨d, p⟩ l) a path c status) :
    let w := World.turns ⟨d, p⟩ l
    let before := World.lastWrite path ⟨d, p⟩ none l
    let after := World.lastWrite path ⟨d, p⟩ none (l ++ [.act a])
    ∃ bytes, w.project.indexer.read w.disk path = .ok bytes
      ∧ ((∀ write, before = some write → Digest.ofBytes write.bytes = Digest.ofBytes bytes →
          write.bytes = bytes) →
        ∃ write, after = some write ∧ write.bytes = bytes
          ∧ write.Fits path ((w.step a).project.store.page path)
          ∧ (status ≠ .skipped → write.indexer = w.project.indexer ∧ write.fileClass = c)
          ∧ (status = .skipped → before = some write
            ∧ (w.step a).project.store.page path = w.project.store.page path)) := by
  intro w before after
  obtain ⟨hopened, hempty⟩ := Project.good_ofStore Store.intact_empty hopen
  have hvacant : FitsLast path (p.store.page path) none := by
    rw [hempty]
    exact ⟨rfl, rfl, rfl⟩
  obtain ⟨hgood, hbefore⟩ := @World.turns_fitsLast path l ⟨d, p⟩ none hopened hvacant
  have hleaves := World.turn_leaves hgood (.act a) path
  have hafter := hleaves.fitsLast hbefore
  have hconcat : after = (w.effect path (.act a)).track w.project.indexer before :=
    World.lastWrite_concat l (.act a) ⟨d, p⟩ none
  obtain ⟨bytes, hread, hcase⟩ := hindexes.says hgood
  refine ⟨bytes, hread, fun hdigest => ?_⟩
  rcases hcase with ⟨rfl, heffect, hcurrent⟩ | ⟨hstatus, heffect⟩
  · -- the row has the digest of the file, so that the last write was with its content
    rw [heffect] at hleaves hconcat
    obtain ⟨write, hlast, hfits, hhash⟩ := hbefore.of_current hcurrent
    have hpage : (w.step a).project.store.page path = w.project.store.page path := hleaves.page_of_kept
    refine ⟨write, hconcat.trans hlast, hdigest write hlast hhash, ?_, fun hnot => absurd rfl hnot,
      fun _ => ⟨hlast, hpage⟩⟩
    rw [hpage]
    exact hfits
  · rw [heffect] at hafter hconcat
    exact ⟨_, hconcat, rfl, hafter, fun _ => ⟨rfl, rfl⟩, fun hskipped => absurd hskipped hstatus⟩

/-! ## §5. A file of two lines. -/

/-- A project with one file of two lines. -/
def linesTree : Disk := ⟨[([['p']], .directory), ([['p'], ['x', '.', 't', 'x', 't']], .file [97, 10, 98])], []⟩

/-- The file is indexed as a document, in chunks of ten lines. Then the project is opened again, for chunks
of one line. -/
def linesTurns : List Turn :=
  [.act (.index .doc "x.txt" false 0), .reopen { pythonConfig with chunkLines := 1 } "second"]

/-- The file is then indexed as a source file. -/
def linesCall : Action := .index .code "x.txt" false 1

theorem rows_fit_last_write_when_skipped :
    Indexes (World.turns ⟨linesTree, pythonProject⟩ linesTurns) linesCall "x.txt" .code .skipped
      ∧ ∃ write, World.lastWrite "x.txt" ⟨linesTree, pythonProject⟩ none (linesTurns ++ [.act linesCall])
          = some write
        ∧ write.bytes = [97, 10, 98]
        ∧ write.Fits "x.txt" (((World.turns ⟨linesTree, pythonProject⟩ linesTurns).step
          linesCall).project.store.page "x.txt") := by
  have hopen : Project.ofStore "/p" pythonConfig "first" Store.empty = .ok pythonProject := rfl
  have hindexes : Indexes (World.turns ⟨linesTree, pythonProject⟩ linesTurns) linesCall "x.txt" .code
      .skipped := by
    generalize hw : World.turns ⟨linesTree, pythonProject⟩ linesTurns = w
    have hok : (w.project.index w.disk .code "x.txt" false 1).2 = .ok ⟨"x.txt", .skipped, none⟩ := by
      rw [← hw]
      decide +kernel
    have hkey : w.project.indexer.relative "x.txt" = "x.txt" := by
      rw [← hw]
      decide +kernel
    have hcall := Indexes.index hok
    rw [hkey] at hcall
    exact hcall
  obtain ⟨bytes, hread, hfits⟩ := rows_fit_last_write hopen linesTree linesTurns hindexes
  have hbytes : bytes = [97, 10, 98] := by
    refine Except.ok.inj (hread.symm.trans ?_)
    decide +kernel
  have hbefore : (World.lastWrite "x.txt" ⟨linesTree, pythonProject⟩ none linesTurns).map (·.bytes)
      = some [97, 10, 98] := by decide +kernel
  obtain ⟨write, hafter, hsame, hpage, -⟩ := hfits fun write hlast _ => by
    rw [hlast, Option.map_some, Option.some.injEq] at hbefore
    rw [hbefore, hbytes]
  exact ⟨hindexes, write, hafter, hsame.trans hbytes, hpage⟩

/-- The file keeps the row of a document, with the chunks of the settings before. If the row is written, the
chunks stay beside the row of a source file. -/
theorem skipped_under_other_class :
    let w := World.turns ⟨linesTree, pythonProject⟩ linesTurns
    let skipped := w.project.index w.disk .code "x.txt" false 1
    let forced := w.project.index w.disk .code "x.txt" true 1
    (skipped.2 = .ok ⟨"x.txt", .skipped, none⟩
        ∧ (skipped.1.store.file? "x.txt").map (·.fileClass) = some .doc
        ∧ (skipped.1.store.page "x.txt").chunks = [⟨0, none, 1, 2, "a\nb"⟩]
        ∧ w.project.indexer.chunks (Language.ofPath "x.txt") (Text.decodeLossy [97, 10, 98])
          = [⟨0, none, 1, 1, "a"⟩, ⟨1, none, 2, 2, "b"⟩])
      ∧ (forced.1.store.file? "x.txt").map (·.fileClass) = some .code
      ∧ (forced.1.store.page "x.txt").chunks = [⟨0, none, 1, 2, "a\nb"⟩] := by
  decide +kernel

end CodeIndex
