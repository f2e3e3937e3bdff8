import Mathlib
import CodeIndex.Index.File
import CodeIndex.Proofs.Store.Snapshot

/-!
# What the index holds about a path

The page of a path is all that the index holds about it, apart from imports: its row, the symbols and
the chunks that carry the number of the row, and its snapshot. Indexing or removing a file rewrites
the page of one path. The pages of all others stay, numbers stay with their paths, imports can only
go, and nothing of a session is touched (`Rewrites`).

Main results:
  * `putCode_page`, `putDocument_page`, `removeFile_page` — the page that an operation leaves;
  * `index_outcome` — indexing a file fails for the file's sake only: the store never refuses, since
    the numbers of chunks do not repeat.
-/

namespace CodeIndex

/-! ## §1. Pages. -/

/-- What the index holds about a path, apart from imports. -/
structure Page where
  row : Option FileRow
  /-- The symbols of the row, in the order of theirs. -/
  symbols : List Symbol
  /-- The chunks of the row, in the order of theirs. -/
  chunks : List Chunk
  snapshot : Option (List SnapshotEntry)

namespace Store

/-- What the store holds about a path. -/
def page (s : Store) (path : String) : Page where
  row := s.file? path
  symbols := ((s.file? path).map fun f => s.ownSymbols f.id).getD []
  chunks := ((s.file? path).map fun f => s.ownChunks f.id).getD []
  snapshot := s.snapshot? path

variable {s s' : Store} {path : String}

theorem page_row (s : Store) (path : String) : (s.page path).row = s.file? path := rfl

theorem page_of_row {f : FileRow} (hrow : s.file? path = some f) :
    s.page path = ⟨some f, s.ownSymbols f.id, s.ownChunks f.id, s.snapshot? path⟩ := by
  unfold page
  rw [hrow]
  rfl

theorem page_of_noRow (hrow : s.file? path = none) : s.page path = ⟨none, [], [], s.snapshot? path⟩ := by
  unfold page
  rw [hrow]
  rfl

/-- Stores with the same rows of a path, of its symbols and of its chunks and with the same snapshot
hold the same about it. -/
theorem page_congr (hfile : s'.file? path = s.file? path)
    (hsymbols : ∀ f, s.file? path = some f → s'.ownSymbols f.id = s.ownSymbols f.id)
    (hchunks : ∀ f, s.file? path = some f → s'.ownChunks f.id = s.ownChunks f.id)
    (hsnapshot : s'.snapshot? path = s.snapshot? path) : s'.page path = s.page path := by
  cases hrow : s.file? path with
  | none => rw [page_of_noRow hrow, page_of_noRow (hfile.trans hrow), hsnapshot]
  | some f =>
    rw [page_of_row hrow, page_of_row (hfile.trans hrow), hsymbols f hrow, hchunks f hrow, hsnapshot]

/-- The symbols of a path are told by its page. -/
theorem Intact.symbolsFor_page (h : s.Intact) (path : String) :
    s.symbolsFor path = ((s.page path).symbols.map (SymbolRecord.mk path)).mergeSort fun a b =>
      let (x, y) := (signed64 a.symbol.startLine, signed64 b.symbol.startLine)
      x < y || (x == y && a.symbol.name ≤ b.symbol.name) := by
  cases hrow : s.file? path with
  | none => rw [page_of_noRow hrow, Intact.symbolsFor_of_noRow hrow, List.map_nil, List.mergeSort_nil]
  | some f => rw [page_of_row hrow, h.symbolsFor_of_row hrow]

/-- So are the chunks. -/
theorem Intact.chunksFor_page (h : s.Intact) (path : String) :
    s.chunksFor path
      = (s.page path).chunks.mergeSort fun a b => signed64 a.index ≤ signed64 b.index := by
  cases hrow : s.file? path with
  | none => rw [page_of_noRow hrow, Intact.chunksFor_of_noRow hrow, List.mergeSort_nil]
  | some f => rw [page_of_row hrow, h.chunksFor_of_row hrow]

/-- Rows of one number are not touched when those of another are replaced. -/
theorem owned_replaced {ρ : Type} (owner : ρ → RowId) {id other : RowId} (hne : other ≠ id)
    {old rows : List ρ} (hrows : ∀ row ∈ rows, owner row = id) :
    (old.filter (owner · != id) ++ rows).filter (owner · == other)
      = old.filter (owner · == other) := by
  have hnone : rows.filter (owner · == other) = [] :=
    List.filter_eq_nil_iff.mpr fun row hrow => by simpa [hrows row hrow] using Ne.symm hne
  rw [List.filter_append, hnone, List.append_nil, List.filter_filter]
  refine List.filter_congr fun row _ => ?_
  by_cases h : owner row = other <;> simp [h, hne]

/-- The rows of a number that are replaced are the new ones. -/
theorem owned_replaced_self {ρ : Type} (owner : ρ → RowId) {id : RowId} {old rows : List ρ}
    (hrows : ∀ row ∈ rows, owner row = id) :
    (old.filter (owner · != id) ++ rows).filter (owner · == id) = rows := by
  have hold : (old.filter (owner · != id)).filter (owner · == id) = [] := by
    rw [List.filter_filter, List.filter_eq_nil_iff]
    simp
  have hnew : rows.filter (owner · == id) = rows :=
    List.filter_eq_self.mpr fun row hrow => by simp [hrows row hrow]
  rw [List.filter_append, hold, hnew, List.nil_append]

/-- The rows of a path have the number of its row, and those of other paths another one. -/
theorem Intact.id_ne (h : s.Intact) {other : String} {f g : FileRow} (hne : other ≠ path)
    (hf : s.file? path = some f) (hg : s.file? other = some g) : g.id ≠ f.id := by
  intro hid
  obtain ⟨hfmem, hfpath⟩ := file?_eq_some hf
  obtain ⟨hgmem, hgpath⟩ := file?_eq_some hg
  have hgf : g = f := List.inj_on_of_nodup_map h.ids hgmem hfmem hid
  exact hne (by rw [← hgpath, ← hfpath, hgf])

/-- An import is told by the paths of its files. -/
theorem edge?_paths (s : Store) (row : EdgeRow) :
    s.edge? row = ((s.fileById? row.fromId).map (·.path)).bind fun source =>
      ((s.fileById? row.toId).map (·.path)).bind fun target =>
        some ⟨source, target, if row.symbol.isEmpty then none else some row.symbol⟩ := by
  unfold edge?
  cases s.fileById? row.fromId with
  | none => rfl
  | some f => cases s.fileById? row.toId <;> rfl

/-! ## §2. Rewriting a page. -/

/-- Nothing of a session is touched. -/
structure SessionsKept (s s' : Store) : Prop where
  sessions : s'.sessions = s.sessions
  events : s'.events = s.events
  observations : s'.observations = s.observations

theorem SessionsKept.refl (s : Store) : SessionsKept s s := ⟨rfl, rfl, rfl⟩

theorem SessionsKept.trans {mid : Store} (first : SessionsKept s mid) (second : SessionsKept mid s') :
    SessionsKept s s' :=
  ⟨second.sessions.trans first.sessions, second.events.trans first.events,
    second.observations.trans first.observations⟩

/-- One page is rewritten, and all else that an operation on one file may not touch is as it was. -/
structure Rewrites (s s' : Store) (path : String) : Prop where
  intact : s'.Intact
  /-- The pages of other paths stay. -/
  others : ∀ other, other ≠ path → s'.page other = s.page other
  /-- A number that stays in use stays with its path. -/
  numbers : ∀ g ∈ s'.files, ∀ f ∈ s.files, g.id = f.id → g.path = f.path
  /-- No import comes. -/
  edges : s'.edges ⊆ s.edges
  kept : SessionsKept s s'

/-- Rows keep their numbers and paths where the table of files is not written. -/
theorem Intact.numbers_refl (h : s.Intact) :
    ∀ g ∈ s.files, ∀ f ∈ s.files, g.id = f.id → g.path = f.path := by
  intro g hg f hf hid
  rw [List.inj_on_of_nodup_map h.ids hg hf hid]

/-- A page is rewritten in two steps, of which one leaves the table of files alone. -/
theorem Rewrites.trans {mid : Store} (first : Rewrites s mid path) (second : Rewrites mid s' path)
    (hfiles : mid.files = s.files ∨ s'.files = mid.files) : Rewrites s s' path where
  intact := second.intact
  others other hne := (second.others other hne).trans (first.others other hne)
  numbers := by
    rcases hfiles with hfiles | hfiles
    · rw [← hfiles]; exact second.numbers
    · rw [hfiles]; exact first.numbers
  edges := fun _ he => first.edges (second.edges he)
  kept := first.kept.trans second.kept

/-- A row that is put in takes over what its path has. -/
theorem upsertFile_page (h : s.Intact) (info : FileInfo) :
    (s.upsertFile info).1.page info.path
      = { s.page info.path with row := some ⟨info, (s.upsertFile info).2.1⟩ } := by
  have hrow := upsertFile_file?_self s info
  rw [page_of_row hrow, upsertFile_frame]
  cases hold : s.file? info.path with
  | some f =>
    rw [page_of_row hold, upsertFile_id_of_row hold]
    rfl
  | none =>
    rw [page_of_noRow hold]
    obtain ⟨hsymbols, hchunks, -⟩ := h.unused_of_new hold
    show (⟨_, s.ownSymbols _, s.ownChunks _, _⟩ : Page) = _
    rw [hsymbols, hchunks]
    rfl

theorem upsertFile_page_of_ne (s : Store) {info : FileInfo} (hne : path ≠ info.path) :
    (s.upsertFile info).1.page path = s.page path := by
  have hfile := upsertFile_file?_of_ne s hne
  rw [upsertFile_frame] at hfile ⊢
  exact page_congr hfile (fun _ _ => rfl) (fun _ _ => rfl) rfl

/-- A number in use after a row was put in belongs to the path that it belonged to before. -/
theorem upsertFile_numbers (h : s.Intact) (info : FileInfo) {f g : FileRow}
    (hg : g ∈ (s.upsertFile info).1.files) (hf : f ∈ s.files) (hid : g.id = f.id) :
    g.path = f.path := by
  have hgrow := file?_of_mem (h.upsertFile info).paths hg
  by_cases hpath : g.path = info.path
  · -- the row that was put in has the number of its path, or one that was not in use
    rw [hpath, upsertFile_file?_self] at hgrow
    injection hgrow with hgrow
    have hgid : (s.upsertFile info).2.1 = f.id := by rw [← hid, ← hgrow]
    cases hold : s.file? info.path with
    | some old =>
      rw [upsertFile_id_of_row hold] at hgid
      obtain ⟨holdmem, holdpath⟩ := file?_eq_some hold
      rw [hpath, ← holdpath, List.inj_on_of_nodup_map h.ids holdmem hf hgid]
    | none =>
      rw [upsertFile_id_of_new hold] at hgid
      exact absurd (hgid ▸ List.mem_map_of_mem hf) (nextId_notMem (s.files.map (·.id)))
  · rw [upsertFile_file?_of_ne s hpath] at hgrow
    rw [List.inj_on_of_nodup_map h.ids (file?_eq_some hgrow).1 hf hid]

theorem upsertFile_rewrites (h : s.Intact) (info : FileInfo) :
    Rewrites s (s.upsertFile info).1 info.path where
  intact := h.upsertFile info
  others other hne := upsertFile_page_of_ne s hne
  numbers g hg f hf := upsertFile_numbers h info hg hf
  edges := by rw [upsertFile_frame]; exact List.Subset.refl _
  kept := by rw [upsertFile_frame]; exact ⟨rfl, rfl, rfl⟩

theorem replaceSymbols_page (h : s.Intact) {f : FileRow} (hrow : s.file? path = some f)
    (symbols : List Symbol) :
    ∃ s', s.replaceSymbols f.id symbols = .ok s' ∧ Rewrites s s' path ∧ s'.files = s.files
      ∧ s'.page path = { s.page path with symbols := symbols } := by
  have hhas : s.hasFile f.id = true := hasFile_iff.mpr ⟨f, (file?_eq_some hrow).1, rfl⟩
  obtain ⟨rows, howner, hvalues, hreplace⟩ := replaceSymbols_of_file hhas symbols
  let after : Store := { s with symbols := s.symbols.filter (·.fileId != f.id) ++ rows }
  have hafterrow : after.file? path = some f := hrow
  refine ⟨after, hreplace, ⟨h.replaceSymbols hreplace, ?_, h.numbers_refl, List.Subset.refl _,
    ⟨rfl, rfl, rfl⟩⟩, rfl, ?_⟩
  · intro other hne
    refine page_congr rfl (fun g hg => ?_) (fun _ _ => rfl) rfl
    exact congrArg (List.map _) (owned_replaced SymbolRow.fileId (h.id_ne hne hrow hg) howner)
  · have hown : after.ownSymbols f.id = symbols := by
      rw [← hvalues]
      exact congrArg (List.map _) (owned_replaced_self SymbolRow.fileId howner)
    rw [page_of_row hafterrow, page_of_row hrow, hown]
    rfl

theorem replaceChunks_page (h : s.Intact) {f : FileRow} (hrow : s.file? path = some f)
    {chunks : List Chunk} (hdistinct : (chunks.map (·.index)).Nodup) :
    ∃ s', s.replaceChunks f.id chunks = (s', .ok ()) ∧ Rewrites s s' path ∧ s'.files = s.files
      ∧ s'.page path = { s.page path with chunks := chunks } := by
  have hhas : s.hasFile f.id = true := hasFile_iff.mpr ⟨f, (file?_eq_some hrow).1, rfl⟩
  obtain ⟨rows, howner, hvalues, hreplace⟩ := replaceChunks_of_distinct hhas hdistinct
  have hafter := h.replaceChunks f.id chunks
  rw [hreplace] at hafter
  let after : Store := { s with chunks := s.chunks.filter (·.fileId != f.id) ++ rows }
  have hafterrow : after.file? path = some f := hrow
  refine ⟨after, hreplace, ⟨hafter, ?_, h.numbers_refl, List.Subset.refl _, ⟨rfl, rfl, rfl⟩⟩, rfl, ?_⟩
  · intro other hne
    refine page_congr rfl (fun _ _ => rfl) (fun g hg => ?_) rfl
    exact congrArg (List.map _) (owned_replaced ChunkRow.fileId (h.id_ne hne hrow hg) howner)
  · have hown : after.ownChunks f.id = chunks := by
      rw [← hvalues]
      exact congrArg (List.map _) (owned_replaced_self ChunkRow.fileId howner)
    rw [page_of_row hafterrow, page_of_row hrow, hown]
    rfl

theorem clearEdges_rewrites (h : s.Intact) (path : String) (id : RowId) :
    Rewrites s (s.clearEdges id).1 path :=
  ⟨h.clearEdges id, fun _ _ => rfl, h.numbers_refl, List.filter_subset_self _,
    ⟨rfl, rfl, rfl⟩⟩

theorem computeDiff_page (s : Store) (path : String) (symbols : List Symbol) :
    (s.computeDiff path symbols).1.page path
      = { s.page path with snapshot := some (snapshotOf symbols) } := by
  unfold page
  rw [computeDiff_snapshot?_self, computeDiff_frame]
  rfl

theorem computeDiff_page_of_ne (s : Store) {other : String} (hne : other ≠ path)
    (symbols : List Symbol) : (s.computeDiff path symbols).1.page other = s.page other := by
  have hsnapshot := computeDiff_snapshot?_of_ne s hne symbols
  rw [computeDiff_frame] at hsnapshot ⊢
  exact page_congr rfl (fun _ _ => rfl) (fun _ _ => rfl) hsnapshot

theorem computeDiff_rewrites (h : s.Intact) (path : String) (symbols : List Symbol) :
    Rewrites s (s.computeDiff path symbols).1 path where
  intact := h.computeDiff path symbols
  others other hne := computeDiff_page_of_ne s hne symbols
  numbers := by rw [computeDiff_frame]; exact h.numbers_refl
  edges := by rw [computeDiff_frame]; exact List.Subset.refl _
  kept := by rw [computeDiff_frame]; exact ⟨rfl, rfl, rfl⟩

theorem deleteFile_page (s : Store) (path : String) :
    (s.deleteFile path).page path = ⟨none, [], [], s.snapshot? path⟩ := by
  rw [page_of_noRow (deleteFile_file?_self s path)]
  cases hrow : s.file? path with
  | none => rw [deleteFile_of_noRow hrow]
  | some f => rw [deleteFile_of_row hrow]; rfl

theorem deleteFile_page_of_ne (h : s.Intact) {other : String} (hne : other ≠ path) :
    (s.deleteFile path).page other = s.page other := by
  have hfile := deleteFile_file?_of_ne s hne
  cases hrow : s.file? path with
  | none => rw [deleteFile_of_noRow hrow]
  | some f =>
    rw [deleteFile_of_row hrow] at hfile ⊢
    have howned : ∀ {ρ : Type} (owner : ρ → RowId) (old : List ρ) (g : FileRow),
        s.file? other = some g →
        (old.filter (owner · != f.id)).filter (owner · == g.id) = old.filter (owner · == g.id) := by
      intro ρ owner old g hg
      have hreplaced := @owned_replaced ρ owner f.id g.id (h.id_ne hne hrow hg) old [] (by simp)
      rwa [List.append_nil] at hreplaced
    refine page_congr hfile (fun g hg => ?_) (fun g hg => ?_) rfl
    · exact congrArg (List.map _) (howned SymbolRow.fileId s.symbols g hg)
    · exact congrArg (List.map _) (howned ChunkRow.fileId s.chunks g hg)

theorem deleteFile_rewrites (h : s.Intact) {f : FileRow} (hrow : s.file? path = some f) :
    Rewrites s (s.deleteFile path) path := by
  refine ⟨h.deleteFile path, fun other hne => deleteFile_page_of_ne h hne, ?_, ?_, ?_⟩
  all_goals rw [deleteFile_of_row hrow]
  · intro g hg
    exact h.numbers_refl g (List.mem_filter.mp hg).1
  · exact List.filter_subset_self _
  · exact ⟨rfl, rfl, rfl⟩

/-- A number that belongs to a file before and after belongs to the same path. -/
theorem Rewrites.fileById?_path (h : Rewrites s s' path) {id : RowId} (hid : s.hasFile id = true)
    (hid' : s'.hasFile id = true) :
    (s'.fileById? id).map (·.path) = (s.fileById? id).map (·.path) := by
  obtain ⟨f, hf, hfid⟩ := hasFile_iff.mp hid
  obtain ⟨g, hg, hgid⟩ := hasFile_iff.mp hid'
  have hsome : ∀ {t : Store} {row : FileRow}, row ∈ t.files → row.id = id →
      ∃ found ∈ t.files, found.id = id ∧ t.fileById? id = some found := by
    intro t row hrow hrowid
    have hisSome : (t.fileById? id).isSome := by
      rw [fileById?, List.find?_isSome]
      exact ⟨row, hrow, by simpa using hrowid⟩
    obtain ⟨found, hfound⟩ := Option.isSome_iff_exists.mp hisSome
    exact ⟨found, List.mem_of_find?_eq_some hfound, by simpa using List.find?_some hfound, hfound⟩
  obtain ⟨f', hf', hfid', hfound⟩ := hsome hf hfid
  obtain ⟨g', hg', hgid', hgfound⟩ := hsome hg hgid
  rw [hfound, hgfound, Option.map_some, Option.map_some,
    h.numbers g' hg' f' hf' (hgid'.trans hfid'.symm)]

/-- Rewriting a page brings no import, told by the paths of its files. -/
theorem Rewrites.allEdges (h : Rewrites s s' path) (hs : s.Intact) {e : Edge}
    (he : e ∈ s'.allEdges) : e ∈ s.allEdges := by
  obtain ⟨row, hrow, hedge⟩ := Intact.mem_allEdges.mp he
  have hrow' := h.edges hrow
  refine Intact.mem_allEdges.mpr ⟨row, hrow', ?_⟩
  have hfrom := h.fileById?_path (hs.edges row hrow').1 (h.intact.edges row hrow).1
  have hto := h.fileById?_path (hs.edges row hrow').2 (h.intact.edges row hrow).2
  -- the row names the same two paths as before
  rw [edge?_paths] at hedge ⊢
  rw [← hfrom, ← hto]
  exact hedge

/-! ## §3. Operations on one file. -/

/-- **Writing a source file** never fails. Its page has the row, the symbols and the snapshot of what
was read. -/
theorem putCode_page (h : s.Intact) (info : FileInfo) (symbols : List Symbol) :
    ∃ s', s.putCode info symbols
        = .ok (s', (s.file? info.path).isSome, comparison (s.snapshot? info.path) info.path symbols)
      ∧ Rewrites s s' info.path
      ∧ s'.page info.path = ⟨some ⟨info, (s.upsertFile info).2.1⟩, symbols,
          (s.page info.path).chunks, some (snapshotOf symbols)⟩ := by
  have hput := upsertFile_rewrites h info
  have hpage := upsertFile_page h info
  obtain ⟨mid, hreplace, hmid, hfiles, hmidpage⟩ :=
    replaceSymbols_page hput.intact (upsertFile_file?_self s info) symbols
  have hclear := clearEdges_rewrites hmid.intact info.path (s.upsertFile info).2.1
  have hdiff := computeDiff_rewrites hclear.intact info.path symbols
  refine ⟨_, ?_, ((hput.trans hmid (.inr hfiles)).trans hclear (.inr rfl)).trans hdiff (.inr ?_), ?_⟩
  · -- the comparison comes last, with a snapshot that nothing before it has touched
    have hsnapshot : s.snapshot? info.path
        = (mid.clearEdges (s.upsertFile info).2.1).1.snapshot? info.path := by
      show (s.page info.path).snapshot = (mid.page info.path).snapshot
      rw [hmidpage, hpage]
    rw [hsnapshot, ← computeDiff_snd, ← upsertFile_existed, putCode]
    simp only [hreplace]
    rfl
  · rw [computeDiff_frame]
  · rw [computeDiff_page]
    show ({ mid.page info.path with snapshot := some (snapshotOf symbols) } : Page) = _
    rw [hmidpage, hpage]

/-- **Writing a document** whose chunks have numbers of their own never fails. Its page has the row
and the chunks of what was read. -/
theorem putDocument_page (h : s.Intact) (info : FileInfo) {chunks : List Chunk}
    (hdistinct : (chunks.map (·.index)).Nodup) :
    ∃ s', s.putDocument info chunks = .ok (s', (s.file? info.path).isSome)
      ∧ Rewrites s s' info.path
      ∧ s'.page info.path = ⟨some ⟨info, (s.upsertFile info).2.1⟩, (s.page info.path).symbols, chunks,
          s.snapshot? info.path⟩ := by
  have hput := upsertFile_rewrites h info
  obtain ⟨mid, hreplace, hmid, hfiles, hmidpage⟩ :=
    replaceChunks_page hput.intact (upsertFile_file?_self s info) hdistinct
  refine ⟨mid, ?_, hput.trans hmid (.inr hfiles), ?_⟩
  · rw [← upsertFile_existed, putDocument]
    simp only [hreplace]
  · rw [hmidpage, upsertFile_page h info]
    rfl

/-- **Removing a file.** Its page loses all but a snapshot, and that has no names any more if the file
was a source file. -/
theorem removeFile_page (h : s.Intact) {f : FileRow} (hrow : s.file? path = some f) :
    ∃ s' diff, s.removeFile path = some (s', diff)
      ∧ Rewrites s s' path
      ∧ s'.page path = ⟨none, [], [],
          match f.fileClass with
          | .code => some (snapshotOf [])
          | .doc => s.snapshot? path⟩
      ∧ diff.path = path ∧ (diff.isFirst = true → diff.changes = [])
      ∧ Reread (s.snapshot? path) (s'.snapshot? path) diff.changes := by
  have hfiles : (s.computeDiff path []).1.files = s.files := by rw [computeDiff_frame]
  have hmidrow : (s.computeDiff path []).1.file? path = some f := by rw [file?, hfiles]; exact hrow
  have hmid := computeDiff_rewrites h path []
  cases hclass : f.fileClass with
  -- a source file is compared with no symbols at all before its rows go
  | code =>
    have hremove : s.removeFile path
        = some ((s.computeDiff path []).1.deleteFile path, (s.computeDiff path []).2) := by
      rw [removeFile, hrow, Option.map_some]
      simp only [hclass]
    have hpage : ((s.computeDiff path []).1.deleteFile path).page path
        = ⟨none, [], [], some (snapshotOf [])⟩ := by
      rw [deleteFile_page, computeDiff_snapshot?_self]
    refine ⟨_, _, hremove, hmid.trans (deleteFile_rewrites hmid.intact hmidrow) (.inl hfiles), hpage, ?_⟩
    have hsnapshot : ((s.computeDiff path []).1.deleteFile path).snapshot? path
        = some (snapshotOf []) := congrArg Page.snapshot hpage
    rw [computeDiff_snd, hsnapshot]
    exact ⟨comparison_path _ _ _, comparison_first _ _ _, .of_comparison _ _ _⟩
  | doc =>
    have hremove : s.removeFile path = some (s.deleteFile path, ⟨path, false, []⟩) := by
      rw [removeFile, hrow, Option.map_some]
      simp only [hclass]
    have hpage := deleteFile_page s path
    refine ⟨_, _, hremove, deleteFile_rewrites h hrow, hpage, rfl, fun _ => rfl, ?_⟩
    have hsnapshot : (s.deleteFile path).snapshot? path = s.snapshot? path :=
      congrArg Page.snapshot hpage
    rw [hsnapshot]
    exact .same _

theorem removeFile_of_noRow (hrow : s.file? path = none) : s.removeFile path = none := by
  unfold removeFile
  rw [hrow]
  rfl

end Store

/-! ## §4. Indexing a file. -/

/-- Chunks are numbered by their places. -/
theorem number_indices (pieces : List Document.Piece) :
    ((Document.number pieces).map (·.index)).Nodup := by
  unfold Document.number
  rw [List.map_map]
  show (List.map Prod.snd (List.zipIdx _)).Nodup
  rw [List.zipIdx_map_snd]
  exact List.nodup_range'

/-- A file can be read if its bytes are told. -/
theorem Entry.read_eq_ok_iff {e : Entry} {bytes : Text.Bytes} :
    e.read = .ok bytes ↔ e.bytes? = some bytes := by
  cases e <;> simp [Entry.read, Entry.bytes?]

namespace Indexer

theorem chunks_indices (x : Indexer) (language : Language) (content : List Char) :
    ((x.chunks language content).map (·.index)).Nodup := by
  unfold chunks
  split
  · exact number_indices _
  · exact number_indices _

/-- The row of a source file. -/
def codeInfo (path : String) (bytes : Text.Bytes) (content : List Char) : FileInfo :=
  ⟨path, (Language.ofPath path).name, Digest.ofBytes bytes, bytes.length, (parse path content).tokens,
    .code⟩

/-- The row of a document. -/
def docInfo (path : String) (bytes : Text.Bytes) : FileInfo :=
  ⟨path, (Language.ofPath path).name, Digest.ofBytes bytes, bytes.length,
    estimateTokens (Text.decodeLossy bytes), .doc⟩

/-- What stands in the way of a file, given its page: it cannot be read, or it is a source file that
is to be written and is not text. -/
def refusal? (x : Indexer) (d : Disk) (force : Bool) (page : Page) (c : FileClass) (path : String) :
    Option IndexFailure :=
  match x.read d path with
  | .error e => some e
  | .ok bytes =>
    if !force && page.row.any (·.hash == Digest.ofBytes bytes) then none
    else
      match c with
      | .code => if (Text.decode? bytes).isNone then some (.notText path) else none
      | .doc => none

/-- What may come of indexing a file. -/
inductive IndexOutcome (x : Indexer) (d : Disk) (s : Store) (c : FileClass) (path : String)
    (force : Bool) : Except IndexFailure (Store × FileOutcome) → Prop where
  /-- Something stands in the way of the file. -/
  | refused {e : IndexFailure} (refusal : x.refusal? d force (s.page path) c path = some e) :
      IndexOutcome x d s c path force (.error e)
  /-- The row has the digest of the file. -/
  | current {bytes : Text.Bytes} (read : x.read d path = .ok bytes) (kept : force = false)
      (same : (s.page path).row.any (·.hash == Digest.ofBytes bytes) = true) :
      IndexOutcome x d s c path force (.ok (s, ⟨path, .skipped, none⟩))
  /-- A source file is written. -/
  | code {bytes : Text.Bytes} {content : List Char} {s' : Store} {id : RowId} (ofClass : c = .code)
      (read : x.read d path = .ok bytes) (decoded : Text.decode? bytes = some content)
      (rewrites : s.Rewrites s' path)
      (page : s'.page path = ⟨some ⟨codeInfo path bytes content, id⟩, (parse path content).symbols,
        (s.page path).chunks, some (snapshotOf (parse path content).symbols)⟩)
      (changed : (!force && (s.page path).row.any (·.hash == Digest.ofBytes bytes)) = false) :
      IndexOutcome x d s c path force (.ok (s', ⟨path, .ofExisted (s.file? path).isSome,
        some (comparison (s.snapshot? path) path (parse path content).symbols)⟩))
  /-- A document is written. -/
  | doc {bytes : Text.Bytes} {s' : Store} {id : RowId} (ofClass : c = .doc)
      (read : x.read d path = .ok bytes) (rewrites : s.Rewrites s' path)
      (page : s'.page path = ⟨some ⟨docInfo path bytes, id⟩, (s.page path).symbols,
        x.chunks (Language.ofPath path) (Text.decodeLossy bytes), s.snapshot? path⟩)
      (changed : (!force && (s.page path).row.any (·.hash == Digest.ofBytes bytes)) = false) :
      IndexOutcome x d s c path force
        (.ok (s', ⟨path, .ofExisted (s.file? path).isSome, none⟩))

theorem isCurrent_page (s : Store) (path hash : String) :
    isCurrent s path hash = (s.page path).row.any (·.hash == hash) := rfl

/-- What may come of reading a file that is to be indexed. -/
inductive ReadOutcome (x : Indexer) (d : Disk) (path : String) : Except IndexFailure Text.Bytes → Prop where
  /-- Nothing is there. -/
  | nothing (gone : d.entry (x.place path) = .error .notFound) : ReadOutcome x d path (.error (.missing path))
  /-- Something else stands in the way of what is there. -/
  | unreached {cause : DiskError} (other : cause ≠ .notFound)
      (refused : d.entry (x.place path) = .error cause) :
      ReadOutcome x d path (.error (.unreadable path cause))
  /-- A directory is there. -/
  | directory {e : Entry} (there : d.entry (x.place path) = .ok e) (isDirectory : e.isDirectory = true) :
      ReadOutcome x d path (.error (.missing path))
  /-- The file is too large, whether or not it can be opened. -/
  | tooLarge {e : Entry} {size : Nat} (there : d.entry (x.place path) = .ok e) (sized : e.size? = some size)
      (large : x.config.maxFileBytes < size) :
      ReadOutcome x d path (.error (.tooLarge path size x.config.maxFileBytes))
  /-- The file cannot be opened. -/
  | closed {size : Nat} {why : Denial} (there : d.entry (x.place path) = .ok (.closedFile size why))
      (fits : size ≤ x.config.maxFileBytes) :
      ReadOutcome x d path (.error (.unreadable path (.denied why)))
  | read {e : Entry} {bytes : Text.Bytes} (there : d.entry (x.place path) = .ok e)
      (told : e.bytes? = some bytes) (fits : bytes.length ≤ x.config.maxFileBytes) :
      ReadOutcome x d path (.ok bytes)

theorem read_outcome (x : Indexer) (d : Disk) (path : String) : ReadOutcome x d path (x.read d path) := by
  unfold read
  cases hentry : d.entry (x.place path) with
  | error cause =>
    cases cause with
    | notFound => exact .nothing hentry
    | _ => exact .unreached (by simp) hentry
  | ok e =>
    simp only
    cases e with
    | directory => exact .directory hentry rfl
    | closedDirectory => exact .directory hentry rfl
    | file content =>
      simp only [Entry.size?]
      split
      next hlarge => exact .tooLarge hentry rfl hlarge
      next hfits => exact .read hentry rfl (Nat.not_lt.mp hfits)
    | index store =>
      simp only [Entry.size?]
      split
      next hlarge => exact .tooLarge hentry rfl hlarge
      next hfits => exact .read hentry rfl (Nat.not_lt.mp hfits)
    | closedFile size why =>
      simp only [Entry.size?]
      split
      next hlarge => exact .tooLarge hentry rfl hlarge
      next hfits => exact .closed hentry (Nat.not_lt.mp hfits)

theorem read_eq_ok {x : Indexer} {d : Disk} {path : String} {bytes : Text.Bytes}
    (h : x.read d path = .ok bytes) :
    ∃ e, d.entry (x.place path) = .ok e ∧ e.bytes? = some bytes := by
  have houtcome := read_outcome x d path
  rw [h] at houtcome
  cases houtcome with
  | read there told => exact ⟨_, there, told⟩

/-- A file that can be read is there. -/
theorem exists_of_read {x : Indexer} {d : Disk} {path : String} {bytes : Text.Bytes}
    (h : x.read d path = .ok bytes) : d.exists? (x.place path) = true := by
  obtain ⟨e, hentry, -⟩ := read_eq_ok h
  unfold Disk.exists?
  rw [hentry]
  rfl

theorem read_unstored {x : Indexer} {d : Disk} {path : String} {e : IndexFailure}
    (h : x.read d path = .error e) : ∀ cause, e ≠ .store cause := by
  have houtcome := read_outcome x d path
  rw [h] at houtcome
  cases houtcome <;> simp

/-- The store is never what stands in the way of a file. -/
theorem refusal?_unstored {x : Indexer} {d : Disk} {force : Bool} {page : Page} {c : FileClass}
    {path : String} {e : IndexFailure} (h : x.refusal? d force page c path = some e) :
    ∀ cause, e ≠ .store cause := by
  unfold refusal? at h
  cases hread : x.read d path with
  | error e' =>
    rw [hread] at h
    injection h with h
    exact h ▸ read_unstored hread
  | ok bytes =>
    rw [hread] at h
    simp only at h
    repeat' split at h
    all_goals simp at h
    intro cause
    rw [← h]
    simp

theorem refusal?_of_ok {x : Indexer} {d : Disk} {s : Store} {c : FileClass} {path : String}
    {force : Bool} {done : Store × FileOutcome} (h : IndexOutcome x d s c path force (.ok done)) :
    x.refusal? d force (s.page path) c path = none := by
  unfold refusal?
  cases h with
  | current read kept same => simp [read, kept, same]
  | code ofClass read decoded => simp [read, ofClass, decoded]
  | doc ofClass read => simp [read, ofClass]

/-- **Indexing a file** fails for the file's sake only. -/
theorem index_outcome (x : Indexer) (d : Disk) {s : Store} (hs : s.Intact) (c : FileClass)
    (path : String) (force : Bool) :
    IndexOutcome x d s c path force (x.index d s c path force) := by
  unfold index
  cases hread : x.read d path with
  | error e =>
    refine .refused ?_
    unfold refusal?
    rw [hread]
  | ok bytes =>
    simp only [bind, Except.bind]
    by_cases hskip : (!force && isCurrent s path (Digest.ofBytes bytes)) = true
    · rw [if_pos hskip]
      rw [Bool.and_eq_true, isCurrent_page] at hskip
      exact .current hread (by simpa using hskip.1) hskip.2
    · rw [if_neg hskip]
      rw [isCurrent_page] at hskip
      have hchanged := Bool.not_eq_true _ ▸ hskip
      cases c with
      | code =>
        simp only [writeFile]
        cases hdecoded : Text.decode? bytes with
        | none =>
          refine .refused ?_
          unfold refusal?
          rw [hread]
          simp only [hdecoded]
          rw [if_neg hskip]
          rfl
        | some content =>
          obtain ⟨s', hput, hrewrites, hpage⟩ :=
            Store.putCode_page hs (codeInfo path bytes content) (parse path content).symbols
          unfold codeInfo at hput
          simp only [hput]
          exact .code rfl hread hdecoded hrewrites hpage hchanged
      | doc =>
        simp only [writeDocument]
        obtain ⟨s', hput, hrewrites, hpage⟩ :=
          Store.putDocument_page hs (docInfo path bytes) (x.chunks_indices (Language.ofPath path)
            (Text.decodeLossy bytes))
        unfold docInfo at hput
        simp only [hput]
        exact .doc rfl hread hrewrites hpage hchanged

end Indexer

end CodeIndex
