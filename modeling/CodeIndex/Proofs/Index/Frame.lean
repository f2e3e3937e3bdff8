import Mathlib
import CodeIndex.Proofs.Index.Accounting
import CodeIndex.Proofs.Project.Run
import CodeIndex.Proofs.Source.Outline
import CodeIndex.Proofs.Store.Comparison

/-!
# What an operation on one file does, and what it leaves alone

A file is written under the number that its path has, so that the imports which other files make of it
stay, and its symbols come back in the order in which they stand in the file. A file that is removed takes
all that carries its number with it, and a source file leaves an empty snapshot behind. Either way
nothing is touched that belongs to another path or to a session.

An operation rewrites one page (`Store.Rewrites`), and imports are no part of a page; the two together are
all that the index holds (§1).

Main result: `operations_on_one_file_exact`.
-/

namespace CodeIndex

open Text (Bytes)
open Indexer (codeInfo)

/-! ## §1. Other paths. -/

/-- Whether an import is between two other files than the one at a path. -/
def Edge.avoids (path : String) (e : Edge) : Bool := e.source != path && e.target != path

/-- What the store holds of all other paths, and of sessions, is as it was. -/
structure OthersKept (s s' : Store) (path : String) : Prop where
  rows : ∀ other, other ≠ path → s'.file? other = s.file? other
  symbols : ∀ other, other ≠ path → s'.symbolsFor other = s.symbolsFor other
  chunks : ∀ other, other ≠ path → s'.chunksFor other = s.chunksFor other
  snapshots : ∀ other, other ≠ path → s'.snapshot? other = s.snapshot? other
  /-- The imports between them. -/
  edges : s'.allEdges.filter (Edge.avoids path) = s.allEdges.filter (Edge.avoids path)
  sessions : Store.SessionsKept s s'

/-- An operation that rewrites one page and no import between other files leaves these alone. -/
theorem OthersKept.of_rewrites {s s' : Store} {path : String} (hs : s.Intact)
    (h : s.Rewrites s' path)
    (hedges : ∀ e, e.source ≠ path → e.target ≠ path → (e ∈ s'.allEdges ↔ e ∈ s.allEdges)) :
    OthersKept s s' path where
  rows other hne := congrArg Page.row (h.others other hne)
  symbols other hne := by rw [h.intact.symbolsFor_page, hs.symbolsFor_page, h.others other hne]
  chunks other hne := by rw [h.intact.chunksFor_page, hs.chunksFor_page, h.others other hne]
  snapshots other hne := congrArg Page.snapshot (h.others other hne)
  edges := by
    refine Store.allEdges_filter_eq h.intact hs fun e he => ?_
    simp only [Edge.avoids, Bool.and_eq_true, bne_iff_ne] at he
    exact hedges e he.1 he.2
  sessions := h.kept

/-! ## §2. A source file is written. -/

/-- Symbols come back in the order of their lines. -/
theorem symbolsFor_of_page {s : Store} (hs : s.Intact) {path : String} {bytes : Bytes}
    {content : List Char} (hdecoded : Text.decode? bytes = some content)
    (hsize : bytes.length < signedEnd)
    (hpage : (s.page path).symbols = (parse path content).symbols) :
    s.symbolsFor path = (parse path content).symbols.map (SymbolRecord.mk path) := by
  rw [hs.symbolsFor_page, hpage]
  refine List.mergeSort_of_pairwise ?_
  rw [List.pairwise_map]
  have horder := List.pairwise_map.mp (parse_lines_increase path content)
  refine horder.imp_of_mem fun {a b} ha hb hlt => ?_
  -- the numbers of the lines are those of the file, so that none of them turns negative
  have hword : ∀ symbol ∈ (parse path content).symbols,
      signed64 symbol.startLine = symbol.startLine := by
    intro symbol hsymbol
    exact if_pos (lt_of_le_of_lt (startLine_le_of_decoded hdecoded hsymbol) hsize)
  simp only [hword a ha, hword b hb, Bool.or_eq_true, decide_eq_true_eq]
  exact .inl (Int.ofNat_lt.mpr hlt)

/-- A source file with the given bytes is written. -/
structure WrittenExactly (s s' : Store) (path : String) (bytes : Bytes) (content : List Char) :
    Prop where
  /-- The row has the digest, the size and the tokens of what was read, under the old number. -/
  row : ∃ id, s'.file? path = some ⟨codeInfo path bytes content, id⟩
    ∧ ∀ f, s.file? path = some f → id = f.id
  /-- Lines are kept as signed 64 bit numbers, and a file that fits the memory has no more of them. -/
  symbols : bytes.length < signedEnd →
    s'.symbolsFor path = (parse path content).symbols.map (SymbolRecord.mk path)
  dependencies : s'.dependenciesOf path = []
  /-- What other files import of it stays. An import of the file by itself goes with the outgoing ones. -/
  importers : s'.importedBy path = (s.importedBy path).filter (·.source != path)
  others : OthersKept s s' path

/-- Writing a source file writes it exactly: its page is rewritten, and only its own imports go. -/
theorem putCode_exact {s s' : Store} (hs : s.Intact) {path : String} {bytes : Bytes}
    {content : List Char} {existed : Bool} {diff : FileDiff}
    (hdecoded : Text.decode? bytes = some content)
    (hput : s.putCode (codeInfo path bytes content) (parse path content).symbols
      = .ok (s', existed, diff)) :
    existed = (s.file? path).isSome ∧ WrittenExactly s s' path bytes content := by
  obtain ⟨t, hput', hrewrites, hpage⟩ :=
    Store.putCode_page hs (codeInfo path bytes content) (parse path content).symbols
  rw [hput, Except.ok.injEq, Prod.mk.injEq, Prod.mk.injEq] at hput'
  obtain ⟨rfl, rfl, -⟩ := hput'
  have hedges : ∀ e, e ∈ s'.allEdges ↔ e ∈ s.allEdges ∧ e.source ≠ path :=
    fun e => Store.putCode_allEdges hs hput
  refine ⟨rfl, ⟨_, congrArg Page.row hpage, fun f hf => Store.upsertFile_id_of_row hf⟩,
    fun hsize => symbolsFor_of_page hrewrites.intact hdecoded hsize (congrArg Page.symbols hpage),
    ?_, ?_, .of_rewrites hs hrewrites fun e hsource _ => (hedges e).trans (and_iff_left hsource)⟩
  · unfold Store.dependenciesOf
    rw [List.filter_eq_nil_iff]
    intro e he hsource
    exact ((hedges e).mp he).2 (beq_iff_eq.mp hsource)
  · unfold Store.importedBy
    rw [List.filter_filter]
    -- before as after, what is listed are the imports that others make of the file
    have hsame := Store.allEdges_filter_eq hrewrites.intact hs
      (p := fun e => e.source != path && e.target == path) fun e he => by
        rw [hedges]
        simp only [Bool.and_eq_true, bne_iff_ne] at he
        exact and_iff_left he.1
    rw [← hsame]
    refine List.filter_congr fun e he => ?_
    rw [bne_iff_ne.mpr ((hedges e).mp he).2, Bool.true_and]

/-! ## §3. A file is removed. -/

/-- The report of a file that has lost all that its snapshot has. -/
def removals (entries : List SnapshotEntry) : List SymbolChange :=
  entries.map fun old => .of .removed old.name old.kind (some old.signature) none

/-- Compared with no symbols at all, a snapshot has lost every entry, and nothing is new. -/
theorem changesBetween_nothing (previous : List SnapshotEntry) :
    changesBetween previous (firstDeclarations []) = removals previous := by
  have hgone : ∀ old : SnapshotEntry, changeOf? (firstDeclarations []) old
      = some (.of .removed old.name old.kind (some old.signature) none) := fun _ => rfl
  unfold changesBetween removals
  rw [funext hgone, List.filterMap_eq_map']
  exact List.append_nil _

/-- No row of any table carries a number. -/
structure NumberGone (s : Store) (id : RowId) : Prop where
  files : ∀ row ∈ s.files, row.id ≠ id
  symbols : ∀ row ∈ s.symbols, row.fileId ≠ id
  chunks : ∀ row ∈ s.chunks, row.fileId ≠ id
  edges : ∀ row ∈ s.edges, row.fromId ≠ id ∧ row.toId ≠ id

/-- With the row of a path goes all that carries its number. -/
theorem NumberGone.of_rewrites {s s' : Store} {path : String} {f : FileRow} (h : s.Rewrites s' path)
    (hrow : s.file? path = some f) (hgone : s'.file? path = none) : NumberGone s' f.id := by
  obtain ⟨hf, hpath⟩ := Store.file?_eq_some hrow
  have hfiles : ∀ row ∈ s'.files, row.id ≠ f.id := fun row hmem hid =>
    Store.file?_eq_none.mp hgone row hmem ((h.numbers row hmem f hf hid).trans hpath)
  have hunused : ∀ {id}, s'.hasFile id = true → id ≠ f.id := by
    intro id hid
    obtain ⟨row, hmem, rfl⟩ := Store.hasFile_iff.mp hid
    exact hfiles row hmem
  -- the other rows belong to a file that is there
  exact ⟨hfiles, fun row hmem => hunused (h.intact.symbols row hmem),
    fun row hmem => hunused (h.intact.chunks row hmem),
    fun row hmem => ⟨hunused (h.intact.edges row hmem).1, hunused (h.intact.edges row hmem).2⟩⟩

/-- A file with a given row is removed. -/
structure RemovedExactly (s s' : Store) (path : String) (f : FileRow) (diff : FileDiff) : Prop where
  row : s'.file? path = none
  symbols : s'.symbolsFor path = []
  chunks : s'.chunksFor path = []
  edges : ∀ e ∈ s'.allEdges, e.source ≠ path ∧ e.target ≠ path
  number : NumberGone s' f.id
  others : OthersKept s s' path
  /-- A source file is reported to have lost every name of its snapshot, in the order of the names. -/
  lost : f.fileClass = .code → ∀ previous, s.snapshot? path = some previous →
    diff = ⟨path, false, removals previous⟩ ∧ InByteOrder (previous.map (·.name))
  unseen : f.fileClass = .code → s.snapshot? path = none → diff = ⟨path, true, []⟩
  /-- It counts as compared, with nothing in it. -/
  baseline : f.fileClass = .code → s'.snapshot? path = some []
  document : f.fileClass = .doc → diff = ⟨path, false, []⟩ ∧ s'.snapshot? path = s.snapshot? path

theorem removeFile_diff {s s' : Store} {path : String} {f : FileRow} {diff : FileDiff}
    (hrow : s.file? path = some f) (hremove : s.removeFile path = some (s', diff)) :
    diff = match f.fileClass with
      | .code => comparison (s.snapshot? path) path []
      | .doc => ⟨path, false, []⟩ := by
  rw [Store.removeFile, hrow, Option.map_some, Option.some.injEq] at hremove
  refine (congrArg Prod.snd hremove).symm.trans ?_
  cases f.fileClass with
  | code => exact s.computeDiff_snd path []
  | doc => rfl

/-- Removing a file that has a row removes it exactly. -/
theorem removeFile_exact {s : Store} (hs : s.Intact) {path : String} {f : FileRow}
    (hrow : s.file? path = some f) :
    ∃ s' diff, s.removeFile path = some (s', diff) ∧ RemovedExactly s s' path f diff := by
  obtain ⟨s', diff, hremove, hrewrites, hpage, -⟩ := Store.removeFile_page hs hrow
  have hgone : s'.file? path = none := congrArg Page.row hpage
  have hsnapshot := congrArg Page.snapshot hpage
  have hdiff := removeFile_diff hrow hremove
  have hedges : ∀ e, e ∈ s'.allEdges ↔ e ∈ s.allEdges ∧ e.source ≠ path ∧ e.target ≠ path :=
    fun e => Store.removeFile_allEdges hs hremove
  refine ⟨s', diff, hremove, ?_⟩
  exact {
    row := hgone
    symbols := by rw [hrewrites.intact.symbolsFor_page, hpage, List.map_nil, List.mergeSort_nil]
    chunks := by rw [hrewrites.intact.chunksFor_page, hpage, List.mergeSort_nil]
    edges := fun e he => ((hedges e).mp he).2
    number := .of_rewrites hrewrites hrow hgone
    others := .of_rewrites hs hrewrites fun e hsource htarget =>
      (hedges e).trans (and_iff_left ⟨hsource, htarget⟩)
    lost := by
      intro hclass previous hprevious
      rw [hdiff, hclass, hprevious]
      refine ⟨?_, inByteOrder_iff.mpr (hs.snapshot?_sorted hprevious)⟩
      exact congrArg (FileDiff.mk path false) (changesBetween_nothing previous)
    unseen := fun hclass hnone => by rw [hdiff, hclass, hnone]; rfl
    baseline := fun hclass => by rw [hclass] at hsnapshot; exact hsnapshot
    document := fun hclass => by
      rw [hclass] at hsnapshot hdiff
      exact ⟨hdiff, hsnapshot⟩ }

/-! ## §4. Operations on one file. -/

/-- **An operation on one file does to it what it says, and nothing to others.** A source file that is
indexed and was not found unchanged was read, and is written; a file that has a row can be removed. -/
theorem operations_on_one_file_exact (x : Indexer) (d : Disk) (s : Store) (hs : s.Intact)
    (path : String) :
    (∀ force s' o, x.index d s .code path force = .ok (s', o) → o.status ≠ .skipped →
      ∃ bytes content, x.read d path = .ok bytes ∧ Text.decode? bytes = some content
        ∧ o.status = .ofExisted (s.file? path).isSome ∧ WrittenExactly s s' path bytes content)
    ∧ ∀ f, s.file? path = some f →
      ∃ s' diff, s.removeFile path = some (s', diff) ∧ RemovedExactly s s' path f diff := by
  refine ⟨fun force s' o hindex hstatus => ?_, fun f hrow => removeFile_exact hs hrow⟩
  cases Indexer.index_writes hindex with
  | skipped => exact absurd rfl hstatus
  | @code bytes content _ existed diff read decoded put =>
    obtain ⟨hexisted, hwritten⟩ := putCode_exact hs decoded put
    exact ⟨bytes, content, read, decoded, congrArg IndexStatus.ofExisted hexisted, hwritten⟩

/-- The text of two lines, `def g():` and `def f():`. -/
def definesGF : Bytes :=
  [100, 101, 102, 32, 103, 40, 41, 58, 10, 100, 101, 102, 32, 102, 40, 41, 58]

/-- A file that another one imports is written anew, or it is removed. -/
theorem operations_on_imported_file_exact :
    unevenIndex.Intact
    ∧ (∃ s' o, unevenIndexer.index (pythonTree definesGF) unevenIndex .code "a.py" false = .ok (s', o)
      ∧ o.status = .updated ∧ s'.fileId? "a.py" = some 1
      ∧ (s'.symbolsFor "a.py").map (·.symbol.name) = ["g", "f"]
      ∧ s'.importedBy "a.py" = [⟨"b.py", "a.py", some "f"⟩])
    ∧ ∃ s' diff, unevenIndex.removeFile "a.py" = some (s', diff)
      ∧ diff.changes.map (fun c => (c.kind, c.symbol)) = [(.removed, "g")]
      ∧ s'.file? "b.py" = unevenIndex.file? "b.py"
      ∧ NumberGone s' 1 ∧ s'.snapshot? "a.py" = some [] := by
  obtain ⟨hwritten, hremoved⟩ := operations_on_one_file_exact unevenIndexer (pythonTree definesGF)
    unevenIndex unevenIndex_intact "a.py"
  refine ⟨unevenIndex_intact, ?_, ?_⟩
  · have hstatus : (unevenIndexer.index (pythonTree definesGF) unevenIndex .code "a.py" false).toOption.map
        (·.2.status) = some .updated := by decide +kernel
    have hread : unevenIndexer.read (pythonTree definesGF) "a.py" = .ok definesGF := by decide +kernel
    cases hindex : unevenIndexer.index (pythonTree definesGF) unevenIndex .code "a.py" false with
    | error e =>
      rw [hindex] at hstatus
      exact absurd hstatus (by simp [Except.toOption])
    | ok done =>
      rw [hindex] at hstatus
      obtain ⟨s', o⟩ := done
      have hupdated : o.status = .updated := Option.some.inj hstatus
      obtain ⟨bytes, content, hbytes, hcontent, -, h⟩ := hwritten false s' o hindex (by simp [hupdated])
      obtain rfl := Except.ok.inj (hread.symm.trans hbytes)
      obtain ⟨id, hrow, hkept⟩ := h.row
      refine ⟨s', o, rfl, hupdated, ?_, ?_, ?_⟩
      · rw [Store.fileId?, hrow, hkept ⟨⟨"a.py", "python", "then", 1, 1, .code⟩, 1⟩ rfl]
        rfl
      · have hdecoded : Text.decode? definesGF = some "def g():\ndef f():".toList := by decide +kernel
        obtain rfl := Option.some.inj (hdecoded.symm.trans hcontent)
        rw [h.symbols (by decide)]
        decide +kernel
      · rw [h.importers, Store.importedBy, unevenIndex_allEdges]
        decide +kernel
  · obtain ⟨s', diff, hremove, h⟩ := hremoved ⟨⟨"a.py", "python", "then", 1, 1, .code⟩, 1⟩ rfl
    have hbefore : unevenIndex.snapshot? "a.py" = some [⟨"g", .function, "def g()", "then"⟩] :=
      congrArg some (List.mergeSort_singleton _)
    obtain ⟨hdiff, -⟩ := h.lost rfl [⟨"g", .function, "def g()", "then"⟩] hbefore
    refine ⟨s', diff, hremove, ?_, h.others.rows "b.py" (by decide), h.number, h.baseline rfl⟩
    rw [hdiff]
    rfl

end CodeIndex
