import Mathlib
import CodeIndex.Proofs.Selection.Discovery

/-!
# Rows and the contents they stand for

A row names a content by its digest, and everything on the page of a path follows from the path and
that content (`PageOf`). This is what makes it right to leave a file alone whose digest has not
changed. The invariant of an index says so of every row (`Records`): the key is one under which a file
is selected, and the page is that of some content that was on the disk at some time. A pass keeps it.

After a pass without errors the contents are those on the disk now, provided that digests tell them
apart, and the rows are those of the selected files (`Mirrors`). Two such indices agree in all but the
numbers of their rows.

Main results:
  * `Records.indexAll` — a pass keeps the invariant;
  * `Mirrors.of_indexAll` — a pass without errors leaves an index that mirrors the disk;
  * `Mirrors.pages_agree`, `listFiles_agree` — indices that mirror one disk list the same.
-/

namespace CodeIndex

open Text (Bytes)

/-! ## §1. Contents. -/

/-- The contents of the files below a directory. -/
def Disk.contentsBelow (d : Disk) (root : String) : List Bytes :=
  match d.locate root with
  | .ok start => d.entries.filterMap fun (place, e) => if start.isPrefixOf place then e.bytes? else none
  | .error _ => []

namespace Indexer

variable {x : Indexer} {d : Disk} {path : String} {c : FileClass} {bytes : Bytes}

/-- The content of a file with an eligible key is one below the root. -/
theorem Eligible.read_mem (h : x.Eligible path c) {start : Location} (hstart : d.locate x.root = .ok start)
    (hread : x.read d path = .ok bytes) : bytes ∈ d.contentsBelow x.root := by
  obtain ⟨names, hnames, rfl, -, -⟩ := h
  obtain ⟨e, hentry, hbytes⟩ := read_eq_ok hread
  unfold place at hentry
  rw [under_keyOf] at hentry
  obtain ⟨hmem, -⟩ := Disk.entry_below hstart hnames hentry
  unfold Disk.contentsBelow
  rw [hstart]
  refine List.mem_filterMap.mpr ⟨_, hmem, ?_⟩
  show (if start.isPrefixOf (start ++ names) then e.bytes? else none) = some bytes
  rw [if_pos (List.isPrefixOf_iff_prefix.mpr (List.prefix_append _ _))]
  exact hbytes

theorem Eligible.classOf (h : x.Eligible path c) : x.filter.classify? path = some c := by
  obtain ⟨-, -, -, -, hclass⟩ := h
  exact hclass

theorem Eligible.unique {c' : FileClass} (h : x.Eligible path c) (h' : x.Eligible path c') : c' = c :=
  Option.some.inj (h'.classOf.symm.trans h.classOf)

/-- The page of a path whose file was indexed under a class with a content. A document may have a
snapshot, of which nothing is said. -/
inductive PageOf (x : Indexer) (path : String) : FileClass → Bytes → Page → Prop where
  | code {bytes : Bytes} {content : List Char} {id : RowId} (decoded : Text.decode? bytes = some content) :
      PageOf x path .code bytes ⟨some ⟨codeInfo path bytes content, id⟩, (parse path content).symbols,
        [], some (snapshotOf (parse path content).symbols)⟩
  | doc {bytes : Bytes} {id : RowId} {snapshot : Option (List SnapshotEntry)} :
      PageOf x path .doc bytes ⟨some ⟨docInfo path bytes, id⟩, [],
        x.chunks (Language.ofPath path) (Text.decodeLossy bytes), snapshot⟩

/-- The row has the class and the digest of the content. -/
theorem PageOf.row {page : Page} (h : PageOf x path c bytes page) :
    ∃ row, page.row = some row ∧ row.path = path ∧ row.fileClass = c
      ∧ row.hash = Digest.ofBytes bytes := by
  cases h with
  | code decoded => exact ⟨_, rfl, rfl, rfl, rfl⟩
  | doc => exact ⟨_, rfl, rfl, rfl, rfl⟩

/-- A page without a row, and without what belongs to one. -/
structure Vacant (page : Page) : Prop where
  row : page.row = none
  symbols : page.symbols = []
  chunks : page.chunks = []

/-- A page is vacant, or that of an eligible path and a known content. -/
inductive Recorded (x : Indexer) (known : Bytes → Prop) (path : String) (page : Page) : Prop where
  | vacant (vacant : Vacant page)
  | file {c : FileClass} {bytes : Bytes} (eligible : x.Eligible path c) (isKnown : known bytes)
      (pageOf : PageOf x path c bytes page)

variable {known : Bytes → Prop} {force : Bool} {old new : Page} {changes : List SymbolChange}

/-- What a file of the other class would have is not on the page. -/
theorem Recorded.others_empty (h : Recorded x known path old) (heligible : x.Eligible path c) :
    (c = .code → old.chunks = []) ∧ (c = .doc → old.symbols = []) := by
  cases h with
  | vacant vacant => exact ⟨fun _ => vacant.chunks, fun _ => vacant.symbols⟩
  | file eligible _ pageOf =>
    have hclass := eligible.unique heligible
    cases pageOf with
    | code decoded => exact ⟨fun _ => rfl, fun hdoc => absurd (hclass.symm.trans hdoc) (by simp)⟩
    | doc => exact ⟨fun hcode => absurd (hclass.symm.trans hcode) (by simp), fun _ => rfl⟩

theorem Recorded.visit (h : Recorded x known path old) (heligible : x.Eligible path c)
    (hknown : ∀ bytes, x.read d path = .ok bytes → known bytes)
    (hvisit : Visit x d force c path old new changes) : Recorded x known path new := by
  have hempty := h.others_empty heligible
  -- a visit replaces what its class has, and there is nothing of the other class to be left over
  cases hvisit with
  | refused => exact h
  | current => exact h
  | code ofClass read decoded =>
    subst ofClass
    rw [hempty.1 rfl]
    exact .file heligible (hknown _ read) (.code decoded)
  | doc ofClass read =>
    subst ofClass
    rw [hempty.2 rfl]
    exact .file heligible (hknown _ read) .doc

theorem Recorded.prune (h : Recorded x known path old) (hprune : Prune x d path old new changes) :
    Recorded x known path new := by
  cases hprune with
  | present => exact h
  | vanished => exact .vacant ⟨rfl, rfl, rfl⟩

theorem Recorded.pathPass {files : List Discovered} (h : Recorded x known path old)
    (heligible : ∀ f ∈ files, x.Eligible f.path f.fileClass)
    (hknown : ∀ f ∈ files, ∀ bytes, x.read d f.path = .ok bytes → known bytes)
    (hpass : PathPass x d force files path old new changes) : Recorded x known path new := by
  obtain ⟨mid, visited, pruned, -, hvisit, hprune⟩ := hpass
  have hmid : Recorded x known path mid := by
    rcases hvisit with ⟨f, hf, rfl, hvisit⟩ | ⟨-, rfl, -⟩
    · exact h.visit (heligible f hf) (hknown f hf) hvisit
    · exact h
  rcases hprune with ⟨-, hprune⟩ | ⟨-, rfl, -⟩
  · exact hmid.prune hprune
  · exact hmid

/-! ## §2. Indices that record contents. -/

/-- Every page of an index is recorded, and imports are made by source files only. -/
structure Records (x : Indexer) (known : Bytes → Prop) (s : Store) : Prop where
  intact : s.Intact
  pages : ∀ path, Recorded x known path (s.page path)
  sources : ∀ e ∈ s.allEdges, x.filter.classify? e.source = some .code

theorem Records.empty (x : Indexer) (known : Bytes → Prop) : Records x known Store.empty where
  intact := Store.intact_empty
  pages _ := .vacant ⟨rfl, rfl, rfl⟩
  sources e he := by
    obtain ⟨row, hrow, -⟩ := Store.Intact.mem_allEdges.mp he
    exact absurd hrow (by simp [Store.empty])

/-- What is selected is eligible, and its contents are below the root. -/
theorem selected_known (hnamed : d.NamedBelow x.root) {files : List Discovered}
    (hselected : x.selected d [] = .ok files) :
    (∀ f ∈ files, x.Eligible f.path f.fileClass)
      ∧ ∀ f ∈ files, ∀ bytes, x.read d f.path = .ok bytes → bytes ∈ d.contentsBelow x.root := by
  have heligible : ∀ f ∈ files, x.Eligible f.path f.fileClass :=
    fun f hf => Eligible.of_selected hnamed hselected hf
  obtain ⟨start, hstart, -⟩ := selected_found hselected
  exact ⟨heligible, fun f hf bytes hread => (heligible f hf).read_mem hstart hread⟩

/-- **A pass keeps what an index records.** -/
theorem Records.indexAll {s : Store} (h : Records x known s) (hnamed : d.NamedBelow x.root)
    (hknown : ∀ bytes ∈ d.contentsBelow x.root, known bytes) (force : Bool) :
    Records x known (x.indexAll d s ⟨force, []⟩).1 := by
  cases hselected : x.selected d [] with
  | error e =>
    unfold Indexer.indexAll
    rw [hselected]
    exact h
  | ok files =>
    obtain ⟨s', report, hpass, hs', -, hedges, -, -, hpaths⟩ :=
      @indexAll_paths x d s h.intact ⟨force, []⟩ files hselected
    obtain ⟨heligible, hcontents⟩ := selected_known hnamed hselected
    rw [hpass]
    refine ⟨hs', fun path => ?_, fun e he => h.sources e (hedges e he)⟩
    exact (h.pages path).pathPass heligible
      (fun f hf bytes hread => hknown bytes (hcontents f hf bytes hread)) (hpaths path)

/-! ## §3. Indices that mirror the disk. -/

/-- An index holds the contents that the selected files have now, and nothing else. -/
structure Mirrors (x : Indexer) (d : Disk) (files : List Discovered) (s : Store) : Prop where
  intact : s.Intact
  eligible : ∀ f ∈ files, x.Eligible f.path f.fileClass
  selected : ∀ f ∈ files, ∃ bytes, x.read d f.path = .ok bytes
    ∧ PageOf x f.path f.fileClass bytes (s.page f.path)
  others : ∀ path, path ∉ files.map (·.path) → Vacant (s.page path)
  sources : ∀ e ∈ s.allEdges, x.filter.classify? e.source = some .code

/-- A row that has the digest of a known content is that of the content. -/
theorem Recorded.of_same (h : Recorded x known path old) (heligible : x.Eligible path c)
    (hbytes : known bytes)
    (hdigest : ∀ a b, known a → known b → Digest.ofBytes a = Digest.ofBytes b → a = b)
    (hsame : old.row.any (·.hash == Digest.ofBytes bytes) = true) : PageOf x path c bytes old := by
  cases h with
  | vacant vacant => rw [vacant.row] at hsame; exact absurd hsame (by simp)
  | @file c' bytes' eligible isKnown pageOf =>
    -- one digest is one content
    obtain ⟨row, hrow, -, -, hhash⟩ := pageOf.row
    rw [hrow, Option.any_some, beq_iff_eq, hhash] at hsame
    rw [← hdigest bytes' bytes isKnown hbytes hsame, ← heligible.unique eligible]
    exact pageOf

/-- A file that is visited and not refused has the page of its content. -/
theorem Recorded.visited (h : Recorded x known path old) (heligible : x.Eligible path c)
    (hknown : ∀ bytes, x.read d path = .ok bytes → known bytes)
    (hdigest : ∀ a b, known a → known b → Digest.ofBytes a = Digest.ofBytes b → a = b)
    (haccepted : x.refusal? d force old c path = none)
    (hvisit : Visit x d force c path old new changes) :
    ∃ bytes, x.read d path = .ok bytes ∧ PageOf x path c bytes new := by
  have hempty := h.others_empty heligible
  cases hvisit with
  | refused refusal => rw [haccepted] at refusal; exact absurd refusal (by simp)
  | current read same => exact ⟨_, read, h.of_same heligible (hknown _ read) hdigest same⟩
  | code ofClass read decoded =>
    subst ofClass
    rw [hempty.1 rfl]
    exact ⟨_, read, .code decoded⟩
  | doc ofClass read =>
    subst ofClass
    rw [hempty.2 rfl]
    exact ⟨_, read, .doc⟩

/-- **A pass without errors mirrors the disk**, if rows are those of regular files or of nothing. -/
theorem Mirrors.of_indexAll {s s' : Store} {report : PassReport} (h : Records x known s)
    (hnamed : d.NamedBelow x.root) (hknown : ∀ bytes ∈ d.contentsBelow x.root, known bytes)
    (hdigest : ∀ a b, known a → known b → Digest.ofBytes a = Digest.ofBytes b → a = b)
    (hrows : ∀ row ∈ s.files, d.isFile (x.place row.path) = true ∨ d.exists? (x.place row.path) = false)
    {files : List Discovered} (hselected : x.selected d [] = .ok files)
    (hpass : x.indexAll d s ⟨force, []⟩ = (s', .ok report)) (herrors : report.errors = []) :
    Mirrors x d files s' := by
  obtain ⟨after, found, hafter, hs', -, hedges, hfound, -, hpaths⟩ :=
    @indexAll_paths x d s h.intact ⟨force, []⟩ files hselected
  rw [hpass] at hafter
  injection hafter with hstore hreport
  injection hreport with hreport
  subst hstore hreport
  obtain ⟨heligible, hcontents⟩ := selected_known hnamed hselected
  have hread : ∀ f ∈ files, ∀ bytes, x.read d f.path = .ok bytes → known bytes :=
    fun f hf bytes hread => hknown bytes (hcontents f hf bytes hread)
  have haccepted : ∀ f ∈ files, x.refusal? d force (s.page f.path) f.fileClass f.path = none := by
    intro f hf
    rw [herrors] at hfound
    exact List.filterMap_eq_nil_iff.mp hfound.symm f hf
  refine ⟨hs', heligible, ?_, ?_, fun e he => h.sources e (hedges e he)⟩
  -- a selected file has been visited and not refused
  · intro f hf
    obtain ⟨mid, visited, pruned, -, hvisit, hprune⟩ := hpaths f.path
    rcases hvisit with ⟨g, hg, hpath, hvisit⟩ | ⟨hnot, -⟩
    · have hgf : g = f := List.inj_on_of_nodup_map (selected_paths hselected) hg hf hpath
      subst hgf
      obtain ⟨bytes, hbytes, hpage⟩ :=
        (h.pages g.path).visited (heligible g hg) (hread g hg) hdigest (haccepted g hg) hvisit
      refine ⟨bytes, hbytes, ?_⟩
      -- the file is there, so that its row stays
      have hkept : s'.page g.path = mid := by
        rcases hprune with ⟨-, hprune⟩ | ⟨-, hkept, -⟩
        · exact (hprune.of_exists (exists_of_read hbytes)).1
        · exact hkept
      rw [hkept]
      exact hpage
    · exact absurd (List.mem_map_of_mem hf) hnot
  -- any other path has no row, or has lost it
  · intro path hpath
    obtain ⟨mid, visited, pruned, -, hvisit, hprune⟩ := hpaths path
    have hmid : mid = s.page path := by
      rcases hvisit with ⟨f, hf, rfl, -⟩ | ⟨-, hmid, -⟩
      · exact absurd (List.mem_map_of_mem hf) hpath
      · exact hmid
    subst hmid
    rcases hprune with ⟨-, hprune⟩ | ⟨hnone, hkept, -⟩
    · generalize s'.page path = last at hprune
      cases hprune with
      | vanished => exact ⟨rfl, rfl, rfl⟩
      | present there =>
        -- a row of an eligible key whose file is there would have been selected
        cases h.pages path with
        | vacant vacant => exact vacant
        | file eligible isKnown pageOf =>
          obtain ⟨row, hrow, hrowpath, -, -⟩ := pageOf.row
          have hmem := (Store.file?_eq_some hrow).1
          rcases hrows row hmem with hfile | hmissing
          · rw [hrowpath] at hfile
            exact absurd (eligible.selected hselected hfile) hpath
          · rw [hrowpath, there] at hmissing
            exact absurd hmissing (by simp)
    · rw [hkept]
      cases h.pages path with
      | vacant vacant => exact vacant
      | file eligible isKnown pageOf =>
        obtain ⟨row, hrow, -⟩ := pageOf.row
        rw [hrow] at hnone
        exact absurd hnone (by simp)

end Indexer

/-! ## §4. Indices that hold the same. -/

/-- Pages that differ in the numbers of their rows at most. Only of a source file is the snapshot
compared. -/
structure Page.Agrees (a b : Page) : Prop where
  row : a.row.map (·.toFileInfo) = b.row.map (·.toFileInfo)
  symbols : a.symbols = b.symbols
  chunks : a.chunks = b.chunks
  snapshot : ∀ row, a.row = some row → row.fileClass = .code → a.snapshot = b.snapshot

theorem Indexer.PageOf.agrees {x : Indexer} {path : String} {c : FileClass} {bytes : Bytes} {a b : Page}
    (ha : PageOf x path c bytes a) (hb : PageOf x path c bytes b) : a.Agrees b := by
  cases ha with
  | code decoded =>
    cases hb with
    | code decoded' =>
      have hcontent := Option.some.inj (decoded.symm.trans decoded')
      subst hcontent
      exact ⟨rfl, rfl, rfl, fun _ _ _ => rfl⟩
  | doc =>
    cases hb with
    | doc =>
      refine ⟨rfl, rfl, rfl, fun row hrow hcode => ?_⟩
      rw [← Option.some.inj hrow] at hcode
      exact absurd hcode (by simp [docInfo])

/-- Indices that mirror one disk agree on every page. -/
theorem Indexer.Mirrors.pages_agree {x : Indexer} {d : Disk} {files : List Discovered} {s t : Store}
    (hs : Mirrors x d files s) (ht : Mirrors x d files t) (path : String) :
    (s.page path).Agrees (t.page path) := by
  by_cases hpath : path ∈ files.map (·.path)
  · obtain ⟨f, hf, rfl⟩ := List.mem_map.mp hpath
    obtain ⟨bytes, hread, hpage⟩ := hs.selected f hf
    obtain ⟨bytes', hread', hpage'⟩ := ht.selected f hf
    have hbytes := Except.ok.inj (hread.symm.trans hread')
    subst hbytes
    exact hpage.agrees hpage'
  · have hvacant := hs.others path hpath
    have hvacant' := ht.others path hpath
    refine ⟨by rw [hvacant.row, hvacant'.row], by rw [hvacant.symbols, hvacant'.symbols],
      by rw [hvacant.chunks, hvacant'.chunks], fun row hrow => ?_⟩
    rw [hvacant.row] at hrow
    exact absurd hrow (by simp)

namespace Store

variable {s t : Store}

/-- What two indices hold about every path is the same. Numbers of rows are not compared. -/
structure SameIndex (s t : Store) : Prop where
  files : ∀ c, (s.listFiles c).map (·.toFileInfo) = (t.listFiles c).map (·.toFileInfo)
  symbols : ∀ path, s.symbolsFor path = t.symbolsFor path
  chunks : ∀ path, s.chunksFor path = t.chunksFor path
  dependencies : ∀ path, s.dependenciesOf path = t.dependenciesOf path
  importers : ∀ path, s.importedBy path = t.importedBy path
  /-- The snapshots of source files that have a row. -/
  snapshots : ∀ row ∈ s.files, row.fileClass = .code → s.snapshot? row.path = t.snapshot? row.path

theorem mem_listFiles (hs : s.Intact) {c : Option FileClass} {info : FileInfo} :
    info ∈ (s.listFiles c).map (·.toFileInfo) ↔
      (s.file? info.path).map (·.toFileInfo) = some info ∧ c.all (info.fileClass == ·) = true := by
  unfold listFiles
  simp only [List.mem_map, List.mem_mergeSort, List.mem_filter]
  constructor
  · rintro ⟨row, ⟨hrow, hclass⟩, rfl⟩
    rw [file?_of_mem hs.paths hrow]
    exact ⟨rfl, hclass⟩
  · rintro ⟨hinfo, hclass⟩
    obtain ⟨row, hrow, rfl⟩ := Option.map_eq_some_iff.mp hinfo
    exact ⟨row, ⟨(file?_eq_some hrow).1, hclass⟩, rfl⟩

theorem listFiles_pairwise (s : Store) (c : Option FileClass) :
    (s.listFiles c).Pairwise fun a b => a.path ≤ b.path := by
  have hpairwise := @List.pairwise_mergeSort _ (fun a b : FileRow => decide (a.path ≤ b.path))
    (fun a b c hab hbc => by simpa using le_trans (by simpa using hab) (by simpa using hbc))
    (fun a b => by simpa using le_total a.path b.path)
    (s.files.filter fun f => c.all (f.fileClass == ·))
  exact hpairwise.imp (by simp)

/-- Files are listed in the order of their paths, each path once. -/
theorem listFiles_sorted (hs : s.Intact) (c : Option FileClass) :
    ((s.listFiles c).map (·.toFileInfo)).Pairwise (fun a b => a.path ≤ b.path)
      ∧ ((s.listFiles c).map (·.toFileInfo)).Nodup := by
  constructor
  · rw [List.pairwise_map]
    exact s.listFiles_pairwise c
  · refine List.Nodup.of_map FileInfo.path ?_
    rw [List.map_map]
    show ((s.listFiles c).map (·.path)).Nodup
    unfold listFiles
    rw [((List.mergeSort_perm _ _).map _).nodup_iff]
    exact hs.paths.sublist (List.filter_sublist.map _)

/-- Stores that have the same rows but for their numbers list them alike. -/
theorem listFiles_agree (hs : s.Intact) (ht : t.Intact)
    (h : ∀ path, (s.file? path).map (·.toFileInfo) = (t.file? path).map (·.toFileInfo))
    (c : Option FileClass) :
    (s.listFiles c).map (·.toFileInfo) = (t.listFiles c).map (·.toFileInfo) := by
  have hperm : ((s.listFiles c).map (·.toFileInfo)).Perm ((t.listFiles c).map (·.toFileInfo)) := by
    rw [List.perm_ext_iff_of_nodup (listFiles_sorted hs c).2 (listFiles_sorted ht c).2]
    intro info
    rw [mem_listFiles hs, mem_listFiles ht, h]
  refine hperm.eq_of_pairwise ?_ (listFiles_sorted hs c).1 (listFiles_sorted ht c).1
  -- one path has one row
  intro a b ha hb hab hba
  have hpath : a.path = b.path := le_antisymm hab hba
  have hrow := ((mem_listFiles hs).mp ha).1
  rw [h, hpath, ((mem_listFiles ht).mp hb).1] at hrow
  exact (Option.some.inj hrow).symm

/-- Stores whose pages agree and that list the same imports hold the same. -/
theorem SameIndex.of_pages (hs : s.Intact) (ht : t.Intact)
    (hpages : ∀ path, (s.page path).Agrees (t.page path)) (hedges : s.allEdges = t.allEdges) :
    SameIndex s t := by
  refine ⟨listFiles_agree hs ht fun path => (hpages path).row, fun path => ?_, fun path => ?_,
    fun path => ?_, fun path => ?_, fun row hrow hcode => ?_⟩
  · rw [hs.symbolsFor_page, ht.symbolsFor_page, (hpages path).symbols]
  · rw [hs.chunksFor_page, ht.chunksFor_page, (hpages path).chunks]
  · unfold dependenciesOf
    rw [hedges]
  · unfold importedBy
    rw [hedges]
  · exact (hpages row.path).snapshot row (file?_of_mem hs.paths hrow) hcode

end Store

end CodeIndex
