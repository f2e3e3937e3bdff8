import Mathlib
import CodeIndex.Index.Pass
import CodeIndex.Proofs.Index.Page

/-!
# What a pass does to each path

A pass goes through the files that are selected and then through the rows of the index. It comes by a
path once at most on either way, so what it does can be told path by path: a selected file is visited
(`Visit`), and a row whose file has vanished is taken away (`Prune`), each from the page that the path
had at the start.

Main results:
  * `indexAll_paths` — a pass over selected files succeeds, and every path has been through a visit, if
    it is selected, and then a prune, if it has a row; what is reported about the path is what these
    two have found;
  * `selected_paths` — no path is selected twice.
-/

namespace CodeIndex

/-! ## §1. Reports. -/

/-- The changes of a path in some reports. -/
def pending (path : String) (diffs : List FileDiff) : List SymbolChange :=
  (diffs.filter (·.path == path)).flatMap (·.changes)

theorem pending_append (path : String) (diffs more : List FileDiff) :
    pending path (diffs ++ more) = pending path diffs ++ pending path more := by
  unfold pending
  rw [List.filter_append, List.flatMap_append]

/-- A report without changes may be left out. -/
theorem pending_changed (path : String) (diff : Option FileDiff) :
    pending path (PassReport.changed diff) = pending path diff.toList := by
  cases diff with
  | none => rfl
  | some diff =>
    cases hempty : diff.changes.isEmpty with
    | false =>
      unfold PassReport.changed
      rw [Option.filter_some_pos (by simpa using hempty)]
    | true =>
      have hnil : diff.changes = [] := List.isEmpty_iff.mp hempty
      by_cases hpath : diff.path = path <;> simp [PassReport.changed, pending, hnil, hpath]

theorem pending_self (diff : FileDiff) : pending diff.path [diff] = diff.changes := by
  simp [pending]

theorem pending_of_ne {path : String} {diff : FileDiff} (hne : path ≠ diff.path) :
    pending path [diff] = [] := by
  simp [pending, Ne.symm hne]

theorem pending_comparison (previous : Option (List SnapshotEntry)) (path : String)
    (symbols : List Symbol) :
    pending path [comparison previous path symbols] = (comparison previous path symbols).changes := by
  have hself := pending_self (comparison previous path symbols)
  rwa [comparison_path] at hself

theorem mem_changed {diff : FileDiff} {found : Option FileDiff}
    (h : diff ∈ PassReport.changed found) : found = some diff := by
  unfold PassReport.changed at h
  exact (Option.filter_eq_some_iff.mp (Option.mem_toList.mp h)).1

namespace PassReport

theorem record_diffs (r : PassReport) (o : FileOutcome) :
    (r.record o).diffs = r.diffs ++ changed o.diff := by
  unfold record
  cases o.status <;> rfl

theorem record_errors (r : PassReport) (o : FileOutcome) : (r.record o).errors = r.errors := by
  unfold record
  cases o.status <;> rfl

end PassReport

/-! ## §2. Going through rows. -/

/-- How far a pass has come by going through some rows, each from the page that its path had. What is
done about a row is told by the page before, the page after and the changes that were found. -/
structure GoneThrough {ρ : Type} (pathOf : ρ → String)
    (does : ρ → Page → Page → List SymbolChange → Prop) (rows : List ρ) (p p' : Pass) : Prop where
  intact : p'.store.Intact
  kept : Store.SessionsKept p.store p'.store
  edges : ∀ e ∈ p'.store.allEdges, e ∈ p.store.allEdges
  /-- All other paths are left alone. -/
  others : ∀ path, path ∉ rows.map pathOf →
    p'.store.page path = p.store.page path
      ∧ pending path p'.report.diffs = pending path p.report.diffs
  each : ∀ row ∈ rows, ∃ changes,
    does row (p.store.page (pathOf row)) (p'.store.page (pathOf row)) changes
      ∧ pending (pathOf row) p'.report.diffs = pending (pathOf row) p.report.diffs ++ changes
  /-- A first reading has no changes. -/
  firsts : ∀ diff ∈ p'.report.diffs,
    diff ∈ p.report.diffs ∨ (diff.isFirst = true → diff.changes = [])

namespace GoneThrough

variable {ρ : Type} {pathOf : ρ → String} {does : ρ → Page → Page → List SymbolChange → Prop}
  {p mid p' : Pass}

theorem nil (hs : p.store.Intact) : GoneThrough pathOf does [] p p where
  intact := hs
  kept := .refl p.store
  edges _ he := he
  others _ _ := ⟨rfl, rfl⟩
  each _ hrow := absurd hrow (by simp)
  firsts _ hdiff := .inl hdiff

/-- A path of some rows is not one of others with different paths. -/
theorem notMem_paths {rows more : List ρ} (hdisjoint : ∀ f ∈ rows, ∀ g ∈ more, pathOf f ≠ pathOf g)
    {f : ρ} (hf : f ∈ rows) : pathOf f ∉ more.map pathOf := by
  intro hmem
  obtain ⟨g, hg, heq⟩ := List.mem_map.mp hmem
  exact hdisjoint f hf g hg heq.symm

/-- What comes later finds the pages of its paths as they were. -/
theorem page_later {rows more : List ρ} (first : GoneThrough pathOf does rows p mid)
    (hdisjoint : ∀ f ∈ rows, ∀ g ∈ more, pathOf f ≠ pathOf g) {g : ρ} (hg : g ∈ more) :
    mid.store.page (pathOf g) = p.store.page (pathOf g)
      ∧ pending (pathOf g) mid.report.diffs = pending (pathOf g) p.report.diffs :=
  first.others (pathOf g) (notMem_paths (fun g hg f hf heq => hdisjoint f hf g hg heq.symm) hg)

/-- Rows of different paths follow each other. -/
theorem append {rows more : List ρ} (first : GoneThrough pathOf does rows p mid)
    (second : GoneThrough pathOf does more mid p')
    (hdisjoint : ∀ f ∈ rows, ∀ g ∈ more, pathOf f ≠ pathOf g) :
    GoneThrough pathOf does (rows ++ more) p p' where
  intact := second.intact
  kept := first.kept.trans second.kept
  edges e he := first.edges e (second.edges e he)
  others path hpath := by
    rw [List.map_append, List.mem_append, not_or] at hpath
    obtain ⟨hpage₁, hpending₁⟩ := first.others path hpath.1
    obtain ⟨hpage₂, hpending₂⟩ := second.others path hpath.2
    exact ⟨hpage₂.trans hpage₁, hpending₂.trans hpending₁⟩
  each row hrow := by
    rcases List.mem_append.mp hrow with hrow | hrow
    · obtain ⟨hpage, hpending⟩ := second.others (pathOf row) (notMem_paths hdisjoint hrow)
      rw [hpage, hpending]
      exact first.each row hrow
    · obtain ⟨hpage, hpending⟩ := first.page_later hdisjoint hrow
      rw [← hpage, ← hpending]
      exact second.each row hrow
  firsts diff hdiff := by
    rcases second.firsts diff hdiff with hdiff | hfirst
    · exact first.firsts diff hdiff
    · exact .inr hfirst

/-- Nothing is done about a row. -/
theorem unchanged {row : ρ} (hs : p.store.Intact) (hstore : p'.store = p.store)
    (hdiffs : p'.report.diffs = p.report.diffs)
    (hdoes : does row (p.store.page (pathOf row)) (p.store.page (pathOf row)) []) :
    GoneThrough pathOf does [row] p p' := by
  refine ⟨hstore ▸ hs, by rw [hstore]; exact .refl _, by rw [hstore]; exact fun _ he => he,
    fun path _ => by rw [hstore, hdiffs]; exact ⟨rfl, rfl⟩, ?_, by rw [hdiffs]; exact fun _ => .inl⟩
  intro other hother
  obtain rfl := List.mem_singleton.mp hother
  rw [hstore, hdiffs]
  exact ⟨[], hdoes, by simp⟩

/-- The page of a row is rewritten, and what has changed in it is reported. -/
theorem of_rewrites {row : ρ} {diff : Option FileDiff} (hs : p.store.Intact)
    (hrewrites : p.store.Rewrites p'.store (pathOf row))
    (hdiffs : p'.report.diffs = p.report.diffs ++ PassReport.changed diff)
    (hdiff : ∀ found, diff = some found →
      found.path = pathOf row ∧ (found.isFirst = true → found.changes = []))
    (hdoes : does row (p.store.page (pathOf row)) (p'.store.page (pathOf row))
      (pending (pathOf row) diff.toList)) :
    GoneThrough pathOf does [row] p p' := by
  have hpending : ∀ path, pending path p'.report.diffs
      = pending path p.report.diffs ++ pending path diff.toList := by
    intro path
    rw [hdiffs, pending_append, pending_changed]
  refine ⟨hrewrites.intact, hrewrites.kept, fun e => hrewrites.allEdges hs, ?_, ?_, ?_⟩
  · intro path hpath
    have hne : path ≠ pathOf row := by simpa using hpath
    have hnone : pending path diff.toList = [] := by
      cases hsome : diff with
      | none => rfl
      | some found => exact pending_of_ne ((hdiff found hsome).1 ▸ hne)
    refine ⟨hrewrites.others path hne, ?_⟩
    rw [hpending, hnone, List.append_nil]
  · intro other hother
    obtain rfl := List.mem_singleton.mp hother
    exact ⟨_, hdoes, hpending (pathOf other)⟩
  · intro found hfound
    rw [hdiffs] at hfound
    rcases List.mem_append.mp hfound with hfound | hfound
    · exact .inl hfound
    · exact .inr (hdiff found (mem_changed hfound)).2

end GoneThrough

namespace Indexer

/-! ## §3. Visits. -/

/-- What a visit to a selected file may do to the page of its path, and the changes that it finds. -/
inductive Visit (x : Indexer) (d : Disk) (force : Bool) (c : FileClass) (path : String) :
    Page → Page → List SymbolChange → Prop where
  /-- Something stands in the way of the file. -/
  | refused {page : Page} {e : IndexFailure} (refusal : x.refusal? d force page c path = some e) :
      Visit x d force c path page page []
  /-- The file has not changed. -/
  | current {page : Page} {bytes : Text.Bytes} (read : x.read d path = .ok bytes)
      (same : page.row.any (·.hash == Digest.ofBytes bytes) = true) (kept : force = false) :
      Visit x d force c path page page []
  /-- A source file is written. -/
  | code {old : Page} {bytes : Text.Bytes} {content : List Char} {id : RowId} (ofClass : c = .code)
      (read : x.read d path = .ok bytes) (decoded : Text.decode? bytes = some content)
      (changed : (!force && old.row.any (·.hash == Digest.ofBytes bytes)) = false) :
      Visit x d force c path old
        ⟨some ⟨codeInfo path bytes content, id⟩, (parse path content).symbols, old.chunks,
          some (snapshotOf (parse path content).symbols)⟩
        (comparison old.snapshot path (parse path content).symbols).changes
  /-- A document is written. -/
  | doc {old : Page} {bytes : Text.Bytes} {id : RowId} (ofClass : c = .doc)
      (read : x.read d path = .ok bytes)
      (changed : (!force && old.row.any (·.hash == Digest.ofBytes bytes)) = false) :
      Visit x d force c path old
        ⟨some ⟨docInfo path bytes, id⟩, old.symbols,
          x.chunks (Language.ofPath path) (Text.decodeLossy bytes), old.snapshot⟩ []

/-- How far a pass has come by visits to some files. -/
structure Visited (x : Indexer) (d : Disk) (force : Bool) (files : List Discovered) (p p' : Pass) : Prop
    extends GoneThrough Discovered.path (fun f => Visit x d force f.fileClass f.path) files p p' where
  ended : p'.ended = none
  errors : p'.report.errors = p.report.errors
    ++ files.filterMap fun f => x.refusal? d force (p.store.page f.path) f.fileClass f.path

variable {x : Indexer} {d : Disk} {force : Bool}

/-- Visits to different paths follow each other. -/
theorem Visited.append {files more : List Discovered} {p mid p' : Pass}
    (first : Visited x d force files p mid) (second : Visited x d force more mid p')
    (hdisjoint : ∀ f ∈ files, ∀ g ∈ more, f.path ≠ g.path) :
    Visited x d force (files ++ more) p p' where
  toGoneThrough := first.toGoneThrough.append second.toGoneThrough hdisjoint
  ended := second.ended
  errors := by
    have hlater : ∀ f ∈ more, x.refusal? d force (mid.store.page f.path) f.fileClass f.path
        = x.refusal? d force (p.store.page f.path) f.fileClass f.path := by
      intro f hf
      rw [(first.page_later hdisjoint hf).1]
    rw [second.errors, first.errors, List.filterMap_congr hlater, List.filterMap_append,
      List.append_assoc]

/-- The next file of a pass is visited. -/
theorem advance_visited {p : Pass} (hended : p.ended = none) (hs : p.store.Intact) (f : Discovered) :
    Visited x d force [f] p (x.advance d force p f) := by
  have houtcome := index_outcome x d hs f.fileClass f.path force
  unfold advance
  rw [if_neg (by simp [hended])]
  generalize x.index d p.store f.fileClass f.path force = result at houtcome
  -- the report of a file that was indexed has no error
  have hrecorded : ∀ {s' : Store} {o : FileOutcome},
      IndexOutcome x d p.store f.fileClass f.path force (.ok (s', o)) →
      (p.report.record o).errors = p.report.errors ++ [f].filterMap fun f =>
        x.refusal? d force (p.store.page f.path) f.fileClass f.path := by
    intro s' o hok
    rw [PassReport.record_errors, List.filterMap_cons, refusal?_of_ok hok, List.filterMap_nil,
      List.append_nil]
  cases houtcome with
  | @refused e refusal =>
    have hreport : Visited x d force [f] p
        { p with report := { p.report with errors := p.report.errors ++ [e] } } :=
      ⟨.unchanged hs rfl rfl (.refused refusal), hended, by simp [refusal]⟩
    cases e with
    | store cause => exact absurd rfl (refusal?_unstored refusal cause)
    | missing | unreadable | notText | tooLarge => exact hreport
  | current read kept same =>
    refine ⟨.unchanged hs rfl ?_ (.current read same kept), hended, hrecorded (.current read kept same)⟩
    simp [PassReport.record_diffs, PassReport.changed]
  | code ofClass read decoded rewrites page changed =>
    refine ⟨.of_rewrites hs rewrites (PassReport.record_diffs _ _) ?_ ?_, hended,
      hrecorded (.code ofClass read decoded rewrites page changed)⟩
    · intro diff hdiff
      injection hdiff with hdiff
      rw [← hdiff]
      exact ⟨comparison_path _ _ _, comparison_first _ _ _⟩
    · simp only
      rw [Option.toList_some, pending_comparison, page]
      exact .code ofClass read decoded changed
  | doc ofClass read rewrites page changed =>
    refine ⟨.of_rewrites hs rewrites (PassReport.record_diffs _ _) (by simp) ?_, hended,
      hrecorded (.doc ofClass read rewrites page changed)⟩
    simp only
    rw [page]
    exact .doc ofClass read changed

/-- The files of a pass are visited, if no path is there twice. -/
theorem advanceAll_visited (files : List Discovered) :
    ∀ {p : Pass}, p.ended = none → p.store.Intact → (files.map (·.path)).Nodup →
      Visited x d force files p (files.foldl (x.advance d force) p) := by
  induction files with
  | nil => intro p hended hs _; exact ⟨.nil hs, hended, by simp⟩
  | cons f rest ih =>
    intro p hended hs hnodup
    rw [List.map_cons, List.nodup_cons] at hnodup
    have hfirst := @advance_visited x d force p hended hs f
    rw [List.foldl_cons]
    refine hfirst.append (ih hfirst.ended hfirst.intact hnodup.2) ?_
    intro g hg other hother heq
    obtain rfl := List.mem_singleton.mp hg
    exact hnodup.1 (List.mem_map.mpr ⟨other, hother, heq.symm⟩)

/-! ## §4. Prunes. -/

/-- What becomes of the page of a path that has a row, and the changes that are found. -/
inductive Prune (x : Indexer) (d : Disk) (path : String) : Page → Page → List SymbolChange → Prop where
  /-- The file is there. -/
  | present {page : Page} (found : d.exists? (x.place path) = true) : Prune x d path page page []
  /-- The file has vanished, and its row and all that belongs to it with it. -/
  | vanished {old : Page} {snapshot : Option (List SnapshotEntry)} {changes : List SymbolChange}
      (missing : d.exists? (x.place path) = false) (reread : Reread old.snapshot snapshot changes) :
      Prune x d path old ⟨none, [], [], snapshot⟩ changes

/-- Nothing becomes of the page of a file that is there. -/
theorem Prune.of_exists {path : String} {old new : Page} {changes : List SymbolChange}
    (h : Prune x d path old new changes) (hexists : d.exists? (x.place path) = true) :
    new = old ∧ changes = [] := by
  cases h with
  | present => exact ⟨rfl, rfl⟩
  | vanished missing => rw [hexists] at missing; exact absurd missing (by simp)

/-- How far a pass has come by going through some rows. -/
structure Pruned (x : Indexer) (d : Disk) (rows : List FileRow) (p p' : Pass) : Prop
    extends GoneThrough (fun row : FileRow => row.path) (fun row => Prune x d row.path) rows p p' where
  errors : p'.report.errors = p.report.errors

/-- Rows of different paths follow each other. -/
theorem Pruned.append {rows more : List FileRow} {p mid p' : Pass} (first : Pruned x d rows p mid)
    (second : Pruned x d more mid p') (hdisjoint : ∀ f ∈ rows, ∀ g ∈ more, f.path ≠ g.path) :
    Pruned x d (rows ++ more) p p' where
  toGoneThrough := first.toGoneThrough.append second.toGoneThrough hdisjoint
  errors := second.errors.trans first.errors

theorem prune_pruned {p : Pass} (hs : p.store.Intact) {row : FileRow}
    (hrow : p.store.file? row.path = some row) : Pruned x d [row] p (x.prune d p row) := by
  unfold prune
  split
  next hfound => exact ⟨.unchanged hs rfl rfl (.present hfound), rfl⟩
  next hvanished =>
    have hmissing : d.exists? (x.place row.path) = false := by simpa using hvanished
    obtain ⟨s', diff, hremove, hrewrites, hpage, hpath, hfirst, hreread⟩ :=
      Store.removeFile_page hs hrow
    rw [hremove]
    refine ⟨@GoneThrough.of_rewrites _ _ _ p _ row (some diff) hs hrewrites rfl ?_ ?_, rfl⟩
    · intro found hsome
      injection hsome with hsome
      exact hsome ▸ ⟨hpath, hfirst⟩
    · have hself : pending row.path [diff] = diff.changes := hpath ▸ pending_self diff
      have hsnapshot := congrArg Page.snapshot hpage
      rw [show (s'.page row.path).snapshot = s'.snapshot? row.path from rfl] at hsnapshot
      rw [hsnapshot] at hreread
      simp only
      rw [Option.toList_some, hself, hpage]
      exact .vanished hmissing hreread

/-- The rows of the index are gone through, if no path is there twice. -/
theorem pruneAll_pruned (rows : List FileRow) :
    ∀ {p : Pass}, p.store.Intact → (∀ row ∈ rows, p.store.file? row.path = some row) →
      (rows.map (·.path)).Nodup → Pruned x d rows p (rows.foldl (x.prune d) p) := by
  induction rows with
  | nil => intro p hs _ _; exact ⟨.nil hs, rfl⟩
  | cons row rest ih =>
    intro p hs hrows hnodup
    rw [List.map_cons, List.nodup_cons] at hnodup
    have hfirst := @prune_pruned x d p hs row (hrows row List.mem_cons_self)
    have hdisjoint : ∀ f ∈ [row], ∀ g ∈ rest, f.path ≠ g.path := by
      intro f hf g hg heq
      obtain rfl := List.mem_singleton.mp hf
      exact hnodup.1 (List.mem_map.mpr ⟨g, hg, heq.symm⟩)
    -- the rows that are still to come are as they were
    have hlater : ∀ g ∈ rest, (x.prune d p row).store.file? g.path = some g := by
      intro g hg
      rw [← Store.page_row, (hfirst.page_later hdisjoint hg).1, Store.page_row]
      exact hrows g (List.mem_cons_of_mem _ hg)
    rw [List.foldl_cons]
    exact hfirst.append (ih hfirst.intact hlater hnodup.2) hdisjoint

/-! ## §5. A pass. -/

/-- Of several files with one path the first one is kept. -/
theorem eraseDupsBy_paths (files : List Discovered) :
    ((files.eraseDupsBy fun a b => a.path == b.path).map (·.path)).Nodup
      ∧ (∀ f ∈ files.eraseDupsBy fun a b => a.path == b.path, f ∈ files)
      ∧ ∀ f ∈ files, f.path ∈ (files.eraseDupsBy fun a b => a.path == b.path).map (·.path) := by
  induction hlength : files.length using Nat.strong_induction_on generalizing files with
  | _ n ih =>
    cases files with
    | nil => simp
    | cons f rest =>
      rw [List.eraseDupsBy_cons]
      have hlt : (rest.filter fun g => (g.path == f.path) = false).length < n := by
        have hle := List.length_filter_le (fun g => decide ((g.path == f.path) = false)) rest
        simp only [List.length_cons] at hlength
        omega
      -- all that has the path of the first is dropped from the rest
      obtain ⟨hnodup, hmem, hpaths⟩ := ih _ hlt _ rfl
      refine ⟨?_, ?_, ?_⟩
      · rw [List.map_cons, List.nodup_cons]
        refine ⟨?_, hnodup⟩
        intro hin
        obtain ⟨g, hg, heq⟩ := List.mem_map.mp hin
        have hgf := (List.mem_filter.mp (hmem g hg)).2
        simp [heq] at hgf
      · intro g hg
        rcases List.mem_cons.mp hg with rfl | hg
        · exact List.mem_cons_self
        · exact List.mem_cons_of_mem _ (List.mem_filter.mp (hmem g hg)).1
      · intro g hg
        rw [List.map_cons, List.mem_cons]
        by_cases heq : g.path = f.path
        · exact .inl heq
        · rcases List.mem_cons.mp hg with rfl | hg
          · exact absurd rfl heq
          · exact .inr (hpaths g (List.mem_filter.mpr ⟨hg, by simpa using heq⟩))

/-- No path is selected twice. -/
theorem selected_paths {additional : List String} {files : List Discovered}
    (h : x.selected d additional = .ok files) : (files.map (·.path)).Nodup := by
  unfold selected at h
  cases hfound : discover d x.filter x.root x.root with
  | error e => rw [hfound] at h; exact absurd h (by simp [bind, Except.bind])
  | ok found =>
    cases hadded : additional.mapM (x.expand d) with
    | error e => rw [hfound, hadded] at h; exact absurd h (by simp [bind, Except.bind])
    | ok added =>
      rw [hfound, hadded] at h
      simp only [bind, Except.bind, pure, Except.pure, Except.ok.injEq] at h
      rw [← h]
      exact (eraseDupsBy_paths _).1

/-- What a pass does to a path: a visit, if it is selected, and then a prune, if it has a row. -/
def PathPass (x : Indexer) (d : Disk) (force : Bool) (files : List Discovered) (path : String)
    (old new : Page) (changes : List SymbolChange) : Prop :=
  ∃ mid visited pruned, changes = visited ++ pruned
    ∧ ((∃ f ∈ files, f.path = path ∧ Visit x d force f.fileClass path old mid visited)
      ∨ (path ∉ files.map (·.path) ∧ mid = old ∧ visited = []))
    ∧ ((mid.row.isSome = true ∧ Prune x d path mid new pruned)
      ∨ (mid.row = none ∧ new = mid ∧ pruned = []))

/-- **A pass over selected files** succeeds, and what it does and reports can be told path by path. -/
theorem indexAll_paths {s : Store} (hs : s.Intact) {options : PassOptions} {files : List Discovered}
    (hselected : x.selected d options.additional = .ok files) :
    ∃ s' report, x.indexAll d s options = (s', .ok report)
      ∧ s'.Intact ∧ s.SessionsKept s' ∧ (∀ e ∈ s'.allEdges, e ∈ s.allEdges)
      ∧ report.errors = files.filterMap (fun f =>
          x.refusal? d options.force (s.page f.path) f.fileClass f.path)
      ∧ (∀ diff ∈ report.diffs, diff.isFirst = true → diff.changes = [])
      ∧ ∀ path, PathPass x d options.force files path (s.page path) (s'.page path)
          (pending path report.diffs) := by
  have hvisited := @advanceAll_visited x d options.force files ⟨s, PassReport.empty, none⟩ rfl hs
    (selected_paths hselected)
  unfold indexAll
  rw [hselected]
  simp only
  generalize files.foldl (x.advance d options.force) ⟨s, PassReport.empty, none⟩ = mid at hvisited ⊢
  rw [hvisited.ended]
  -- the rows are those of the store that the visits have left
  have hrow : ∀ row, row ∈ mid.store.listFiles none ↔ row ∈ mid.store.files := by
    intro row
    simp [Store.listFiles]
  have hnodup : ((mid.store.listFiles none).map (·.path)).Nodup := by
    have hperm : (mid.store.listFiles none).Perm mid.store.files := by
      unfold Store.listFiles
      refine (List.mergeSort_perm _ _).trans ?_
      simp
    exact (hperm.map _).nodup_iff.mpr hvisited.intact.paths
  have hpruned := @pruneAll_pruned x d (mid.store.listFiles none) mid hvisited.intact
    (fun row hmem => Store.file?_of_mem hvisited.intact.paths ((hrow row).mp hmem)) hnodup
  generalize (mid.store.listFiles none).foldl (x.prune d) mid = last at hpruned ⊢
  refine ⟨last.store, last.report, rfl, hpruned.intact, hvisited.kept.trans hpruned.kept,
    fun e he => hvisited.edges e (hpruned.edges e he), ?_, ?_, fun path => ?_⟩
  · rw [hpruned.errors, hvisited.errors]
    rfl
  · intro diff hdiff
    rcases hpruned.firsts diff hdiff with hdiff | hfirst
    · rcases hvisited.firsts diff hdiff with hdiff | hfirst
      · exact absurd hdiff (by simp [PassReport.empty])
      · exact hfirst
    · exact hfirst
  · -- the visit of the path, or none
    obtain ⟨visited, hvisit, hpending⟩ : ∃ visited,
        ((∃ f ∈ files, f.path = path ∧
            Visit x d options.force f.fileClass path (s.page path) (mid.store.page path) visited)
          ∨ (path ∉ files.map (·.path) ∧ mid.store.page path = s.page path ∧ visited = []))
        ∧ pending path mid.report.diffs = visited := by
      by_cases hmem : path ∈ files.map (·.path)
      · obtain ⟨f, hf, rfl⟩ := List.mem_map.mp hmem
        obtain ⟨changes, hvisit, hchanges⟩ := hvisited.each f hf
        exact ⟨changes, .inl ⟨f, hf, rfl, hvisit⟩, hchanges⟩
      · obtain ⟨hpage, hchanges⟩ := hvisited.others path hmem
        exact ⟨[], .inr ⟨hmem, hpage, rfl⟩, hchanges⟩
    -- the prune of the path, or none
    cases hfile : mid.store.file? path with
    | none =>
      have hnot : path ∉ (mid.store.listFiles none).map (·.path) := by
        intro hmem
        obtain ⟨row, hmemrow, hpath⟩ := List.mem_map.mp hmem
        exact Store.file?_eq_none.mp hfile row ((hrow row).mp hmemrow) hpath
      obtain ⟨hpage, hchanges⟩ := hpruned.others path hnot
      exact ⟨_, visited, [], by rw [hchanges, hpending, List.append_nil], hvisit,
        .inr ⟨hfile, hpage, rfl⟩⟩
    | some row =>
      obtain ⟨hmemrow, hpath⟩ := Store.file?_eq_some hfile
      obtain ⟨changes, hprune, hchanges⟩ := hpruned.each row ((hrow row).mpr hmemrow)
      rw [hpath] at hprune hchanges
      have hsome : (mid.store.page path).row.isSome = true := by
        show (mid.store.file? path).isSome = true
        rw [hfile]
        rfl
      exact ⟨_, visited, changes, by rw [hchanges, hpending], hvisit, .inl ⟨hsome, hprune⟩⟩

/-- A pass that succeeds has selected some files. -/
theorem selected_of_indexAll {s s' : Store} {options : PassOptions} {report : PassReport}
    (h : x.indexAll d s options = (s', .ok report)) :
    ∃ files, x.selected d options.additional = .ok files := by
  unfold indexAll at h
  cases hselected : x.selected d options.additional with
  | error e => rw [hselected] at h; exact absurd h (by simp)
  | ok files => exact ⟨files, rfl⟩

/-- A pass that fails as a whole has done nothing. -/
theorem store_of_failed {s s' : Store} (hs : s.Intact) {options : PassOptions} {e : PassFailure}
    (h : x.indexAll d s options = (s', .error e)) : s' = s := by
  cases hselected : x.selected d options.additional with
  | error e =>
    unfold indexAll at h
    rw [hselected] at h
    exact (Prod.mk.inj h).1.symm
  | ok files =>
    obtain ⟨after, report, hpass, -⟩ := indexAll_paths hs hselected
    rw [hpass] at h
    exact absurd (Prod.mk.inj h).2 (by simp)

/-- Rows that stand in the order of their paths are listed as they stand. -/
theorem listFiles_of_sorted {s : Store} (h : s.files.Pairwise fun a b => a.path ≤ b.path) :
    s.listFiles none = s.files := by
  unfold Store.listFiles
  rw [List.filter_eq_self.mpr (by simp)]
  exact List.mergeSort_of_pairwise (h.imp (by simp))

/-- A pass over an index whose rows are left in the order of their paths. -/
theorem indexAll_of_sorted {x : Indexer} {d : Disk} {s : Store} {options : PassOptions}
    {files : List Discovered} (hselected : x.selected d options.additional = .ok files)
    (hended : (files.foldl (x.advance d options.force) ⟨s, PassReport.empty, none⟩).ended = none)
    (hsorted : (files.foldl (x.advance d options.force) ⟨s, PassReport.empty, none⟩).store.files.Pairwise
      fun a b => a.path ≤ b.path) :
    x.indexAll d s options =
      let visited := files.foldl (x.advance d options.force) ⟨s, PassReport.empty, none⟩
      let p := visited.store.files.foldl (x.prune d) visited
      (p.store, .ok p.report) := by
  have hlisted := listFiles_of_sorted hsorted
  unfold indexAll
  rw [hselected]
  simp only [hended, hlisted]

end Indexer

end CodeIndex
