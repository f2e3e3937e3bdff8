import Mathlib
import CodeIndex.Proofs.Index.Accounting
import CodeIndex.Proofs.Project.Incremental

/-!
# A pass that is repeated

A pass over a tree that has not changed finds nothing to do. This is shown by way of a fixed point: a
store is *settled* for some files if every file that is not refused has a row with its digest, and no
row is that of a file that has vanished (`Settled`). A pass leaves a settled store, and it leaves a
settled store alone. Whether a store is settled is told by its pages only, so the notes that are taken
between the two passes do not matter. The times at which rows were written are not part of a store; a
pass without effect writes no row.

Main results:
  * `PathPass.settles`, `settled_of_indexAll` — what a pass leaves is settled;
  * `indexAll_of_settled` — a pass over a settled store is a step without effect;
  * `repeated_pass_idle` — the two together, for a project whose changes are observed.
-/

namespace CodeIndex

namespace Indexer

variable {x : Indexer} {d : Disk} {path : String}

/-! ## §1. Settled stores. -/

/-- Whether the row of a page has the digest of the file as it is. -/
def Current (x : Indexer) (d : Disk) (path : String) (page : Page) : Prop :=
  ∃ bytes, x.read d path = .ok bytes ∧ page.row.any (·.hash == Digest.ofBytes bytes) = true

/-- A store that a pass over some files has nothing to do to. -/
structure Settled (x : Indexer) (d : Disk) (files : List Discovered) (s : Store) : Prop where
  /-- A file that can be indexed has been. -/
  current : ∀ f ∈ files, x.refusal? d false (s.page f.path) f.fileClass f.path = none →
    x.Current d f.path (s.page f.path)
  /-- Every row is that of a file which is there. -/
  present : ∀ row ∈ s.files, d.exists? (x.place row.path) = true

theorem Current.refusal? {page : Page} (h : x.Current d path page) (c : FileClass) :
    x.refusal? d false page c path = none := by
  obtain ⟨bytes, hread, hsame⟩ := h
  unfold Indexer.refusal?
  rw [hread]
  simp [hsame]

/-- Indexing a file that has not changed does nothing. -/
theorem Current.index {s : Store} (h : x.Current d path (s.page path)) (c : FileClass) :
    x.index d s c path false = .ok (s, ⟨path, .skipped, none⟩) := by
  obtain ⟨bytes, hread, hsame⟩ := h
  unfold Indexer.index
  rw [hread]
  simp only [bind, Except.bind, isCurrent_page, hsame, Bool.not_false, Bool.and_self, if_true]
  rfl

/-! ## §2. A pass over a settled store. -/

/-- A file that has not changed is counted as skipped. -/
theorem advance_of_current {p : Pass} (hended : p.ended = none) {f : Discovered}
    (h : x.Current d f.path (p.store.page f.path)) :
    x.advance d false p f = { p with report := { p.report with skipped := p.report.skipped + 1 } } := by
  unfold advance
  rw [if_neg (by simp [hended]), h.index]
  simp [PassReport.record, PassReport.changed]

/-- The files of a settled store are skipped or refused, and the store stays. -/
theorem advanceAll_of_settled (files : List Discovered) {s : Store} (hs : s.Intact)
    (hcurrent : ∀ f ∈ files, x.refusal? d false (s.page f.path) f.fileClass f.path = none →
      x.Current d f.path (s.page f.path)) :
    ∀ report : PassReport, ∃ more,
      files.foldl (x.advance d false) ⟨s, report, none⟩ = ⟨s, { report with
        skipped := report.skipped + more
        errors := report.errors ++ files.filterMap fun f =>
          x.refusal? d false (s.page f.path) f.fileClass f.path }, none⟩ := by
  induction files with
  | nil => intro report; exact ⟨0, by simp⟩
  | cons f rest ih =>
    intro report
    have hrest := ih fun g hg => hcurrent g (List.mem_cons_of_mem _ hg)
    rw [List.foldl_cons, List.filterMap_cons]
    cases hrefusal : x.refusal? d false (s.page f.path) f.fileClass f.path with
    | some e =>
      rw [@advance_of_refused x d false ⟨s, report, none⟩ rfl hs f e hrefusal]
      obtain ⟨more, hmore⟩ := hrest { report with errors := report.errors ++ [e] }
      refine ⟨more, ?_⟩
      rw [hmore, List.append_assoc]
      rfl
    | none =>
      have hf := hcurrent f List.mem_cons_self hrefusal
      rw [@advance_of_current x d ⟨s, report, none⟩ rfl f hf]
      obtain ⟨more, hmore⟩ := hrest { report with skipped := report.skipped + 1 }
      refine ⟨more + 1, ?_⟩
      rw [hmore]
      simp only [Nat.add_assoc, Nat.add_comm 1 more]

/-- Rows of files that are there are left alone. -/
theorem pruneAll_of_present (rows : List FileRow) (p : Pass)
    (hpresent : ∀ row ∈ rows, d.exists? (x.place row.path) = true) : rows.foldl (x.prune d) p = p := by
  induction rows with
  | nil => rfl
  | cons row rest ih =>
    have hrow : x.prune d p row = p := by
      unfold prune
      rw [if_pos (hpresent row List.mem_cons_self)]
    rw [List.foldl_cons, hrow]
    exact ih fun other hother => hpresent other (List.mem_cons_of_mem _ hother)

/-- **A pass over a settled store** leaves it, and reports the refusals and nothing else but how many
files it has passed over. -/
theorem indexAll_of_settled {s : Store} (hs : s.Intact) {additional : List String}
    {files : List Discovered} (hselected : x.selected d additional = .ok files)
    (hsettled : x.Settled d files s) :
    ∃ skipped errors, x.indexAll d s ⟨false, additional⟩ = (s, .ok ⟨0, 0, skipped, 0, errors, []⟩)
      ∧ errors = files.filterMap (fun f => x.refusal? d false (s.page f.path) f.fileClass f.path)
      ∧ skipped + errors.length = files.length := by
  obtain ⟨skipped, hvisits⟩ := advanceAll_of_settled files hs hsettled.current PassReport.empty
  have hpass : x.passOver d s false files = (s, .ok ⟨0, 0, 0 + skipped, 0,
      files.filterMap fun f => x.refusal? d false (s.page f.path) f.fileClass f.path, []⟩) := by
    unfold passOver
    rw [hvisits]
    simp only
    rw [pruneAll_of_present]
    · rfl
    · exact fun row hrow => hsettled.present row ((listFiles_rows hs).1.mem_iff.mp hrow)
  have hseen := passOver_seen hs (selected_paths hselected) hpass
  refine ⟨0 + skipped, _, ?_, rfl, ?_⟩
  · rw [indexAll_eq_passOver hselected]
    exact hpass
  · simpa [PassReport.seen] using hseen

/-! ## §3. What a pass leaves. -/

/-- A page that a pass leaves is settled: the file is refused as it was before, or its row has its
digest. -/
theorem PathPass.settles {files : List Discovered} (hnodup : (files.map (·.path)).Nodup)
    {f : Discovered} (hf : f ∈ files) {old new : Page} {changes : List SymbolChange}
    (h : PathPass x d false files f.path old new changes) :
    x.refusal? d false new f.fileClass f.path = x.refusal? d false old f.fileClass f.path
      ∧ (x.refusal? d false old f.fileClass f.path = none → x.Current d f.path new) := by
  cases hrefusal : x.refusal? d false old f.fileClass f.path with
  | some e =>
    refine ⟨?_, fun hnone => absurd hnone (by simp)⟩
    cases hexists : d.exists? (x.place f.path) with
    | true => rw [h.of_refused hnodup hf (by simp [hrefusal]) hexists, hrefusal]
    | false =>
      -- a file that is not there is refused whatever its page is
      cases hread : x.read d f.path with
      | ok bytes => rw [exists_of_read hread] at hexists; exact absurd hexists (by simp)
      | error failure =>
        unfold Indexer.refusal? at hrefusal ⊢
        rw [hread] at hrefusal ⊢
        exact hrefusal
  | none =>
    obtain ⟨mid, visited, pruned, -, hvisit, hprune⟩ := h
    have hmid : x.Current d f.path mid := by
      rcases hvisit with ⟨g, hg, hpath, hvisit⟩ | ⟨hnot, -⟩
      · obtain rfl := List.inj_on_of_nodup_map hnodup hg hf hpath
        cases hvisit with
        | refused refusal => rw [hrefusal] at refusal; exact absurd refusal (by simp)
        | current read same => exact ⟨_, read, same⟩
        | code _ read => exact ⟨_, read, by simp [codeInfo]⟩
        | doc _ read => exact ⟨_, read, by simp [docInfo]⟩
      · exact absurd (List.mem_map_of_mem hf) hnot
    -- the file was read, so it is there, and the row stays
    have hnew : new = mid := by
      obtain ⟨bytes, hread, -⟩ := hmid
      rcases hprune with ⟨-, hprune⟩ | ⟨-, hnew, -⟩
      · exact (hprune.of_exists (exists_of_read hread)).1
      · exact hnew
    rw [hnew]
    exact ⟨hmid.refusal? _, fun _ => hmid⟩

/-- A row that a pass leaves is that of a file which is there. -/
theorem PathPass.present {files : List Discovered} {force : Bool} {old new : Page}
    {changes : List SymbolChange} (h : PathPass x d force files path old new changes)
    (hrow : new.row.isSome = true) : d.exists? (x.place path) = true := by
  obtain ⟨mid, visited, pruned, -, -, hprune⟩ := h
  rcases hprune with ⟨-, hprune⟩ | ⟨hnone, hnew, -⟩
  · cases hprune with
    | present found => exact found
    | vanished => exact absurd hrow (by simp)
  · rw [hnew, hnone] at hrow
    exact absurd hrow (by simp)

/-- **A pass leaves a settled store**, and so is every store with the same pages. -/
theorem settled_of_indexAll {s s' t : Store} (hs : s.Intact) {additional : List String}
    {report : PassReport} (h : x.indexAll d s ⟨false, additional⟩ = (s', .ok report))
    (hkept : SessionWrites.IndexKept s' t) :
    s'.Intact ∧ ∃ files, x.selected d additional = .ok files ∧ x.Settled d files t
      ∧ report.errors = files.filterMap (fun f =>
          x.refusal? d false (t.page f.path) f.fileClass f.path)
      ∧ report.indexed + report.updated + report.skipped + report.errors.length = files.length := by
  obtain ⟨files, hselected⟩ := selected_of_indexAll h
  have hnodup := selected_paths hselected
  have hseen := passOver_seen hs hnodup ((indexAll_eq_passOver hselected).symm.trans h)
  obtain ⟨after, reported, hpass, hintact, -, -, herrors, -, hpages⟩ := indexAll_paths hs hselected
  obtain ⟨rfl, hreport⟩ := Prod.mk.inj (h.symm.trans hpass)
  obtain rfl := Except.ok.inj hreport
  have hsettles : ∀ f ∈ files,
      x.refusal? d false (t.page f.path) f.fileClass f.path
          = x.refusal? d false (s.page f.path) f.fileClass f.path
        ∧ (x.refusal? d false (s.page f.path) f.fileClass f.path = none →
          x.Current d f.path (t.page f.path)) := by
    intro f hf
    rw [hkept.page]
    exact (hpages f.path).settles hnodup hf
  refine ⟨hintact, files, hselected, ⟨fun f hf hnone => ?_, fun row hrow => ?_⟩, ?_, hseen⟩
  · exact (hsettles f hf).2 ((hsettles f hf).1.symm.trans hnone)
  · refine (hpages row.path).present ?_
    rw [Store.page_row, Store.file?_of_mem hintact.paths (hkept.files ▸ hrow)]
    rfl
  · rw [herrors]
    exact List.filterMap_congr fun f hf => (hsettles f hf).1.symm

end Indexer

/-! ## §4. A project. -/

/-- A sound project takes no note of a pass that leaves its store and reports no changes. -/
theorem Project.indexAll_of_idle {p : Project} (hsound : p.isSound = true) {d : Disk}
    {options : PassOptions} {report : PassReport}
    (hpass : p.indexer.indexAll d p.store options = (p.store, .ok report)) (hdiffs : report.diffs = [])
    (now : Time) : p.indexAll d options now = (p, .ok report) := by
  obtain ⟨indexer, store, observer, condition, isNew⟩ := p
  obtain rfl : condition = .sound := by simpa [isSound] using hsound
  unfold Project.indexAll
  simp only [hpass, hdiffs]
  rfl

/-- **A repeated pass is idle.** If a pass that overrules nothing succeeds, then the same pass over the
same tree, at any later time, succeeds without doing anything: the project is as it was, with all that
its store holds. It passes over the files that the first one has indexed, updated or passed over, and
meets the same refusals. -/
theorem repeated_pass_idle {p p' : Project} (hs : p.store.Intact) {d : Disk} {additional : List String}
    {now : Time} {report : PassReport}
    (h : p.indexAll d ⟨false, additional⟩ now = (p', .ok report)) (later : Time) :
    p'.indexAll d ⟨false, additional⟩ later
      = (p', .ok ⟨0, 0, report.indexed + report.updated + report.skipped, 0, report.errors, []⟩) := by
  obtain ⟨s, hpass, rfl, hsound⟩ := Project.indexAll_eq_ok h
  obtain ⟨hindexer, hkept, hintact⟩ := Project.onFileDiffs_index report.diffs now { p with store := s }
  obtain ⟨hs', files, hselected, hsettled, herrors, hseen⟩ :=
    Indexer.settled_of_indexAll hs hpass hkept
  obtain ⟨skipped, errors, hagain, herrors', hseen'⟩ :=
    Indexer.indexAll_of_settled (hintact hs') hselected hsettled
  -- the second pass meets the refusals of the first, so it passes over all the others
  obtain rfl : errors = report.errors := herrors'.trans herrors.symm
  obtain rfl : skipped = report.indexed + report.updated + report.skipped := by omega
  exact Project.indexAll_of_idle hsound (by rw [hindexer]; exact hagain) rfl later

/-- A project over the index of three source files. -/
def unevenProject : Project :=
  ⟨unevenIndexer, unevenIndex, .new "/p" .default .indexed none "first", .sound, false⟩

/-- What the first pass over it finds: a change, two refusals and a row to take away. -/
def unevenReport : PassReport :=
  ⟨0, 1, 0, 1, [.notText "b.py", .missing "c.py"],
    [⟨"a.py", false, [⟨.removed, "g", .function, some "def g()", none, "function `g` removed"⟩]⟩]⟩

/-- The first round over it. -/
def unevenVisits : Pass :=
  [⟨"a.py", .code⟩, ⟨"b.py", .code⟩, ⟨"c.py", .code⟩].foldl (unevenIndexer.advance unevenTree false)
    ⟨unevenIndex, PassReport.empty, none⟩

theorem unevenIndexer_indexAll : unevenIndexer.indexAll unevenTree unevenIndex ⟨false, ["c.py"]⟩
    = ((unevenVisits.store.files.foldl (unevenIndexer.prune unevenTree) unevenVisits).store,
      .ok (unevenVisits.store.files.foldl (unevenIndexer.prune unevenTree) unevenVisits).report) := by
  exact Indexer.indexAll_of_sorted unevenTree_selected (by decide +kernel) (by decide +kernel)

theorem repeated_pass_idle_after_refusals :
    let p' := (unevenProject.indexAll unevenTree ⟨false, ["c.py"]⟩ 0).1
    p'.store.events.length = 1
      ∧ p'.indexAll unevenTree ⟨false, ["c.py"]⟩ 1
        = (p', .ok ⟨0, 0, 1, 0, [.notText "b.py", .missing "c.py"], []⟩) := by
  intro p'
  obtain ⟨hreport, hevents⟩ :
      (unevenProject.indexAll unevenTree ⟨false, ["c.py"]⟩ 0).2 = .ok unevenReport
        ∧ p'.store.events.length = 1 := by
    subst p'
    have hsound : unevenProject.condition = .sound := rfl
    have hpass : unevenProject.indexer.indexAll unevenTree unevenProject.store ⟨false, ["c.py"]⟩ = _ :=
      unevenIndexer_indexAll
    unfold Project.indexAll
    rw [hsound]
    simp only [hpass]
    decide +kernel
  have hfirst : unevenProject.indexAll unevenTree ⟨false, ["c.py"]⟩ 0 = (p', .ok unevenReport) :=
    Prod.ext rfl hreport
  exact ⟨hevents, repeated_pass_idle unevenIndex_intact hfirst 1⟩

end CodeIndex
