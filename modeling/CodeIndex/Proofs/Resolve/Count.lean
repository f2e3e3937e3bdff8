import Mathlib
import CodeIndex.Proofs.Resolve.Apply

/-!
# What a plan reports

Applying a plan counts the files whose imports it writes and the imports that it writes. An import that
is planned twice is written once, so the second count is a count of rows: of those that the written
files have in the end. The invariant is that the counter always stands at the number of rows that
belong to a file which is done (`Counted`). Writing a file clears its rows first and touches no others,
so a file that is done stays counted.

Main results:
  * `writeFile_counted`, `writeFiles_counted` — the step and the run;
  * `apply_counts` — the report of a plan whose files have rows;
  * `countP_rows` — the rows of some files, counted as imports by path.
-/

namespace CodeIndex

open Resolve Store

/-! ## §1. Writing the imports of a file. -/

/-- A planned edge brings one row of the importing file, which is counted, or none. -/
theorem writeEdge_rows {p p' : Progress} {fromId : RowId} {e : PlannedEdge}
    (h : Progress.writeEdge fromId p e = .ok p') :
    p'.files = p.files ∧ ∃ rows, p'.store.edges = p.store.edges ++ rows
      ∧ (∀ row ∈ rows, row.fromId = fromId) ∧ p'.edges = p.edges + rows.length := by
  unfold Progress.writeEdge at h
  split at h
  next =>
    obtain rfl := Except.ok.inj h
    exact ⟨rfl, [], by simp⟩
  next toId _ =>
    unfold insertEdge at h
    simp only [bind, Except.bind, pure, Except.pure] at h
    -- a row that is there is not written again; a new one needs a file at either end
    by_cases hthere : p.store.edges.contains ⟨fromId, toId, e.symbol.getD ""⟩ = true
    · rw [if_pos hthere] at h
      obtain rfl := Except.ok.inj h
      exact ⟨rfl, [], by simp⟩
    · rw [if_neg hthere] at h
      by_cases hfiles : (p.store.hasFile fromId && p.store.hasFile toId) = true
      · rw [if_pos hfiles] at h
        obtain rfl := Except.ok.inj h
        exact ⟨rfl, [⟨fromId, toId, e.symbol.getD ""⟩], by simp⟩
      · rw [if_neg hfiles] at h
        exact absurd h (by simp)

theorem writeEdges_rows {fromId : RowId} (edges : List PlannedEdge) :
    ∀ {p p' : Progress}, edges.foldlM (Progress.writeEdge fromId) p = .ok p' →
      p'.files = p.files ∧ ∃ rows, p'.store.edges = p.store.edges ++ rows
        ∧ (∀ row ∈ rows, row.fromId = fromId) ∧ p'.edges = p.edges + rows.length := by
  induction edges with
  | nil =>
    intro p p' h
    obtain rfl := Except.ok.inj h
    exact ⟨rfl, [], by simp⟩
  | cons e rest ih =>
    intro p p' h
    rw [List.foldlM_cons] at h
    cases hmid : Progress.writeEdge fromId p e with
    | error failure =>
      rw [hmid] at h
      exact absurd h (by simp [bind, Except.bind])
    | ok mid =>
      rw [hmid] at h
      obtain ⟨hfiles, rows, hedges, hown, hcount⟩ := writeEdge_rows hmid
      obtain ⟨hfiles', rows', hedges', hown', hcount'⟩ := ih h
      refine ⟨hfiles'.trans hfiles, rows ++ rows', ?_, ?_, ?_⟩
      · rw [hedges', hedges, List.append_assoc]
      · intro row hrow
        rcases List.mem_append.mp hrow with hrow | hrow
        · exact hown row hrow
        · exact hown' row hrow
      · rw [hcount', hcount, List.length_append]
        omega

/-- The rows of a file that is written are the new ones, and all of them are counted. -/
theorem writeFile_rows {p p' : Progress} {f : FilePlan} {id : RowId}
    (hid : p.store.fileId? f.path = some id) (h : p.writeFile f = .ok p') :
    p'.files = p.files + 1 ∧ ∃ rows, p'.store.edges = p.store.edges.filter (·.fromId != id) ++ rows
      ∧ (∀ row ∈ rows, row.fromId = id) ∧ p'.edges = p.edges + rows.length := by
  unfold Progress.writeFile at h
  rw [hid] at h
  let cleared : Progress := { p with store := (p.store.clearEdges id).1 }
  have hwrite : (do
      let written ← f.edges.foldlM (Progress.writeEdge id) cleared
      return { written with files := written.files + 1 } : Except StoreError Progress) = .ok p' := h
  cases hwritten : f.edges.foldlM (Progress.writeEdge id) cleared with
  | error failure =>
    rw [hwritten] at hwrite
    exact absurd hwrite (by simp [bind, Except.bind])
  | ok written =>
    rw [hwritten] at hwrite
    obtain rfl := Except.ok.inj hwrite
    obtain ⟨hfiles, rows, hedges, hown, hcount⟩ := writeEdges_rows f.edges hwritten
    refine ⟨?_, rows, hedges, hown, hcount⟩
    show written.files + 1 = p.files + 1
    rw [hfiles]

/-! ## §2. Writing the imports of some files. -/

/-- The counter stands at the number of rows of the files that are done. -/
def Counted (isDone : RowId → Bool) (p : Progress) : Prop :=
  p.edges = p.store.edges.countP fun row => isDone row.fromId

/-- A file that is written is done, and no other is touched. -/
theorem writeFile_counted {isDone : RowId → Bool} {p p' : Progress} {f : FilePlan} {id : RowId}
    (hcounted : Counted isDone p) (hid : p.store.fileId? f.path = some id) (hnew : isDone id = false)
    (h : p.writeFile f = .ok p') :
    p'.files = p.files + 1 ∧ Counted (fun other => isDone other || other == id) p' := by
  obtain ⟨hfiles, rows, hedges, hown, hcount⟩ := writeFile_rows hid h
  refine ⟨hfiles, ?_⟩
  -- a row of another file is counted as before, and the file had no rows that were counted
  have hold : (p.store.edges.filter (·.fromId != id)).countP
      (fun row => isDone row.fromId || row.fromId == id)
      = p.store.edges.countP fun row => isDone row.fromId := by
    rw [List.countP_filter]
    refine List.countP_congr fun row _ => ?_
    by_cases hrow : row.fromId = id <;> simp [hrow, hnew]
  have hall : rows.countP (fun row => isDone row.fromId || row.fromId == id) = rows.length := by
    rw [List.countP_eq_length]
    intro row hrow
    simp [hown row hrow]
  unfold Counted at hcounted ⊢
  rw [hedges, List.countP_append, hold, hall, hcount, hcounted]

/-- A number is that of one path. -/
theorem fileId?_inj {s : Store} (hs : s.Intact) {a b : String} {id : RowId}
    (ha : s.fileId? a = some id) (hb : s.fileId? b = some id) : a = b := by
  have hback := fileById?_of_fileId? hs ha
  rw [fileById?_of_fileId? hs hb] at hback
  exact (Option.some.inj hback).symm

/-- Files with rows are written one after another, and all that they have is counted. -/
theorem writeFiles_counted (files : List FilePlan) :
    ∀ {isDone : RowId → Bool} {p p' : Progress}, p.store.Intact → Counted isDone p →
      (files.map (·.path)).Nodup →
      (∀ f ∈ files, ∃ id, p.store.fileId? f.path = some id ∧ isDone id = false) →
      files.foldlM Progress.writeFile p = .ok p' →
      p'.files = p.files + files.length
        ∧ Counted (fun id => isDone id || files.any fun f => p.store.fileId? f.path == some id) p' := by
  induction files with
  | nil =>
    intro isDone p p' _ hcounted _ _ h
    obtain rfl := Except.ok.inj h
    exact ⟨rfl, by simpa using hcounted⟩
  | cons f rest ih =>
    intro isDone p p' hs hcounted hnodup hrows h
    rw [List.map_cons, List.nodup_cons] at hnodup
    obtain ⟨id, hid, hnew⟩ := hrows f List.mem_cons_self
    obtain ⟨mid, hmid, hintact, honly, -⟩ := writeFile_edges hs f
    rw [List.foldlM_cons, hmid] at h
    obtain ⟨hfiles, hdone⟩ := writeFile_counted hcounted hid hnew hmid
    -- the files that are still to come have the numbers that they had, and none of them is done
    have hlater : ∀ g ∈ rest, ∃ other, mid.store.fileId? g.path = some other
        ∧ (isDone other || other == id) = false := by
      intro g hg
      obtain ⟨other, hother, hfresh⟩ := hrows g (List.mem_cons_of_mem _ hg)
      refine ⟨other, (honly.fileId? g.path).trans hother, ?_⟩
      have hne : other ≠ id := by
        rintro rfl
        exact hnodup.1 (fileId?_inj hs hother hid ▸ List.mem_map_of_mem hg)
      simp [hfresh, hne]
    obtain ⟨hfiles', hdone'⟩ := ih hintact hdone hnodup.2 hlater h
    refine ⟨?_, ?_⟩
    · rw [hfiles', hfiles, List.length_cons]
      omega
    · unfold Counted at hdone' ⊢
      rw [hdone']
      refine List.countP_congr fun row _ => ?_
      simp only [honly.fileId?, List.any_cons, hid]
      rw [Bool.or_assoc, BEq.comm, show (some id == some row.fromId) = (id == row.fromId) from rfl]

/-- **The report of a plan** whose files have rows, each path once: the files, and the rows that they
have in the end. -/
theorem apply_counts {plan : Plan} {s s' : Store} {report : Report} (hs : s.Intact)
    (hrows : ∀ f ∈ plan.files, (s.file? f.path).isSome = true)
    (hnodup : (plan.files.map (·.path)).Nodup) (h : plan.apply s = .ok (s', report)) :
    report.files = plan.files.length ∧ report.failures = plan.failures
      ∧ report.edges = s'.edges.countP fun row =>
          plan.files.any fun f => s.fileId? f.path == some row.fromId := by
  unfold Plan.apply at h
  cases hfold : plan.files.foldlM Progress.writeFile ⟨s, 0, 0⟩ with
  | error failure =>
    rw [hfold] at h
    exact absurd h (by simp [bind, Except.bind])
  | ok p =>
    rw [hfold] at h
    obtain ⟨rfl, rfl⟩ := Prod.mk.inj (Except.ok.inj h)
    have hstart : Counted (fun _ => false) ⟨s, 0, 0⟩ := by simp [Counted]
    obtain ⟨hfiles, hcounted⟩ := writeFiles_counted plan.files hs hstart hnodup
      (fun f hf => (fileId?_isSome.mp (hrows f hf)).imp fun _ hid => ⟨hid, rfl⟩) hfold
    refine ⟨by simpa using hfiles, rfl, ?_⟩
    simpa [Counted] using hcounted

/-! ## §3. Imports by path. -/

/-- Rows that hang together are all shown, so those of some files may be counted by path. -/
theorem countP_rows {s : Store} (hs : s.Intact) (paths : List String) :
    s.edges.countP (fun row => paths.any fun path => s.fileId? path == some row.fromId)
      = s.allEdges.countP fun e => paths.contains e.source := by
  have hperm : s.allEdges.Perm (s.edges.filterMap s.edge?) := List.mergeSort_perm _ _
  rw [hperm.countP_eq, List.countP_filterMap]
  refine List.countP_congr fun row hrow => ?_
  obtain ⟨⟨f, hf, hfid⟩, g, hg, hgid⟩ := (hs.edges row hrow).imp hasFile_iff.mp hasFile_iff.mp
  have hsource : s.fileId? f.path = some row.fromId := hfid ▸ fileId?_of_mem hs hf
  have hshown : s.edge? row = some ⟨f.path, g.path, Intact.shownSymbol row.symbol⟩ := by
    rw [edge?_paths, fileById?_of_fileId? hs hsource,
      fileById?_of_fileId? hs (hgid ▸ fileId?_of_mem hs hg)]
    rfl
  rw [hshown]
  simp only [List.any_eq_true, beq_iff_eq, Option.map_some, Option.getD_some, List.contains_iff_mem]
  constructor
  · rintro ⟨path, hpath, hid⟩
    exact fileId?_inj hs hid hsource ▸ hpath
  · intro hpath
    exact ⟨f.path, hpath, hsource⟩

end CodeIndex
