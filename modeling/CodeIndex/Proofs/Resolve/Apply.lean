import Mathlib
import CodeIndex.Proofs.Index.Page
import CodeIndex.Resolve.Plan

/-!
# What applying a plan does

Applying a plan never fails: an edge is written only between files that have rows. It touches the
table of imports and nothing else. A file with a plan has exactly the planned imports of files that
have rows, and a file without one keeps what it had.

Main results:
  * `apply_edges` — the imports after a plan with one entry for each file;
  * `allEdges_eq` — stores with the same imports list them alike.
-/

namespace CodeIndex

open Resolve

/-! ## §1. Imports by path. -/

namespace Store

variable {s s' : Store}

/-- Only the table of imports differs. -/
def EdgesOnly (s s' : Store) : Prop := s' = { s with edges := s'.edges }

theorem EdgesOnly.refl (s : Store) : EdgesOnly s s := rfl

theorem EdgesOnly.trans {mid : Store} (first : EdgesOnly s mid) (second : EdgesOnly mid s') :
    EdgesOnly s s' := by
  unfold EdgesOnly at *
  rw [second, first]

/-- The pages are the same. -/
theorem EdgesOnly.page (h : EdgesOnly s s') (path : String) : s'.page path = s.page path := by
  rw [h]
  rfl

theorem EdgesOnly.fileId? (h : EdgesOnly s s') (path : String) : s'.fileId? path = s.fileId? path := by
  rw [h]
  rfl

theorem EdgesOnly.hasFile (h : EdgesOnly s s') (id : RowId) : s'.hasFile id = s.hasFile id := by
  rw [h]
  rfl

theorem EdgesOnly.sessionsKept (h : EdgesOnly s s') : SessionsKept s s' := by
  rw [h]
  exact ⟨rfl, rfl, rfl⟩

theorem hasFile_of_fileId? {path : String} {id : RowId} (h : s.fileId? path = some id) :
    s.hasFile id = true := by
  obtain ⟨f, hf, -, rfl⟩ := fileId?_eq_some h
  exact hasFile_iff.mpr ⟨f, hf, rfl⟩

/-! ## §2. Writing the imports of a file. -/

/-- The import that a planned edge makes from a file, if its target has a row. -/
def plannedRow? (s : Store) (fromId : RowId) (e : PlannedEdge) : Option EdgeRow :=
  (s.fileId? e.target).map fun toId => ⟨fromId, toId, e.symbol.getD ""⟩

theorem EdgesOnly.plannedRow? (h : EdgesOnly s s') (fromId : RowId) (e : PlannedEdge) :
    s'.plannedRow? fromId e = s.plannedRow? fromId e := by
  unfold Store.plannedRow?
  rw [h.fileId?]

end Store

open Store

theorem writeEdge_edges {p : Progress} (hs : p.store.Intact) {fromId : RowId}
    (hfrom : p.store.hasFile fromId = true) (e : PlannedEdge) :
    ∃ p', Progress.writeEdge fromId p e = .ok p' ∧ p'.store.Intact ∧ EdgesOnly p.store p'.store
      ∧ ∀ row, row ∈ p'.store.edges ↔
        row ∈ p.store.edges ∨ p.store.plannedRow? fromId e = some row := by
  unfold Progress.writeEdge plannedRow?
  cases htarget : p.store.fileId? e.target with
  | none => exact ⟨p, rfl, hs, .refl _, by simp⟩
  | some toId =>
    have hinsert := insertEdge_of_files hfrom (hasFile_of_fileId? htarget) e.symbol
    simp only [Option.map_some, Option.some.injEq]
    -- an edge that is there already is not put in a second time
    by_cases hthere : p.store.edges.contains ⟨fromId, toId, e.symbol.getD ""⟩ = true
    · rw [if_pos hthere] at hinsert
      rw [hinsert]
      refine ⟨_, rfl, hs, .refl _, fun row => ?_⟩
      constructor
      · exact Or.inl
      · rintro (hrow | rfl)
        · exact hrow
        · exact List.contains_iff_mem.mp hthere
    · rw [if_neg hthere] at hinsert
      have hintact := hs.insertEdge hinsert
      rw [hinsert]
      refine ⟨_, rfl, hintact, rfl, fun row => ?_⟩
      show row ∈ p.store.edges ++ [_] ↔ _
      rw [List.mem_append, List.mem_singleton, eq_comm]

theorem writeEdges_edges {fromId : RowId} (edges : List PlannedEdge) :
    ∀ {p : Progress}, p.store.Intact → p.store.hasFile fromId = true →
      ∃ p', edges.foldlM (Progress.writeEdge fromId) p = .ok p' ∧ p'.store.Intact
        ∧ EdgesOnly p.store p'.store
        ∧ ∀ row, row ∈ p'.store.edges ↔
          row ∈ p.store.edges ∨ ∃ e ∈ edges, p.store.plannedRow? fromId e = some row := by
  induction edges with
  | nil => intro p hs _; exact ⟨p, rfl, hs, .refl _, by simp⟩
  | cons e rest ih =>
    intro p hs hfrom
    obtain ⟨mid, hmid, hintact, honly, hedges⟩ := writeEdge_edges hs hfrom e
    obtain ⟨p', hp', hintact', honly', hedges'⟩ := ih hintact (by rw [honly.hasFile, hfrom])
    refine ⟨p', ?_, hintact', honly.trans honly', fun row => ?_⟩
    · rw [List.foldlM_cons, hmid]
      exact hp'
    · rw [hedges', hedges]
      simp only [honly.plannedRow?, List.mem_cons, exists_eq_or_imp, or_assoc]

/-- The planned edges of a file with a row take the place of those it has. -/
theorem writeFile_edges {p : Progress} (hs : p.store.Intact) (f : FilePlan) :
    ∃ p', p.writeFile f = .ok p' ∧ p'.store.Intact ∧ EdgesOnly p.store p'.store
      ∧ ∀ row, row ∈ p'.store.edges ↔
        (row ∈ p.store.edges ∧ p.store.fileId? f.path ≠ some row.fromId)
          ∨ ∃ fromId, p.store.fileId? f.path = some fromId
            ∧ ∃ e ∈ f.edges, p.store.plannedRow? fromId e = some row := by
  unfold Progress.writeFile
  cases hsource : p.store.fileId? f.path with
  | none => exact ⟨p, rfl, hs, .refl _, by simp⟩
  | some fromId =>
    let cleared : Progress := { p with store := (p.store.clearEdges fromId).1 }
    have honly : EdgesOnly p.store cleared.store := rfl
    obtain ⟨mid, hmid, hintact, honly', hedges⟩ := writeEdges_edges f.edges
      (p := cleared) (hs.clearEdges fromId) (hasFile_of_fileId? hsource)
    refine ⟨{ mid with files := mid.files + 1 }, ?_, hintact, honly.trans honly', fun row => ?_⟩
    · show (do
        let written ← f.edges.foldlM (Progress.writeEdge fromId) cleared
        return { written with files := written.files + 1 }) = _
      rw [hmid]
      rfl
    · have hcleared : row ∈ cleared.store.edges ↔ row ∈ p.store.edges ∧ row.fromId ≠ fromId := by
        show row ∈ p.store.edges.filter (·.fromId != fromId) ↔ _
        rw [List.mem_filter]
        simp
      show row ∈ mid.store.edges ↔ _
      rw [hedges, hcleared]
      simp only [honly.plannedRow?, Option.some.injEq, exists_eq_left', ne_eq, eq_comm]

theorem writeFiles_edges (files : List FilePlan) :
    ∀ {p : Progress}, p.store.Intact →
      ∃ p', files.foldlM Progress.writeFile p = .ok p' ∧ p'.store.Intact
        ∧ EdgesOnly p.store p'.store
        ∧ ((files.map (·.path)).Nodup → ∀ row, row ∈ p'.store.edges ↔
          (row ∈ p.store.edges ∧ ∀ f ∈ files, p.store.fileId? f.path ≠ some row.fromId)
            ∨ ∃ f ∈ files, ∃ fromId, p.store.fileId? f.path = some fromId
              ∧ ∃ e ∈ f.edges, p.store.plannedRow? fromId e = some row) := by
  induction files with
  | nil => intro p hs; exact ⟨p, rfl, hs, .refl _, by simp⟩
  | cons f rest ih =>
    intro p hs
    obtain ⟨mid, hmid, hintact, honly, hedges⟩ := writeFile_edges hs f
    obtain ⟨p', hp', hintact', honly', hedges'⟩ := ih hintact
    refine ⟨p', ?_, hintact', honly.trans honly', fun hnodup row => ?_⟩
    · rw [List.foldlM_cons, hmid]
      exact hp'
    · rw [List.map_cons, List.nodup_cons] at hnodup
      rw [hedges' hnodup.2, hedges]
      simp only [honly.fileId?, honly.plannedRow?]
      -- a later file does not take away what an earlier one has got
      have hlater : ∀ {fromId : RowId} {e : PlannedEdge},
          p.store.fileId? f.path = some fromId → p.store.plannedRow? fromId e = some row →
          ∀ g ∈ rest, p.store.fileId? g.path ≠ some row.fromId := by
        intro fromId e hsource hrow g hg hsame
        obtain ⟨toId, -, rfl⟩ := Option.map_eq_some_iff.mp hrow
        obtain ⟨a, ha, hapath, haid⟩ := fileId?_eq_some hsource
        obtain ⟨b, hb, hbpath, hbid⟩ := fileId?_eq_some hsame
        have hab : a = b := List.inj_on_of_nodup_map hs.ids ha hb (haid.trans hbid.symm)
        exact hnodup.1 (List.mem_map.mpr ⟨g, hg, by rw [← hbpath, ← hab, hapath]⟩)
      constructor
      · rintro (⟨⟨hrow, hnot⟩ | ⟨fromId, hsource, e, he, hrow⟩, hrest⟩ | ⟨g, hg, hplanned⟩)
        · refine .inl ⟨hrow, fun g hg => ?_⟩
          rcases List.mem_cons.mp hg with rfl | hg
          · exact hnot
          · exact hrest g hg
        · exact .inr ⟨f, List.mem_cons_self, fromId, hsource, e, he, hrow⟩
        · exact .inr ⟨g, List.mem_cons_of_mem _ hg, hplanned⟩
      · rintro (⟨hrow, hnot⟩ | ⟨g, hg, fromId, hsource, e, he, hrow⟩)
        · exact .inl ⟨.inl ⟨hrow, hnot f List.mem_cons_self⟩,
            fun g hg => hnot g (List.mem_cons_of_mem _ hg)⟩
        · rcases List.mem_cons.mp hg with rfl | hg
          · exact .inl ⟨.inr ⟨fromId, hsource, e, he, hrow⟩, hlater hsource hrow⟩
          · exact .inr ⟨g, hg, fromId, hsource, e, he, hrow⟩

/-- **Applying a plan** never fails, and writes imports only. -/
theorem apply_rows (plan : Plan) {s : Store} (hs : s.Intact) :
    ∃ s' report, plan.apply s = .ok (s', report) ∧ s'.Intact ∧ EdgesOnly s s'
      ∧ ((plan.files.map (·.path)).Nodup → ∀ row, row ∈ s'.edges ↔
        (row ∈ s.edges ∧ ∀ f ∈ plan.files, s.fileId? f.path ≠ some row.fromId)
          ∨ ∃ f ∈ plan.files, ∃ fromId, s.fileId? f.path = some fromId
            ∧ ∃ e ∈ f.edges, s.plannedRow? fromId e = some row) := by
  obtain ⟨p, hp, hintact, honly, hedges⟩ := @writeFiles_edges plan.files ⟨s, 0, 0⟩ hs
  refine ⟨p.store, ⟨p.files, p.edges, plan.failures⟩, ?_, hintact, honly, hedges⟩
  unfold Plan.apply
  rw [hp]
  rfl

/-! ## §3. Imports by path. -/

namespace Store

variable {s s' : Store}

theorem fileId?_of_mem (hs : s.Intact) {f : FileRow} (hf : f ∈ s.files) :
    s.fileId? f.path = some f.id := by
  unfold fileId?
  rw [file?_of_mem hs.paths hf]
  rfl

theorem fileById?_of_fileId? (hs : s.Intact) {path : String} {id : RowId}
    (h : s.fileId? path = some id) : (s.fileById? id).map (·.path) = some path := by
  obtain ⟨f, hf, hpath, hid⟩ := fileId?_eq_some h
  rw [← hid, fileById?_of_mem hs.ids hf, Option.map_some, hpath]

/-- An import is listed if its row is there. An import of the whole file has the empty symbol. -/
theorem Intact.mem_allEdges_iff (hs : s.Intact) {e : Edge} :
    e ∈ s.allEdges ↔ ∃ fromId toId symbol, s.fileId? e.source = some fromId
      ∧ s.fileId? e.target = some toId ∧ e.symbol = Intact.shownSymbol symbol
      ∧ (⟨fromId, toId, symbol⟩ : EdgeRow) ∈ s.edges := by
  rw [Intact.mem_allEdges]
  constructor
  · rintro ⟨row, hrow, hedge⟩
    obtain ⟨f, hf, g, hg, hfid, hgid, rfl⟩ := Intact.edge?_eq_some hedge
    exact ⟨row.fromId, row.toId, row.symbol, hfid ▸ fileId?_of_mem hs hf,
      hgid ▸ fileId?_of_mem hs hg, rfl, hrow⟩
  · rintro ⟨fromId, toId, symbol, hfrom, hto, hsymbol, hrow⟩
    refine ⟨_, hrow, ?_⟩
    rw [edge?_paths]
    simp only
    rw [fileById?_of_fileId? hs hfrom, fileById?_of_fileId? hs hto]
    show some (⟨e.source, e.target, Intact.shownSymbol symbol⟩ : Edge) = some e
    rw [← hsymbol]

theorem shownSymbol_getD (symbol : String) : (Intact.shownSymbol symbol).getD "" = symbol := by
  unfold Intact.shownSymbol
  split
  next h => exact (String.isEmpty_iff.mp h).symm
  next => rfl

/-- Stores with the same files and edges list the same imports. -/
theorem allEdges_congr (hfiles : s'.files = s.files) (hedges : s'.edges = s.edges) :
    s'.allEdges = s.allEdges := by
  unfold allEdges
  rw [hedges]
  congr 2
  funext row
  unfold edge? fileById?
  rw [hfiles]

/-- What an import is sorted by. -/
def edgeKey (e : Edge) : String ×ₗ String ×ₗ String :=
  toLex (e.source, toLex (e.target, e.symbol.getD ""))

theorem sortEdges_eq (edges : List Edge) :
    sortEdges edges = edges.mergeSort fun a b => decide (edgeKey a ≤ edgeKey b) := by
  unfold sortEdges
  congr 1
  funext a b
  rw [Bool.eq_iff_iff]
  simp [edgeKey, Prod.Lex.toLex_le_toLex]

theorem sortEdges_sorted (edges : List Edge) :
    (sortEdges edges).Pairwise fun a b => edgeKey a ≤ edgeKey b := by
  rw [sortEdges_eq]
  have hpairwise := @List.pairwise_mergeSort _ (fun a b => decide (edgeKey a ≤ edgeKey b))
    (fun a b c hab hbc => by simpa using le_trans (by simpa using hab) (by simpa using hbc))
    (fun a b => by simpa using le_total (edgeKey a) (edgeKey b)) edges
  exact hpairwise.imp (by simp)

theorem allEdges_sorted (s : Store) : s.allEdges.Pairwise fun a b => edgeKey a ≤ edgeKey b :=
  sortEdges_sorted _

/-- Imports as they are listed: sorted, each once, and no symbol is shown that is empty. -/
structure ListsImports (edges : List Edge) : Prop where
  sorted : edges.Pairwise fun a b => edgeKey a ≤ edgeKey b
  once : edges.Nodup
  shown : ∀ e ∈ edges, ∃ symbol, e.symbol = Intact.shownSymbol symbol

/-- There is one way to list some imports. -/
theorem ListsImports.eq {edges others : List Edge} (h : ListsImports edges) (h' : ListsImports others)
    (hmem : ∀ e, e ∈ edges ↔ e ∈ others) : edges = others := by
  have hperm : edges.Perm others := (List.perm_ext_iff_of_nodup h.once h'.once).mpr hmem
  apply hperm.eq_of_pairwise _ h.sorted h'.sorted
  -- two imports with one key are the same, since no listed symbol is empty
  intro a b ha hb hab hba
  obtain ⟨x, hx⟩ := h.shown a ha
  obtain ⟨y, hy⟩ := h'.shown b hb
  have hkey : edgeKey a = edgeKey b := le_antisymm hab hba
  simp only [edgeKey, toLex_inj, Prod.mk.injEq] at hkey
  obtain ⟨hsource, htarget, hsymbol⟩ := hkey
  rw [hx, hy, shownSymbol_getD, shownSymbol_getD] at hsymbol
  cases a
  cases b
  simp_all

theorem Intact.allEdges_nodup (hs : s.Intact) : s.allEdges.Nodup := by
  unfold allEdges sortEdges
  rw [(List.mergeSort_perm _ _).nodup_iff]
  refine hs.edgesOnce.filterMap fun row row' e hrow hrow' => ?_
  obtain ⟨f, hf, g, hg, hfid, hgid, rfl⟩ := Intact.edge?_eq_some hrow
  obtain ⟨f', hf', g', hg', hfid', hgid', heq⟩ := Intact.edge?_eq_some hrow'
  injection heq with hsource htarget hsymbol
  have hff : f = f' := List.inj_on_of_nodup_map hs.paths hf hf' hsource
  have hgg : g = g' := List.inj_on_of_nodup_map hs.paths hg hg' htarget
  have hsame : row.symbol = row'.symbol := by
    rw [← shownSymbol_getD row.symbol, hsymbol, shownSymbol_getD]
  subst hff hgg
  cases row
  cases row'
  simp_all

theorem Intact.listsImports (hs : s.Intact) (p : Edge → Bool) : ListsImports (s.allEdges.filter p) where
  sorted := s.allEdges_sorted.filter p
  once := hs.allEdges_nodup.filter p
  shown := by
    intro e he
    obtain ⟨-, -, symbol, -, -, hsymbol, -⟩ := hs.mem_allEdges_iff.mp (List.mem_filter.mp he).1
    exact ⟨symbol, hsymbol⟩

/-- Stores that have the same imports of some kind list them alike. -/
theorem allEdges_filter_eq (hs : s.Intact) (hs' : s'.Intact) {p : Edge → Bool}
    (h : ∀ e, p e = true → (e ∈ s.allEdges ↔ e ∈ s'.allEdges)) :
    s.allEdges.filter p = s'.allEdges.filter p := by
  apply (hs.listsImports p).eq (hs'.listsImports p)
  intro e
  rw [List.mem_filter, List.mem_filter]
  exact ⟨fun he => ⟨(h e he.2).mp he.1, he.2⟩, fun he => ⟨(h e he.2).mpr he.1, he.2⟩⟩

/-- Stores that have the same imports list them alike. -/
theorem allEdges_eq (hs : s.Intact) (hs' : s'.Intact)
    (h : ∀ e, e ∈ s.allEdges ↔ e ∈ s'.allEdges) : s.allEdges = s'.allEdges := by
  have hfilter := allEdges_filter_eq hs hs' (p := fun _ => true) fun e _ => h e
  rwa [List.filter_true, List.filter_true] at hfilter

end Store

/-! ## §4. The imports after a plan. -/

/-- An import that a plan makes between files of a store. -/
def Resolve.Plan.Makes (plan : Plan) (s : Store) (e : Edge) : Prop :=
  ∃ f ∈ plan.files, f.path = e.source ∧ (s.file? e.source).isSome = true
    ∧ (s.file? e.target).isSome = true
    ∧ ∃ planned ∈ f.edges, planned.target = e.target
      ∧ e.symbol = Intact.shownSymbol (planned.symbol.getD "")

theorem fileId?_isSome {s : Store} {path : String} :
    (s.file? path).isSome = true ↔ ∃ id, s.fileId? path = some id := by
  unfold fileId?
  rw [Option.isSome_iff_exists]
  constructor
  · rintro ⟨f, hf⟩
    exact ⟨f.id, by rw [hf]; rfl⟩
  · rintro ⟨id, hid⟩
    obtain ⟨f, hf, -⟩ := Option.map_eq_some_iff.mp hid
    exact ⟨f, hf⟩

/-- **The imports after a plan.** A file with a plan has what is planned for it, as far as the files at
either end have rows, and a file without one has what it had. -/
theorem apply_edges (plan : Plan) {s : Store} (hs : s.Intact) :
    ∃ s' report, plan.apply s = .ok (s', report) ∧ s'.Intact ∧ EdgesOnly s s'
      ∧ ((plan.files.map (·.path)).Nodup → ∀ e, e ∈ s'.allEdges ↔
        (e ∈ s.allEdges ∧ e.source ∉ plan.files.map (·.path)) ∨ plan.Makes s e) := by
  obtain ⟨s', report, happly, hs', honly, hrows⟩ := apply_rows plan hs
  refine ⟨s', report, happly, hs', honly, fun hnodup e => ?_⟩
  rw [hs'.mem_allEdges_iff]
  simp only [honly.fileId?, hrows hnodup]
  constructor
  · rintro ⟨fromId, toId, symbol, hfrom, hto, hsymbol, ⟨hrow, hnot⟩ | ⟨f, hf, id, hid, planned, hmem, hplanned⟩⟩
    · refine .inl ⟨hs.mem_allEdges_iff.mpr ⟨fromId, toId, symbol, hfrom, hto, hsymbol, hrow⟩, ?_⟩
      intro hmem
      obtain ⟨f, hf, hpath⟩ := List.mem_map.mp hmem
      exact hnot f hf (by rw [hpath, hfrom])
    · obtain ⟨target, htarget, heq⟩ := Option.map_eq_some_iff.mp hplanned
      injection heq with hidfrom htoid hsym
      -- numbers are those of one path
      have hpath : f.path = e.source := by
        have hback := fileById?_of_fileId? hs hid
        rw [hidfrom, fileById?_of_fileId? hs hfrom] at hback
        exact (Option.some.inj hback).symm
      have htargetpath : planned.target = e.target := by
        have hback := fileById?_of_fileId? hs htarget
        rw [htoid, fileById?_of_fileId? hs hto] at hback
        exact (Option.some.inj hback).symm
      exact .inr ⟨f, hf, hpath, fileId?_isSome.mpr ⟨fromId, hfrom⟩, fileId?_isSome.mpr ⟨toId, hto⟩,
        planned, hmem, htargetpath, by rw [hsymbol, hsym]⟩
  · rintro (⟨hedge, hnot⟩ | ⟨f, hf, hpath, hfrom, hto, planned, hmem, htarget, hsymbol⟩)
    · obtain ⟨fromId, toId, symbol, hfrom, hto, hsymbol, hrow⟩ := hs.mem_allEdges_iff.mp hedge
      refine ⟨fromId, toId, symbol, hfrom, hto, hsymbol, .inl ⟨hrow, fun f hf hsame => ?_⟩⟩
      have hback := fileById?_of_fileId? hs hsame
      rw [fileById?_of_fileId? hs hfrom] at hback
      exact hnot (List.mem_map.mpr ⟨f, hf, (Option.some.inj hback).symm⟩)
    · obtain ⟨fromId, hfrom⟩ := fileId?_isSome.mp hfrom
      obtain ⟨toId, hto⟩ := fileId?_isSome.mp hto
      refine ⟨fromId, toId, planned.symbol.getD "", hfrom, hto, hsymbol,
        .inr ⟨f, hf, fromId, by rw [hpath, hfrom], planned, hmem, ?_⟩⟩
      unfold plannedRow?
      rw [htarget, hto]
      rfl

end CodeIndex
