import Mathlib
import CodeIndex.Proofs.Resolve.Apply

/-!
# What indexing a file does to imports

Imports are told here by the paths of their files. Writing a source file takes its own imports away,
until they are resolved anew, and leaves those that are made of it. Writing a document touches none.
Removing a file takes the imports at either end.

Main results: `index_allEdges`, `removeFile_allEdges`.
-/

namespace CodeIndex

namespace Store

variable {s s' : Store} {path : String} {e : Edge}

/-- An import stays where the numbers of its files and its row stay. -/
theorem mem_allEdges_of_kept (hs : s.Intact) (hs' : s'.Intact) (he : e ∈ s.allEdges)
    (hsource : ∀ id, s.fileId? e.source = some id → s'.fileId? e.source = some id)
    (htarget : ∀ id, s.fileId? e.target = some id → s'.fileId? e.target = some id)
    (hrow : ∀ row ∈ s.edges, s.fileId? e.source = some row.fromId →
      s.fileId? e.target = some row.toId → row ∈ s'.edges) : e ∈ s'.allEdges := by
  obtain ⟨fromId, toId, symbol, hfrom, hto, hsymbol, hmem⟩ := hs.mem_allEdges_iff.mp he
  exact hs'.mem_allEdges_iff.mpr ⟨fromId, toId, symbol, hsource _ hfrom, htarget _ hto, hsymbol,
    hrow _ hmem hfrom hto⟩

theorem fileId?_congr (h : s'.file? path = s.file? path) : s'.fileId? path = s.fileId? path := by
  unfold fileId?
  rw [h]

/-- The files at the ends of an import have rows. -/
theorem Intact.rows_of_edge (hs : s.Intact) (he : e ∈ s.allEdges) :
    (s.file? e.source).isSome = true ∧ (s.file? e.target).isSome = true := by
  obtain ⟨fromId, toId, -, hfrom, hto, -⟩ := hs.mem_allEdges_iff.mp he
  exact ⟨fileId?_isSome.mpr ⟨fromId, hfrom⟩, fileId?_isSome.mpr ⟨toId, hto⟩⟩

/-! ## §1. The steps. -/

theorem upsertFile_fileId? (info : FileInfo) {id : RowId} (h : s.fileId? path = some id) :
    (s.upsertFile info).1.fileId? path = some id := by
  by_cases hpath : path = info.path
  · subst hpath
    obtain ⟨f, hf, rfl⟩ := Option.map_eq_some_iff.mp h
    rw [fileId?, upsertFile_file?_self, Option.map_some, upsertFile_id_of_row hf]
  · rw [fileId?_congr (upsertFile_file?_of_ne s hpath), h]

theorem upsertFile_allEdges (hs : s.Intact) (info : FileInfo) :
    e ∈ (s.upsertFile info).1.allEdges ↔ e ∈ s.allEdges := by
  refine ⟨fun he => (upsertFile_rewrites hs info).allEdges hs he, fun he => ?_⟩
  refine mem_allEdges_of_kept hs (hs.upsertFile info) he (fun _ => upsertFile_fileId? info)
    (fun _ => upsertFile_fileId? info) fun row hrow _ _ => ?_
  rw [upsertFile_frame]
  exact hrow

theorem clearEdges_allEdges (hs : s.Intact) {id : RowId} (hid : s.fileId? path = some id) :
    e ∈ (s.clearEdges id).1.allEdges ↔ e ∈ s.allEdges ∧ e.source ≠ path := by
  have hrows : ∀ row, row ∈ (s.clearEdges id).1.edges ↔ row ∈ s.edges ∧ row.fromId ≠ id := by
    intro row
    simp [clearEdges]
  constructor
  · intro he
    refine ⟨(clearEdges_rewrites hs path id).allEdges hs he, fun hsource => ?_⟩
    obtain ⟨fromId, toId, symbol, hfrom, -, -, hmem⟩ := (hs.clearEdges id).mem_allEdges_iff.mp he
    have hfrom' : s.fileId? e.source = some fromId := hfrom
    rw [hsource, hid, Option.some.injEq] at hfrom'
    exact ((hrows _).mp hmem).2 hfrom'.symm
  · rintro ⟨he, hsource⟩
    refine mem_allEdges_of_kept hs (hs.clearEdges id) he (fun _ h => h) (fun _ h => h) ?_
    intro row hrow hfrom _
    refine (hrows row).mpr ⟨hrow, fun hsame => hsource ?_⟩
    -- one number is that of one path
    have hback := fileById?_of_fileId? hs hfrom
    rw [hsame, fileById?_of_fileId? hs hid] at hback
    exact (Option.some.inj hback).symm

theorem deleteFile_allEdges (hs : s.Intact) :
    e ∈ (s.deleteFile path).allEdges ↔ e ∈ s.allEdges ∧ e.source ≠ path ∧ e.target ≠ path := by
  cases hrow : s.file? path with
  | none =>
    rw [deleteFile_of_noRow hrow]
    refine ⟨fun he => ⟨he, ?_, ?_⟩, fun h => h.1⟩
    · rintro rfl
      exact absurd (hs.rows_of_edge he).1 (by simp [hrow])
    · rintro rfl
      exact absurd (hs.rows_of_edge he).2 (by simp [hrow])
  | some f =>
    have hf : s.fileId? path = some f.id := by rw [fileId?, hrow]; rfl
    constructor
    · intro he
      have hrows := (hs.deleteFile path).rows_of_edge he
      refine ⟨(deleteFile_rewrites hs hrow).allEdges hs he, ?_, ?_⟩
      · rintro rfl
        exact absurd hrows.1 (by simp [deleteFile_file?_self])
      · rintro rfl
        exact absurd hrows.2 (by simp [deleteFile_file?_self])
    · rintro ⟨he, hsource, htarget⟩
      have hkept : ∀ {other : String}, other ≠ path → ∀ id, s.fileId? other = some id →
          (s.deleteFile path).fileId? other = some id := by
        intro other hne id hid
        rw [fileId?_congr (deleteFile_file?_of_ne s hne), hid]
      have hother : ∀ {other : String} {id : RowId}, other ≠ path → s.fileId? other = some id →
          id ≠ f.id := by
        rintro other id hne hid rfl
        have hback := fileById?_of_fileId? hs hid
        rw [fileById?_of_fileId? hs hf] at hback
        exact hne (Option.some.inj hback).symm
      refine mem_allEdges_of_kept hs (hs.deleteFile path) he (hkept hsource) (hkept htarget) ?_
      intro row hmem hfrom hto
      rw [deleteFile_of_row hrow]
      simpa [hother hsource hfrom, hother htarget hto] using hmem

/-! ## §2. Operations on one file. -/

/-- A source file that is written has no imports of its own any more. -/
theorem putCode_allEdges (hs : s.Intact) {info : FileInfo} {symbols : List Symbol} {existed : Bool}
    {diff : FileDiff} (hput : s.putCode info symbols = .ok (s', existed, diff)) :
    e ∈ s'.allEdges ↔ e ∈ s.allEdges ∧ e.source ≠ info.path := by
  have hrow := upsertFile_file?_self s info
  have hhas : (s.upsertFile info).1.hasFile (s.upsertFile info).2.1 = true :=
    hasFile_iff.mpr ⟨_, (file?_eq_some hrow).1, rfl⟩
  obtain ⟨mid, hfiles, hedges, hreplace⟩ : ∃ mid, mid.files = (s.upsertFile info).1.files
      ∧ mid.edges = (s.upsertFile info).1.edges
      ∧ (s.upsertFile info).1.replaceSymbols (s.upsertFile info).2.1 symbols = .ok mid := by
    obtain ⟨rows, -, -, hreplace⟩ := replaceSymbols_of_file hhas symbols
    refine ⟨_, ?_, ?_, hreplace⟩ <;> rfl
  simp only [putCode, hreplace, bind, Except.bind, pure, Except.pure, Except.ok.injEq,
    Prod.mk.injEq] at hput
  obtain ⟨rfl, -⟩ := hput
  -- symbols and snapshots are no part of an import
  have hdiff : ((mid.clearEdges (s.upsertFile info).2.1).1.computeDiff info.path symbols).1.allEdges
      = (mid.clearEdges (s.upsertFile info).2.1).1.allEdges := by
    refine allEdges_congr ?_ ?_ <;> rw [computeDiff_frame]
  have hid : mid.fileId? info.path = some (s.upsertFile info).2.1 := by
    rw [fileId?, file?, hfiles, ← file?, hrow]
    rfl
  rw [hdiff, clearEdges_allEdges ((hs.upsertFile info).replaceSymbols hreplace) hid,
    allEdges_congr hfiles hedges, upsertFile_allEdges hs]

theorem putDocument_allEdges (hs : s.Intact) {info : FileInfo} {chunks : List Chunk} {existed : Bool}
    (hdistinct : (chunks.map (·.index)).Nodup)
    (hput : s.putDocument info chunks = .ok (s', existed)) :
    e ∈ s'.allEdges ↔ e ∈ s.allEdges := by
  have hhas : (s.upsertFile info).1.hasFile (s.upsertFile info).2.1 = true :=
    hasFile_iff.mpr ⟨_, (file?_eq_some (upsertFile_file?_self s info)).1, rfl⟩
  obtain ⟨rows, -, -, hreplace⟩ := replaceChunks_of_distinct hhas hdistinct
  rw [putDocument] at hput
  simp only [hreplace, Except.ok.injEq, Prod.mk.injEq] at hput
  obtain ⟨rfl, -⟩ := hput
  rw [← @upsertFile_allEdges s e hs info]
  exact iff_of_eq (congrArg (e ∈ ·) (allEdges_congr rfl rfl))

theorem removeFile_allEdges (hs : s.Intact) {diff : FileDiff}
    (hremove : s.removeFile path = some (s', diff)) :
    e ∈ s'.allEdges ↔ e ∈ s.allEdges ∧ e.source ≠ path ∧ e.target ≠ path := by
  obtain ⟨row, hrow, -⟩ := Option.map_eq_some_iff.mp hremove
  cases hclass : row.fileClass with
  | code =>
    simp only [removeFile, hrow, hclass, Option.map_some, Option.some.injEq, Prod.mk.injEq] at hremove
    obtain ⟨rfl, -⟩ := hremove
    have hsame : (s.computeDiff path []).1.allEdges = s.allEdges := by
      refine allEdges_congr ?_ ?_ <;> rw [computeDiff_frame]
    rw [deleteFile_allEdges (hs.computeDiff path []), hsame]
  | doc =>
    simp only [removeFile, hrow, hclass, Option.map_some, Option.some.injEq, Prod.mk.injEq] at hremove
    obtain ⟨rfl, -⟩ := hremove
    exact deleteFile_allEdges hs

end Store

namespace Indexer

variable {x : Indexer} {d : Disk} {s s' : Store} {c : FileClass} {path : String} {force : Bool}
  {o : FileOutcome}

/-- What indexing a file writes. -/
inductive IndexWrites (x : Indexer) (d : Disk) (s : Store) (path : String) :
    FileClass → Store → FileOutcome → Prop where
  | skipped (c : FileClass) : IndexWrites x d s path c s ⟨path, .skipped, none⟩
  | code {bytes : Text.Bytes} {content : List Char} {s' : Store} {existed : Bool} {diff : FileDiff}
      (read : x.read d path = .ok bytes) (decoded : Text.decode? bytes = some content)
      (put : s.putCode (codeInfo path bytes content) (parse path content).symbols
        = .ok (s', existed, diff)) :
      IndexWrites x d s path .code s' ⟨path, .ofExisted existed, some diff⟩
  | doc {bytes : Text.Bytes} {s' : Store} {existed : Bool} (read : x.read d path = .ok bytes)
      (put : s.putDocument (docInfo path bytes)
        (x.chunks (Language.ofPath path) (Text.decodeLossy bytes)) = .ok (s', existed)) :
      IndexWrites x d s path .doc s' ⟨path, .ofExisted existed, none⟩

theorem index_writes (h : x.index d s c path force = .ok (s', o)) : IndexWrites x d s path c s' o := by
  unfold index at h
  cases hread : x.read d path with
  | error failure => simp [hread, bind, Except.bind] at h
  | ok bytes =>
    simp only [hread, bind, Except.bind] at h
    split at h
    · simp only [pure, Except.pure, Except.ok.injEq, Prod.mk.injEq] at h
      obtain ⟨rfl, rfl⟩ := h
      exact .skipped c
    · cases c with
      | code =>
        simp only [writeFile] at h
        split at h
        · exact absurd h (by simp)
        next content hdecoded =>
          split at h
          · exact absurd h (by simp)
          next s'' existed diff hput =>
            obtain ⟨rfl, rfl⟩ := Prod.mk.inj (Except.ok.inj h)
            exact .code hread hdecoded hput
      | doc =>
        simp only [writeDocument] at h
        split at h
        · exact absurd h (by simp)
        next s'' existed hput =>
          obtain ⟨rfl, rfl⟩ := Prod.mk.inj (Except.ok.inj h)
          exact .doc hread hput

theorem ofExisted_ne_skipped (existed : Bool) : IndexStatus.ofExisted existed ≠ .skipped := by
  cases existed <;> decide

/-- What indexing a file does to imports. -/
theorem index_allEdges (hs : s.Intact) (h : x.index d s c path force = .ok (s', o)) :
    (o.status = .skipped → s' = s)
      ∧ (o.status ≠ .skipped →
        ∀ e, e ∈ s'.allEdges ↔ e ∈ s.allEdges ∧ (c = .code → e.source ≠ path)) := by
  cases index_writes h with
  | skipped => exact ⟨fun _ => rfl, fun hstatus => absurd rfl hstatus⟩
  | code read decoded put =>
    refine ⟨fun hstatus => absurd hstatus (ofExisted_ne_skipped _), fun _ e => ?_⟩
    rw [Store.putCode_allEdges hs put]
    simp [codeInfo]
  | doc read put =>
    refine ⟨fun hstatus => absurd hstatus (ofExisted_ne_skipped _), fun _ e => ?_⟩
    rw [Store.putDocument_allEdges hs (x.chunks_indices _ _) put]
    simp

end Indexer

end CodeIndex
