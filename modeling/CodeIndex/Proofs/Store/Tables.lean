import Mathlib
import CodeIndex.Store.Diff

/-!
# What the operations do to the tables

Every operation of the store writes one or two tables and leaves the others alone. This module says
so once for each of them, in the form that later proofs read: the store afterwards is the store
before with the named tables replaced. The numbers of new rows are never told, only that they are
past all numbers in use.

  lt_nextId                 a new number is past all numbers in use
  lookup_insertSorted_self  an entry put among sorted ones is found there
  upsertFile_id_of_row      a path with a row keeps its number
  replaceSymbols_of_file    the symbols of a file after they were replaced
  insertChunks_of_distinct  chunks with numbers of their own are all put in
  putEntries_of_new         entries with names of their own are all put in
-/

namespace CodeIndex

/-! ## §1. Numbers, sorted entries and repetitions. -/

theorem le_foldl_max (ids : List RowId) :
    ∀ start : RowId, start ≤ ids.foldl max start ∧ ∀ id ∈ ids, id ≤ ids.foldl max start := by
  induction ids with
  | nil => intro start; exact ⟨le_refl start, by simp⟩
  | cons id ids ih =>
    intro start
    obtain ⟨hstart, hids⟩ := ih (max start id)
    -- the first number is in the start of the rest
    refine ⟨le_trans (le_max_left start id) hstart, ?_⟩
    intro x hx
    rcases List.mem_cons.mp hx with rfl | hx
    · exact le_trans (le_max_right start x) hstart
    · exact hids x hx

/-- A new number is past all numbers in use. -/
theorem lt_nextId {ids : List RowId} {id : RowId} (h : id ∈ ids) : id < nextId ids := by
  have hle : id ≤ ids.foldl max 0 := (le_foldl_max ids 0).2 id h
  unfold nextId
  exact Int.lt_add_one_of_le hle

theorem nextId_notMem (ids : List RowId) : nextId ids ∉ ids :=
  fun h => absurd (lt_nextId h) (lt_irrefl _)

/-- Where keys do not repeat, a row is found by its key. -/
theorem find?_key_of_mem {α κ : Type} [BEq κ] [LawfulBEq κ] {rows : List α} {key : α → κ}
    (hnodup : (rows.map key).Nodup) {row : α} (hrow : row ∈ rows) :
    rows.find? (key · == key row) = some row := by
  cases hfound : rows.find? (key · == key row) with
  | none => exact absurd (List.find?_eq_none.mp hfound row hrow) (by simp)
  | some other =>
    have hkey : key other = key row := by simpa using List.find?_some hfound
    rw [List.inj_on_of_nodup_map hnodup (List.mem_of_find?_eq_some hfound) hrow hkey]

theorem mem_of_lookup {α β : Type} [BEq α] [LawfulBEq α] {entries : List (α × β)} {name : α} {value : β}
    (h : entries.lookup name = some value) : (name, value) ∈ entries := by
  obtain ⟨before, after, hsplit, -⟩ := List.lookup_eq_some_iff.mp h
  rw [hsplit]
  simp

theorem lookup_insertSorted_self {α : Type} (name : String) (value : α) (entries : List (String × α)) :
    (insertSorted name value entries).lookup name = some value := by
  induction entries with
  | nil => simp [insertSorted]
  | cons entry rest ih =>
    obtain ⟨other, old⟩ := entry
    unfold insertSorted
    split
    · simp
    · split
      · simp
      next hne =>
        have hbeq : (name == other) = false := by simpa using hne
        rw [List.lookup_cons, hbeq]
        exact ih

theorem lookup_insertSorted_of_ne {α : Type} {name other : String} (hne : other ≠ name) (value : α)
    (entries : List (String × α)) :
    (insertSorted name value entries).lookup other = entries.lookup other := by
  have hbeq : (other == name) = false := by simpa using hne
  induction entries with
  | nil => simp [insertSorted, List.lookup_cons, hbeq]
  | cons entry rest ih =>
    obtain ⟨third, old⟩ := entry
    unfold insertSorted
    split
    · simp [List.lookup_cons, hbeq]
    · split
      next heq => subst heq; simp [List.lookup_cons, hbeq]
      next => simp only [List.lookup_cons, ih]

/-- What stands among sorted entries after one was put in: the new one, and those of other names. -/
theorem mem_insertSorted {α : Type} {name : String} {value : α} {entries : List (String × α)}
    {entry : String × α} (h : entry ∈ insertSorted name value entries) :
    entry = (name, value) ∨ entry ∈ entries := by
  induction entries with
  | nil => simpa [insertSorted] using h
  | cons first rest ih =>
    obtain ⟨other, old⟩ := first
    unfold insertSorted at h
    split at h
    · simpa using h
    · split at h
      · rcases List.mem_cons.mp h with h | h
        · exact .inl h
        · exact .inr (List.mem_cons_of_mem _ h)
      · rcases List.mem_cons.mp h with h | h
        · exact .inr (by simp [h])
        · rcases ih h with h | h
          · exact .inl h
          · exact .inr (List.mem_cons_of_mem _ h)

/-- Entries in the order of their names, each name once. -/
def SortedKeys {α : Type} (entries : List (String × α)) : Prop :=
  (entries.map (·.1)).Pairwise (· < ·)

theorem sortedKeys_insertSorted {α : Type} (name : String) (value : α) {entries : List (String × α)}
    (h : SortedKeys entries) : SortedKeys (insertSorted name value entries) := by
  induction entries with
  | nil => simp [SortedKeys, insertSorted]
  | cons first rest ih =>
    obtain ⟨other, old⟩ := first
    have hrest : SortedKeys rest := (List.pairwise_cons.mp h).2
    have hother : ∀ key ∈ rest.map (·.1), other < key := (List.pairwise_cons.mp h).1
    unfold insertSorted
    split
    next hlt =>
      refine List.pairwise_cons.mpr ⟨?_, h⟩
      intro key hkey
      rcases List.mem_cons.mp hkey with rfl | hkey
      · exact hlt
      · exact lt_trans hlt (hother key hkey)
    next hnlt =>
      split
      next heq => subst heq; exact List.pairwise_cons.mpr ⟨hother, hrest⟩
      next hne =>
        -- the new name comes after the first one, as all of the rest do
        have hlt : other < name := lt_of_le_of_ne (not_lt.mp hnlt) (Ne.symm hne)
        refine List.pairwise_cons.mpr ⟨?_, ih hrest⟩
        intro key hkey
        obtain ⟨entry, hentry, rfl⟩ := List.mem_map.mp hkey
        rcases mem_insertSorted hentry with rfl | hentry
        · exact hlt
        · exact hother _ (List.mem_map_of_mem hentry)

/-- What is left when repetitions are erased has none. -/
theorem nodup_eraseDups {α : Type} [BEq α] [LawfulBEq α] : (l : List α) → l.eraseDups.Nodup
  | [] => by simp
  | a :: rest => by
    rw [List.eraseDups_cons, List.nodup_cons]
    exact ⟨by simp [List.mem_eraseDups], nodup_eraseDups (rest.filter fun b => !b == a)⟩
termination_by l => l.length
decreasing_by exact Nat.lt_succ_of_le (List.length_filter_le _ _)

namespace Store

variable {s s' : Store}

/-! ## §2. Files. -/

theorem hasFile_iff {id : RowId} : s.hasFile id = true ↔ ∃ f ∈ s.files, f.id = id := by
  simp [hasFile]

/-- The number that the next new file gets is not in use. -/
theorem nextId_unused (s : Store) : s.hasFile (nextId (s.files.map (·.id))) = false := by
  cases hfile : s.hasFile (nextId (s.files.map (·.id))) with
  | false => rfl
  | true =>
    obtain ⟨f, hf, hid⟩ := hasFile_iff.mp hfile
    have hmem : f.id ∈ s.files.map (·.id) := List.mem_map_of_mem hf
    rw [hid] at hmem
    exact absurd hmem (nextId_notMem _)

theorem file?_eq_some {path : String} {f : FileRow} (h : s.file? path = some f) :
    f ∈ s.files ∧ f.path = path :=
  ⟨List.mem_of_find?_eq_some h, by simpa using List.find?_some h⟩

theorem file?_eq_none {path : String} : s.file? path = none ↔ ∀ f ∈ s.files, f.path ≠ path := by
  simp [file?]

/-- Where paths do not repeat, a row is found by its path. -/
theorem file?_of_mem (hpaths : (s.files.map (·.path)).Nodup) {f : FileRow} (hf : f ∈ s.files) :
    s.file? f.path = some f := find?_key_of_mem hpaths hf

/-- Where numbers do not repeat, a row is found by its number. -/
theorem fileById?_of_mem (hids : (s.files.map (·.id)).Nodup) {f : FileRow} (hf : f ∈ s.files) :
    s.fileById? f.id = some f := find?_key_of_mem hids hf

theorem fileId?_eq_some {path : String} {id : RowId} (h : s.fileId? path = some id) :
    ∃ f ∈ s.files, f.path = path ∧ f.id = id := by
  obtain ⟨f, hf, rfl⟩ := Option.map_eq_some_iff.mp h
  exact ⟨f, (file?_eq_some hf).1, (file?_eq_some hf).2, rfl⟩

/-- Putting a file in writes the table of files only. -/
theorem upsertFile_frame (s : Store) (info : FileInfo) :
    (s.upsertFile info).1 = { s with files := (s.upsertFile info).1.files } := by
  unfold upsertFile
  split <;> rfl

/-- Whether the path had a row is what the result says. -/
theorem upsertFile_existed (s : Store) (info : FileInfo) :
    (s.upsertFile info).2.2 = (s.file? info.path).isSome := by
  unfold upsertFile fileId?
  cases s.file? info.path <;> rfl

/-- The path that was put in has the new row. -/
theorem upsertFile_file?_self (s : Store) (info : FileInfo) :
    (s.upsertFile info).1.file? info.path = some ⟨info, (s.upsertFile info).2.1⟩ := by
  unfold upsertFile
  split
  next id hid =>
    obtain ⟨f, hf, hpath, -⟩ := fileId?_eq_some hid
    simp only [file?, List.find?_map, Function.comp_def]
    -- the new row stands where the old one stood
    have hsome : (s.files.find? fun x => (if x.path == info.path then (⟨info, id⟩ : FileRow) else x).path
        == info.path) = s.files.find? (·.path == info.path) := by
      congr 1
      funext x
      by_cases hx : x.path = info.path <;> simp [hx]
    rw [hsome]
    cases hfound : s.files.find? (·.path == info.path) with
    | none => exact absurd hpath (by simpa using List.find?_eq_none.mp hfound f hf)
    | some g =>
      have hg : g.path = info.path := by simpa using List.find?_some hfound
      simp [hg]
  next hnone =>
    have hrow : s.file? info.path = none := by simpa [fileId?] using hnone
    simp only [file?] at hrow ⊢
    rw [List.find?_append, hrow]
    simp

/-- Other paths keep their rows. -/
theorem upsertFile_file?_of_ne (s : Store) {info : FileInfo} {path : String} (hne : path ≠ info.path) :
    (s.upsertFile info).1.file? path = s.file? path := by
  unfold upsertFile
  split
  next id hid =>
    simp only [file?, List.find?_map, Function.comp_def]
    -- no row comes to have the path, or loses it
    have hcond : (fun x : FileRow => (if x.path == info.path then (⟨info, id⟩ : FileRow) else x).path == path)
        = fun x => x.path == path := by
      funext x
      by_cases hx : x.path = info.path
      · simp [hx]
      · simp [hx]
    rw [hcond]
    cases hfound : s.files.find? (·.path == path) with
    | none => rfl
    | some g =>
      have hg : g.path = path := by simpa using List.find?_some hfound
      have hgne : (g.path == info.path) = false := by simpa [hg] using hne
      rw [Option.map_some, hgne]
      rfl
  next hnone =>
    simp only [file?, List.find?_append]
    have hlast : ([⟨info, nextId (s.files.map (·.id))⟩] : List FileRow).find? (·.path == path) = none := by
      simp [Ne.symm hne]
    rw [hlast, Option.or_none]

/-- The numbers in use after a file was put in: those before, and the number of the file. A path that
has a row keeps its number, so that none is added then. -/
theorem upsertFile_ids (hpaths : (s.files.map (·.path)).Nodup) (info : FileInfo) :
    (s.upsertFile info).1.files.map (·.id) =
      s.files.map (·.id) ++ (if (s.upsertFile info).2.2 then [] else [(s.upsertFile info).2.1]) := by
  unfold upsertFile
  split
  next id hid =>
    obtain ⟨f, hf, hpath, hfid⟩ := fileId?_eq_some hid
    simp only [List.map_map, if_true, List.append_nil]
    refine List.map_congr_left fun g hg => ?_
    -- the row that is replaced is the only one with the path, so the number stays
    by_cases hgp : g.path = info.path
    · have hgf : g = f := List.inj_on_of_nodup_map hpaths hg hf (hgp.trans hpath.symm)
      simp [hgf, hpath, hfid]
    · simp [hgp]
  next => simp

/-- The paths with rows after a file was put in. -/
theorem upsertFile_paths (s : Store) (info : FileInfo) :
    (s.upsertFile info).1.files.map (·.path) =
      s.files.map (·.path) ++ (if (s.upsertFile info).2.2 then [] else [info.path]) := by
  unfold upsertFile
  split
  next id hid =>
    simp only [List.map_map, if_true, List.append_nil]
    refine List.map_congr_left fun g _ => ?_
    by_cases hgp : g.path = info.path <;> simp [hgp]
  next => simp

/-- The number of a path without a row is new. -/
theorem upsertFile_id_of_new {info : FileInfo} (hnew : s.file? info.path = none) :
    (s.upsertFile info).2.1 = nextId (s.files.map (·.id)) := by
  simp [upsertFile, fileId?, hnew]

/-- The number of a path with a row is the one it has. -/
theorem upsertFile_id_of_row {info : FileInfo} {f : FileRow} (hrow : s.file? info.path = some f) :
    (s.upsertFile info).2.1 = f.id := by
  simp [upsertFile, fileId?, hrow]

/-- Numbers in use stay in use. -/
theorem upsertFile_hasFile (hpaths : (s.files.map (·.path)).Nodup) (info : FileInfo) {id : RowId}
    (h : s.hasFile id = true) : (s.upsertFile info).1.hasFile id = true := by
  obtain ⟨f, hf, rfl⟩ := hasFile_iff.mp h
  have hmem : f.id ∈ (s.upsertFile info).1.files.map (·.id) := by
    rw [upsertFile_ids hpaths]
    exact List.mem_append_left _ (List.mem_map_of_mem hf)
  obtain ⟨g, hg, hid⟩ := List.mem_map.mp hmem
  exact hasFile_iff.mpr ⟨g, hg, hid⟩

/-- Deleting a file with a row takes the row, and all that has its number. -/
theorem deleteFile_of_row {path : String} {f : FileRow} (hrow : s.file? path = some f) :
    s.deleteFile path =
      { s with
        files := s.files.filter (·.path != path)
        symbols := s.symbols.filter (·.fileId != f.id)
        chunks := s.chunks.filter (·.fileId != f.id)
        edges := s.edges.filter fun e => e.fromId != f.id && e.toId != f.id } := by
  simp [deleteFile, fileId?, hrow]

theorem deleteFile_of_noRow {path : String} (hrow : s.file? path = none) :
    s.deleteFile path = s := by
  simp [deleteFile, fileId?, hrow]

theorem deleteFile_file?_self (s : Store) (path : String) : (s.deleteFile path).file? path = none := by
  cases hrow : s.file? path with
  | none => rw [deleteFile_of_noRow hrow, hrow]
  | some f =>
    rw [deleteFile_of_row hrow, file?_eq_none]
    intro g hg
    simpa using (List.mem_filter.mp hg).2

theorem deleteFile_file?_of_ne (s : Store) {path other : String} (hne : other ≠ path) :
    (s.deleteFile path).file? other = s.file? other := by
  cases hrow : s.file? path with
  | none => rw [deleteFile_of_noRow hrow]
  | some f =>
    rw [deleteFile_of_row hrow]
    simp only [file?, List.find?_filter]
    congr 1
    funext g
    by_cases hg : g.path = other <;> simp [hg, hne]

/-! ## §3. Symbols and chunks. -/

/-- The symbols of the file with a number, in the order of their rows. -/
def ownSymbols (s : Store) (id : RowId) : List Symbol :=
  (s.symbols.filter (·.fileId == id)).map (·.symbol)

/-- The chunks of the document with a number, in the order of their rows. -/
def ownChunks (s : Store) (id : RowId) : List Chunk :=
  (s.chunks.filter (·.fileId == id)).map (·.chunk)

theorem insertSymbol_of_file {id : RowId} (hfile : s.hasFile id = true) (symbol : Symbol) :
    ∃ row : SymbolRow, row.fileId = id ∧ row.symbol = symbol ∧
      s.insertSymbol id symbol = .ok { s with symbols := s.symbols ++ [row] } :=
  ⟨⟨nextId (s.symbols.map (·.id)), id, symbol⟩, rfl, rfl, by simp [insertSymbol, hfile]⟩

theorem insertSymbols_of_file {id : RowId} (symbols : List Symbol) :
    ∀ {s : Store}, s.hasFile id = true →
      ∃ rows : List SymbolRow, (∀ row ∈ rows, row.fileId = id) ∧ rows.map (·.symbol) = symbols ∧
        symbols.foldlM (fun s symbol => s.insertSymbol id symbol) s
          = .ok { s with symbols := s.symbols ++ rows } := by
  induction symbols with
  | nil => intro s _; exact ⟨[], by simp, rfl, by simp [pure, Except.pure]⟩
  | cons symbol symbols ih =>
    intro s hfile
    -- the rest is put into a store whose files are the same
    obtain ⟨row, hid, hsymbol, hinsert⟩ := insertSymbol_of_file hfile symbol
    obtain ⟨rows, hids, hsymbols, hfold⟩ :=
      ih (s := { s with symbols := s.symbols ++ [row] }) hfile
    refine ⟨row :: rows, ?_, by simp [hsymbol, hsymbols], ?_⟩
    · intro r hr
      rcases List.mem_cons.mp hr with rfl | hr
      · exact hid
      · exact hids r hr
    · rw [List.foldlM_cons, hinsert]
      show symbols.foldlM _ { s with symbols := s.symbols ++ [row] } = _
      rw [hfold]
      simp

/-- The symbols of a file that has a row can always be replaced. -/
theorem replaceSymbols_of_file {id : RowId} (hfile : s.hasFile id = true) (symbols : List Symbol) :
    ∃ rows : List SymbolRow, (∀ row ∈ rows, row.fileId = id) ∧ rows.map (·.symbol) = symbols ∧
      s.replaceSymbols id symbols
        = .ok { s with symbols := s.symbols.filter (·.fileId != id) ++ rows } :=
  insertSymbols_of_file symbols (s := { s with symbols := s.symbols.filter (·.fileId != id) }) hfile

theorem insertChunk_of_new {id : RowId} (chunk : Chunk) (hfile : s.hasFile id = true)
    (hnew : ∀ row ∈ s.chunks, row.fileId = id → row.chunk.index ≠ chunk.index) :
    ∃ row : ChunkRow, row.fileId = id ∧ row.chunk = chunk ∧
      s.insertChunk id chunk = .ok { s with chunks := s.chunks ++ [row] } := by
  have hany : (s.chunks.any fun c => c.fileId == id && c.chunk.index == chunk.index) = false := by
    simpa using hnew
  exact ⟨⟨nextId (s.chunks.map (·.id)), id, chunk⟩, rfl, rfl, by simp [insertChunk, hany, hfile]⟩

/-- Chunks with numbers of their own are all put in. -/
theorem insertChunks_of_distinct {id : RowId} (chunks : List Chunk) :
    ∀ {s : Store}, s.hasFile id = true → (chunks.map (·.index)).Nodup →
      (∀ row ∈ s.chunks, row.fileId = id → row.chunk.index ∉ chunks.map (·.index)) →
      ∃ rows : List ChunkRow, (∀ row ∈ rows, row.fileId = id) ∧ rows.map (·.chunk) = chunks ∧
        s.insertChunks id chunks = ({ s with chunks := s.chunks ++ rows }, .ok ()) := by
  induction chunks with
  | nil => intro s _ _ _; exact ⟨[], by simp, rfl, by simp [insertChunks]⟩
  | cons chunk chunks ih =>
    intro s hfile hdistinct hnew
    obtain ⟨hfirst, hrest⟩ := List.nodup_cons.mp hdistinct
    obtain ⟨row, hid, hchunk, hinsert⟩ := insertChunk_of_new chunk hfile
      (fun r hr hrid heq => hnew r hr hrid (by simp [heq]))
    -- the chunk that was just put in has a number that none of the others has
    have hnew' : ∀ r ∈ s.chunks ++ [row], r.fileId = id → r.chunk.index ∉ chunks.map (·.index) := by
      intro r hr hrid hmem
      rcases List.mem_append.mp hr with hr | hr
      · exact hnew r hr hrid (List.mem_cons_of_mem _ hmem)
      · obtain rfl := List.mem_singleton.mp hr
        exact hfirst (by rw [hchunk] at hmem; exact hmem)
    obtain ⟨rows, hids, hchunks, hinserts⟩ :=
      ih (s := { s with chunks := s.chunks ++ [row] }) hfile hrest hnew'
    refine ⟨row :: rows, ?_, by simp [hchunk, hchunks], ?_⟩
    · intro r hr
      rcases List.mem_cons.mp hr with rfl | hr
      · exact hid
      · exact hids r hr
    · unfold insertChunks
      rw [hinsert]
      show ({ s with chunks := s.chunks ++ [row] } : Store).insertChunks id chunks = _
      rw [hinserts]
      simp

/-- The chunks of a document that has a row can be replaced by any with numbers of their own. -/
theorem replaceChunks_of_distinct {id : RowId} (hfile : s.hasFile id = true) {chunks : List Chunk}
    (hdistinct : (chunks.map (·.index)).Nodup) :
    ∃ rows : List ChunkRow, (∀ row ∈ rows, row.fileId = id) ∧ rows.map (·.chunk) = chunks ∧
      s.replaceChunks id chunks
        = ({ s with chunks := s.chunks.filter (·.fileId != id) ++ rows }, .ok ()) :=
  insertChunks_of_distinct chunks (s := { s with chunks := s.chunks.filter (·.fileId != id) })
    hfile hdistinct fun row hrow hid => by simp [hid] at hrow

/-! ## §4. Edges. -/

/-- An import between two files is there after it was put in, and nothing else has changed. The
result says whether it is new. -/
theorem insertEdge_of_files {fromId toId : RowId} (hfrom : s.hasFile fromId = true)
    (hto : s.hasFile toId = true) (symbol : Option String) :
    s.insertEdge fromId toId symbol =
      .ok (if s.edges.contains ⟨fromId, toId, symbol.getD ""⟩ then (s, false)
        else ({ s with edges := s.edges ++ [⟨fromId, toId, symbol.getD ""⟩] }, true)) := by
  unfold insertEdge
  simp only [hfrom, hto, Bool.and_self, if_true]
  split <;> rfl

/-! ## §5. Snapshots. -/

/-- By what the entries of all snapshots are told apart. -/
def entryKey (row : SnapshotRow) : String × String := (row.path, row.entry.name)

/-- What stands among the entries after one was put in: the new one, and those of other keys. -/
theorem mem_putEntry {path : String} {rows : List SnapshotRow} {e : SnapshotEntry} {row : SnapshotRow} :
    row ∈ putEntry path rows e ↔
      (row ∈ rows ∧ entryKey row ≠ (path, e.name)) ∨ row = ⟨path, e⟩ := by
  simp only [putEntry, entryKey, List.mem_append, List.mem_filter, List.mem_singleton, Bool.or_eq_true,
    bne_iff_ne, ne_eq, Prod.mk.injEq, not_and_or]

/-- An entry of a new key is put at the end. -/
theorem putEntry_of_new {path : String} {rows : List SnapshotRow} {e : SnapshotEntry}
    (hnew : ∀ row ∈ rows, entryKey row ≠ (path, e.name)) :
    putEntry path rows e = rows ++ [⟨path, e⟩] := by
  unfold putEntry
  rw [List.filter_eq_self.mpr]
  intro row hrow
  simpa [entryKey, imp_iff_not_or] using hnew row hrow

theorem nodup_putEntry (path : String) {rows : List SnapshotRow} (h : (rows.map entryKey).Nodup)
    (e : SnapshotEntry) : ((putEntry path rows e).map entryKey).Nodup := by
  unfold putEntry
  rw [List.map_append]
  refine List.nodup_append.mpr ⟨h.sublist (List.filter_sublist.map _), by simp, ?_⟩
  -- the entry that had the key has given way
  intro key hkey other hother heq
  obtain ⟨row, hrow, rfl⟩ := List.mem_map.mp hkey
  obtain rfl := List.mem_singleton.mp hother
  have hne := (List.mem_filter.mp hrow).2
  simp only [entryKey, Prod.mk.injEq] at heq
  simp [heq.1, heq.2] at hne

/-- Entries that are put in one after another have keys of their own. -/
theorem nodup_putEntries (path : String) (entries : List SnapshotEntry) :
    ∀ {rows : List SnapshotRow}, (rows.map entryKey).Nodup →
      ((entries.foldl (putEntry path) rows).map entryKey).Nodup := by
  induction entries with
  | nil => intro rows h; exact h
  | cons e entries ih => intro rows h; exact ih (nodup_putEntry path h e)

/-- They are all of the one path, and the rest was there. -/
theorem mem_putEntries {path : String} {row : SnapshotRow} (entries : List SnapshotEntry) :
    ∀ {rows : List SnapshotRow}, row ∈ entries.foldl (putEntry path) rows →
      row ∈ rows ∨ row.path = path := by
  induction entries with
  | nil => intro rows h; exact .inl h
  | cons e entries ih =>
    intro rows h
    rcases ih h with h | h
    · rcases mem_putEntry.mp h with h | rfl
      · exact .inl h.1
      · exact .inr rfl
    · exact .inr h

/-- Entries of new keys, none of them twice, are put at the end as they stand. -/
theorem putEntries_of_new {path : String} {entries : List SnapshotEntry}
    (hnames : (entries.map (·.name)).Nodup) :
    ∀ {rows : List SnapshotRow}, (∀ row ∈ rows, ∀ e ∈ entries, entryKey row ≠ (path, e.name)) →
      entries.foldl (putEntry path) rows = rows ++ entries.map (SnapshotRow.mk path) := by
  induction entries with
  | nil => intro rows _; simp
  | cons e entries ih =>
    intro rows hnew
    rw [List.map_cons, List.nodup_cons] at hnames
    rw [List.foldl_cons, putEntry_of_new fun row hrow => hnew row hrow e List.mem_cons_self, ih hnames.2]
    · simp
    · intro row hrow other hother
      rcases List.mem_append.mp hrow with hrow | hrow
      · exact hnew row hrow other (List.mem_cons_of_mem _ hother)
      · -- the entry that was put in last has another name than those to come
        obtain rfl := List.mem_singleton.mp hrow
        intro heq
        have hname : e.name = other.name := (Prod.mk.inj heq).2
        exact hnames.1 (hname ▸ List.mem_map_of_mem hother)

/-- Entries that are put in for a path leave those of others as they are. -/
theorem filter_putEntries_of_ne {path other : String} (hne : other ≠ path) (entries : List SnapshotEntry) :
    ∀ rows : List SnapshotRow,
      (entries.foldl (putEntry path) rows).filter (·.path == other) = rows.filter (·.path == other) := by
  induction entries with
  | nil => intro rows; rfl
  | cons e entries ih =>
    intro rows
    rw [List.foldl_cons, ih, putEntry, List.filter_append, List.filter_filter]
    have hlast : [(⟨path, e⟩ : SnapshotRow)].filter (·.path == other) = [] := by simp [Ne.symm hne]
    rw [hlast, List.append_nil]
    refine List.filter_congr fun row _ => ?_
    by_cases hrow : row.path = other <;> simp [hrow, hne]

/-- Stores with the same marks and entries have the same snapshots. -/
theorem snapshot?_congr (hfiles : s'.snapshotFiles = s.snapshotFiles)
    (hentries : s'.snapshots = s.snapshots) (path : String) : s'.snapshot? path = s.snapshot? path := by
  unfold snapshot?
  rw [hfiles, hentries]

/-- The path of a replaced snapshot is marked as compared, and so is every path that was. -/
theorem mem_replaceSnapshot_files {path other : String} (entries : List SnapshotEntry) :
    other ∈ (s.replaceSnapshot path entries).snapshotFiles ↔ other ∈ s.snapshotFiles ∨ other = path := by
  unfold replaceSnapshot
  by_cases hpath : path ∈ s.snapshotFiles
  · simp only [List.contains_iff_mem, hpath, if_true]
    exact ⟨.inl, fun h => h.elim id fun heq => heq ▸ hpath⟩
  · simp [hpath]

end Store

end CodeIndex
