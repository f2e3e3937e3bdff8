import Mathlib
import CodeIndex.Proofs.Session.Checks
import CodeIndex.Proofs.Store.Connection
import CodeIndex.Proofs.Store.Tables

/-!
# Integrity of the store

A store is intact when its rows hang together: no key is used twice, and a row that belongs to
another finds that one. Every operation keeps a store intact, with arguments that make no sense just
as well, and also where it fails half-way. So whatever is asked of an empty store, inside
transactions or outside, leaves an intact one.

The numbers of deleted files are used again. What an intact store adds to that is the reason why no
harm is done: nothing that belonged to the old file is left when its number is free.

  Intact.upsertFile ... Intact.markStale   one lemma for each operation
  Intact.run                               one request, whatever it is
  intact_after_requests                    a list of requests on an empty store
-/

namespace CodeIndex

namespace Store

/-- The rows of a store hang together. -/
structure Intact (s : Store) : Prop where
  /-- No path has two rows. -/
  paths : (s.files.map (·.path)).Nodup
  /-- No two files have one number. -/
  ids : (s.files.map (·.id)).Nodup
  /-- A symbol belongs to a file. -/
  symbols : ∀ row ∈ s.symbols, s.hasFile row.fileId = true
  /-- A chunk belongs to a file. -/
  chunks : ∀ row ∈ s.chunks, s.hasFile row.fileId = true
  /-- No document has two chunks of one number. -/
  chunkNumbers : (s.chunks.map fun row => (row.fileId, row.chunk.index)).Nodup
  /-- An edge has a file at either end. -/
  edges : ∀ e ∈ s.edges, s.hasFile e.fromId = true ∧ s.hasFile e.toId = true
  /-- No edge is there twice; the symbol of an import of the whole file is the empty one. -/
  edgesOnce : s.edges.Nodup
  /-- No file is marked as compared twice. -/
  snapshotFiles : s.snapshotFiles.Nodup
  /-- An entry of a snapshot is of a file that is marked as compared. -/
  snapshots : ∀ row ∈ s.snapshots, row.path ∈ s.snapshotFiles
  /-- A snapshot has one entry for a name at most. -/
  snapshotNames : (s.snapshots.map entryKey).Nodup
  /-- An event belongs to a session. -/
  events : ∀ e ∈ s.events, s.hasSession e.sessionId = true
  /-- Events stand in the order of their numbers. -/
  eventOrder : (s.events.map (·.id)).Pairwise (· < ·)
  /-- An observation belongs to a session. -/
  observations : ∀ o ∈ s.observations, s.hasSession o.sessionId = true
  /-- Observations stand in the order of their numbers. -/
  observationOrder : (s.observations.map (·.id)).Pairwise (· < ·)
  /-- An observation is stale exactly if it has a reason to be. -/
  staleness : ∀ o ∈ s.observations, o.stale = true ↔ ∃ reason, o.staleReason = some reason

theorem intact_empty : empty.Intact where
  paths := List.nodup_nil
  ids := List.nodup_nil
  symbols := by simp [empty]
  chunks := by simp [empty]
  chunkNumbers := List.nodup_nil
  edges := by simp [empty]
  edgesOnce := List.nodup_nil
  snapshotFiles := List.nodup_nil
  snapshots := by simp [empty]
  snapshotNames := List.nodup_nil
  events := by simp [empty]
  eventOrder := List.Pairwise.nil
  observations := by simp [empty]
  observationOrder := List.Pairwise.nil
  staleness := by simp [empty]

namespace Intact

variable {s : Store}

/-! ## §1. Files. -/

theorem upsertFile (h : s.Intact) (info : FileInfo) : (s.upsertFile info).1.Intact := by
  -- a number in use stays in use, so that no row of another table loses its file
  have hfile : ∀ {id}, s.hasFile id = true → (s.upsertFile info).1.hasFile id = true :=
    Store.upsertFile_hasFile h.paths info
  have hpaths := upsertFile_paths s info
  have hids := upsertFile_ids h.paths info
  have hexisted := upsertFile_existed s info
  rw [upsertFile_frame] at hfile hpaths hids ⊢
  refine { h with
    paths := ?_, ids := ?_, symbols := fun r hr => hfile (h.symbols r hr),
    chunks := fun r hr => hfile (h.chunks r hr),
    edges := fun e he => ⟨hfile (h.edges e he).1, hfile (h.edges e he).2⟩ }
  · show ((s.upsertFile info).1.files.map (·.path)).Nodup
    rw [hpaths]
    cases hrow : s.file? info.path with
    | some f => simpa [hexisted, hrow] using h.paths
    | none =>
      simp only [hexisted, hrow, Option.isSome_none, Bool.false_eq_true, if_false]
      refine List.nodup_append.mpr ⟨h.paths, by simp, ?_⟩
      intro path hpath other hother
      obtain ⟨f, hf, rfl⟩ := List.mem_map.mp hpath
      obtain rfl := List.mem_singleton.mp hother
      exact file?_eq_none.mp hrow f hf
  · show ((s.upsertFile info).1.files.map (·.id)).Nodup
    rw [hids]
    cases hrow : s.file? info.path with
    | some f => simpa [hexisted, hrow] using h.ids
    | none =>
      -- a number may have been that of a deleted file, but none of a file that is there
      simp only [hexisted, hrow, Option.isSome_none, Bool.false_eq_true, if_false]
      rw [upsertFile_id_of_new hrow]
      refine List.nodup_append.mpr ⟨h.ids, by simp, ?_⟩
      intro id hid other hother heq
      obtain rfl := List.mem_singleton.mp hother
      exact nextId_notMem _ (heq ▸ hid)

/-- A number other than that of the deleted file stays in use. -/
theorem hasFile_of_ne (h : s.Intact) {path : String} {f : FileRow} (hrow : s.file? path = some f)
    {id : RowId} (hid : s.hasFile id = true) (hne : id ≠ f.id) :
    (s.files.filter (·.path != path)).any (·.id == id) = true := by
  obtain ⟨g, hg, rfl⟩ := hasFile_iff.mp hid
  obtain ⟨hf, hpath⟩ := file?_eq_some hrow
  have hgpath : g.path ≠ path := by
    intro heq
    exact hne (by rw [List.inj_on_of_nodup_map h.paths hg hf (heq.trans hpath.symm)])
  exact List.any_eq_true.mpr ⟨g, by simp [hg, hgpath], by simp⟩

theorem deleteFile (h : s.Intact) (path : String) : (s.deleteFile path).Intact := by
  cases hrow : s.file? path with
  | none => rw [deleteFile_of_noRow hrow]; exact h
  | some f =>
    rw [deleteFile_of_row hrow]
    refine { h with
      paths := h.paths.sublist (List.filter_sublist.map _)
      ids := h.ids.sublist (List.filter_sublist.map _)
      symbols := ?_, chunks := ?_, edges := ?_
      chunkNumbers := h.chunkNumbers.sublist (List.filter_sublist.map _)
      edgesOnce := h.edgesOnce.filter _ }
    -- what belongs to the deleted file is deleted with it, and the rest belongs to others
    · intro row hr
      obtain ⟨hmem, hne⟩ := List.mem_filter.mp hr
      exact h.hasFile_of_ne hrow (h.symbols row hmem) (by simpa using hne)
    · intro row hr
      obtain ⟨hmem, hne⟩ := List.mem_filter.mp hr
      exact h.hasFile_of_ne hrow (h.chunks row hmem) (by simpa using hne)
    · intro e he
      obtain ⟨hmem, hne⟩ := List.mem_filter.mp he
      simp only [Bool.and_eq_true, bne_iff_ne, ne_eq] at hne
      exact ⟨h.hasFile_of_ne hrow (h.edges e hmem).1 hne.1,
        h.hasFile_of_ne hrow (h.edges e hmem).2 hne.2⟩

/-! ## §2. What belongs to files. -/

/-- Taking symbols away leaves the rest as it is. -/
theorem filterSymbols (h : s.Intact) (keep : SymbolRow → Bool) :
    { s with symbols := s.symbols.filter keep }.Intact :=
  { h with symbols := fun row hr => h.symbols row (List.mem_of_mem_filter hr) }

theorem insertSymbol (h : s.Intact) {id : RowId} {symbol : Symbol} {s' : Store}
    (hok : s.insertSymbol id symbol = .ok s') : s'.Intact := by
  unfold Store.insertSymbol at hok
  split at hok
  next hfile =>
    injection hok with hok
    subst hok
    refine { h with symbols := ?_ }
    intro row hr
    rcases List.mem_append.mp hr with hr | hr
    · exact h.symbols row hr
    · obtain rfl := List.mem_singleton.mp hr
      exact hfile
  next => exact absurd hok (by simp)

theorem insertSymbols {id : RowId} (symbols : List Symbol) :
    ∀ {s s' : Store}, s.Intact →
      symbols.foldlM (fun s symbol => s.insertSymbol id symbol) s = .ok s' → s'.Intact := by
  induction symbols with
  | nil =>
    intro s s' h hok
    injection hok with hok
    exact hok ▸ h
  | cons symbol symbols ih =>
    intro s s' h hok
    rw [List.foldlM_cons] at hok
    cases hfirst : s.insertSymbol id symbol with
    | error e => rw [hfirst] at hok; exact absurd hok (by simp [bind, Except.bind])
    | ok mid =>
      rw [hfirst] at hok
      exact ih (h.insertSymbol hfirst) hok

theorem replaceSymbols (h : s.Intact) {id : RowId} {symbols : List Symbol} {s' : Store}
    (hok : s.replaceSymbols id symbols = .ok s') : s'.Intact :=
  insertSymbols symbols (h.filterSymbols _) hok

theorem filterChunks (h : s.Intact) (keep : ChunkRow → Bool) :
    { s with chunks := s.chunks.filter keep }.Intact :=
  { h with
    chunks := fun row hr => h.chunks row (List.mem_of_mem_filter hr)
    chunkNumbers := h.chunkNumbers.sublist (List.filter_sublist.map _) }

theorem insertChunk (h : s.Intact) {id : RowId} {chunk : Chunk} {s' : Store}
    (hok : s.insertChunk id chunk = .ok s') : s'.Intact := by
  unfold Store.insertChunk at hok
  split at hok
  next => exact absurd hok (by simp)
  next hnew =>
    split at hok
    next hfile =>
      injection hok with hok
      subst hok
      refine { h with chunks := ?_, chunkNumbers := ?_ }
      · intro row hr
        rcases List.mem_append.mp hr with hr | hr
        · exact h.chunks row hr
        · obtain rfl := List.mem_singleton.mp hr
          exact hfile
      · -- a chunk whose number the document has is refused before
        rw [List.map_append]
        refine List.nodup_append.mpr ⟨h.chunkNumbers, by simp, ?_⟩
        intro key hkey other hother heq
        obtain ⟨row, hr, rfl⟩ := List.mem_map.mp hkey
        obtain rfl := List.mem_singleton.mp hother
        simp only [Prod.mk.injEq] at heq
        exact hnew (List.any_eq_true.mpr ⟨row, hr, by simp [heq.1, heq.2]⟩)
    next => exact absurd hok (by simp)

/-- Chunks that were put in before one is refused do no harm. -/
theorem insertChunks {id : RowId} (chunks : List Chunk) :
    ∀ {s : Store}, s.Intact → (s.insertChunks id chunks).1.Intact := by
  induction chunks with
  | nil => intro s h; exact h
  | cons chunk chunks ih =>
    intro s h
    unfold Store.insertChunks
    split
    next s' hok => exact ih (h.insertChunk hok)
    next => exact h

theorem replaceChunks (h : s.Intact) (id : RowId) (chunks : List Chunk) :
    (s.replaceChunks id chunks).1.Intact :=
  insertChunks chunks (h.filterChunks _)

theorem clearEdges (h : s.Intact) (fromId : RowId) : (s.clearEdges fromId).1.Intact :=
  { h with
    edges := fun e he => h.edges e (List.mem_of_mem_filter he)
    edgesOnce := h.edgesOnce.filter _ }

theorem insertEdge (h : s.Intact) {fromId toId : RowId} {symbol : Option String} {s' : Store}
    {new : Bool} (hok : s.insertEdge fromId toId symbol = .ok (s', new)) : s'.Intact := by
  unfold Store.insertEdge at hok
  simp only at hok
  split at hok
  next =>
    injection hok with hok
    injection hok with hok
    exact hok ▸ h
  next hnew =>
    split at hok
    next hfiles =>
      injection hok with hok
      injection hok with hok
      subst hok
      refine { h with edges := ?_, edgesOnce := ?_ }
      · intro e he
        rcases List.mem_append.mp he with he | he
        · exact h.edges e he
        · obtain rfl := List.mem_singleton.mp he
          exact (Bool.and_eq_true _ _).mp hfiles
      · -- an edge that is there is not put in
        refine List.nodup_append.mpr ⟨h.edgesOnce, by simp, ?_⟩
        intro e he other hother heq
        obtain rfl := List.mem_singleton.mp hother
        exact hnew (List.contains_iff_mem.mpr (heq ▸ he))
    next => exact absurd hok (by simp)

/-! ## §3. Snapshots. -/

theorem replaceSnapshot (h : s.Intact) (path : String) (entries : List SnapshotEntry) :
    (s.replaceSnapshot path entries).Intact := by
  refine { h with snapshotFiles := ?_, snapshots := ?_, snapshotNames := ?_ }
  · show (if s.snapshotFiles.contains path then s.snapshotFiles
      else s.snapshotFiles ++ [path]).Nodup
    split
    next => exact h.snapshotFiles
    next hnew =>
      -- the path is marked only if it is not
      refine List.nodup_append.mpr ⟨h.snapshotFiles, by simp, ?_⟩
      intro other hother new hnew' heq
      obtain rfl := List.mem_singleton.mp hnew'
      exact hnew (List.contains_iff_mem.mpr (heq ▸ hother))
  · intro row hrow
    rw [mem_replaceSnapshot_files]
    rcases mem_putEntries entries hrow with hrow | hpath
    · exact .inl (h.snapshots row (List.mem_of_mem_filter hrow))
    · exact .inr hpath
  · exact nodup_putEntries path entries (h.snapshotNames.sublist (List.filter_sublist.map _))

theorem computeDiff (h : s.Intact) (path : String) (symbols : List Symbol) :
    (s.computeDiff path symbols).1.Intact := by
  unfold Store.computeDiff
  cases s.snapshot? path <;> exact h.replaceSnapshot path _

/-! ## §4. Sessions. -/

theorem createSession (h : s.Intact) (id : String) (mode : SessionMode) (label : Option String) :
    (s.createSession id mode label).1.Intact := by
  have hkeep : ∀ {other}, s.hasSession other = true →
      (s.createSession id mode label).1.hasSession other = true := by
    intro other hother
    simp only [Store.createSession, hasSession, List.any_append, Bool.or_eq_true] at hother ⊢
    exact .inl hother
  exact { h with
    events := fun e he => hkeep (h.events e he)
    observations := fun o ho => hkeep (h.observations o ho) }

theorem addTokens (h : s.Intact) (id : String) (tokens : Nat) : (s.addTokens id tokens).Intact := by
  have hkeep : ∀ other, (s.addTokens id tokens).hasSession other = s.hasSession other := by
    intro other
    simp only [Store.addTokens, hasSession, List.any_map]
    congr 1
    funext row
    by_cases hrow : row.id = id <;> simp [hrow]
  exact { h with
    events := fun e he => (hkeep _).trans (h.events e he)
    observations := fun o ho => (hkeep _).trans (h.observations o ho) }

theorem insertEvent (h : s.Intact) {session : String} {event : NewEvent} {time : Time} {s' : Store}
    {id : RowId} (hok : s.insertEvent session event time = .ok (s', id)) : s'.Intact := by
  unfold Store.insertEvent at hok
  split at hok
  next hsession =>
    simp only [Except.ok.injEq, Prod.mk.injEq] at hok
    obtain ⟨rfl, rfl⟩ := hok
    refine { h with events := ?_, eventOrder := ?_ }
    · intro e he
      rcases List.mem_append.mp he with he | he
      · exact h.events e he
      · obtain rfl := List.mem_singleton.mp he
        exact hsession
    · rw [List.map_append]
      refine List.pairwise_append.mpr ⟨h.eventOrder, by simp, ?_⟩
      intro id hid other hother
      obtain rfl := List.mem_singleton.mp hother
      exact lt_nextId hid
  next => exact absurd hok (by simp)

theorem insertObservation (h : s.Intact) {session : String} {observation : NewObservation}
    {time : Time} {s' : Store} {id : RowId}
    (hok : s.insertObservation session observation time = .ok (s', id)) : s'.Intact := by
  unfold Store.insertObservation at hok
  split at hok
  next hsession =>
    simp only [Except.ok.injEq, Prod.mk.injEq] at hok
    obtain ⟨rfl, rfl⟩ := hok
    refine { h with observations := ?_, observationOrder := ?_, staleness := ?_ }
    · intro o ho
      rcases List.mem_append.mp ho with ho | ho
      · exact h.observations o ho
      · obtain rfl := List.mem_singleton.mp ho
        exact hsession
    · rw [List.map_append]
      refine List.pairwise_append.mpr ⟨h.observationOrder, by simp, ?_⟩
      intro id hid other hother
      obtain rfl := List.mem_singleton.mp hother
      exact lt_nextId hid
    · -- a new observation holds, and has no reason not to
      intro o ho
      rcases List.mem_append.mp ho with ho | ho
      · exact h.staleness o ho
      · obtain rfl := List.mem_singleton.mp ho
        simp
  next => exact absurd hok (by simp)

theorem markStale (h : s.Intact) (file : String) (symbol : Option String) (reason : String) :
    (s.markStale file symbol reason).1.Intact := by
  refine { h with observations := ?_, observationOrder := ?_, staleness := ?_ }
  · intro o ho
    obtain ⟨old, hold, rfl⟩ := List.mem_map.mp ho
    have hsession : (if isFreshAbout file symbol old then old.marked reason else old).sessionId
        = old.sessionId := by split <;> rfl
    rw [hsession]
    exact h.observations old hold
  · have hids : (s.markStale file symbol reason).1.observations.map (·.id)
        = s.observations.map (·.id) := by
      simp only [Store.markStale, List.map_map]
      refine List.map_congr_left fun o _ => ?_
      show (if isFreshAbout file symbol o then o.marked reason else o).id = o.id
      split <;> rfl
    rw [hids]
    exact h.observationOrder
  · -- the mark and the reason are set together, or both stay
    intro o ho
    obtain ⟨old, hold, rfl⟩ := List.mem_map.mp ho
    split
    · simp [ObservationRow.marked]
    · exact h.staleness old hold

end Intact

end Store

open Store

/-! ## §5. Requests. -/

/-- Whatever a check comes to, a store that it leaves is intact. -/
theorem CheckOutcome.intact {s s' : Store} {session : String} {now : Time} {fired : Bool}
    (h : s.Intact) (hout : CheckOutcome s session now (.ok (s', fired))) : s'.Intact := by
  cases hout with
  | quiet => exact h
  | report logged recorded => exact (h.insertEvent logged).insertObservation recorded
  | note recorded => exact h.insertObservation recorded

namespace Request

theorem intact_checked {s : Store} {session : String} {now : Time} (h : s.Intact)
    {result : Except CheckError (Store × Bool)} (hout : CheckOutcome s session now result) :
    (checked s result).1.Intact := by
  cases result with
  -- a check that fails is answered with the store from before it
  | error e => cases e <;> exact h
  | ok done => exact hout.intact h

/-- An operation that may be refused keeps the store intact if it does where it is not refused. -/
theorem intact_attempted {α : Type} {s : Store} (h : s.Intact) {result : Except StoreError α}
    {show_ : α → Store × Json} (hok : ∀ a, result = .ok a → (show_ a).1.Intact) :
    (attempted s (result.map show_)).1.Intact := by
  cases result with
  | error e => exact h
  | ok a => exact hok a rfl

theorem intact_runSimple (t : Thresholds) (nested : Bool) {s : Store} (h : s.Intact)
    (request : Request) : (runSimple t nested s request).1.Intact := by
  cases request with
  | upsertFile info => exact h.upsertFile info
  | deleteFile path => exact h.deleteFile path
  | replaceSymbols id symbols =>
    exact intact_attempted h fun s' hok => h.replaceSymbols hok
  | replaceChunks id chunks =>
    have hkept := h.replaceChunks id chunks
    simp only [runSimple]
    split
    next s' hres => rw [hres] at hkept; exact hkept
    next s' e hres => rw [hres] at hkept; exact hkept
  | insertEdge fromId toId symbol =>
    exact intact_attempted h fun r hok => h.insertEdge hok
  | clearEdges fromId => exact h.clearEdges fromId
  | replaceSnapshot path entries => exact h.replaceSnapshot path entries
  | computeDiff path symbols => exact h.computeDiff path symbols
  | getSession session => exact intact_attempted h fun _ _ => h
  | listSessions limit => exact intact_attempted h fun _ _ => h
  | events session => exact intact_attempted h fun _ _ => h
  | addTokens session tokens => exact h.addTokens session tokens
  | insertEvent session event time =>
    exact intact_attempted h fun r hok => h.insertEvent hok
  | insertObservation session observation time =>
    exact intact_attempted h fun r hok => h.insertObservation hok
  | markStale file symbol reason => exact h.markStale file symbol reason
  | checkDeadEnd session file symbol now =>
    exact intact_checked h (checkDeadEnd_outcome s session now nested file symbol)
  | checkThrash session file now =>
    exact intact_checked h (checkThrash_outcome s session now t nested file)
  | checkRedundantAccess session file symbol count now =>
    exact intact_checked h (checkRedundantAccess_outcome s session now t nested file symbol _)
  | checkFailedSearch session query count now =>
    exact intact_checked h (checkFailedSearch_outcome s session now t nested query _)
  | checkToolErrors session tool file count now =>
    exact intact_checked h (checkToolErrors_outcome s session now t tool file _)
  -- everything else only asks
  | _ => exact h

/-- **Every request keeps the store intact.** -/
theorem does_intact (t : Thresholds) : Does t (fun _ => True) fun s s' => s.Intact → s'.Intact where
  nothing _ h := h
  both first second h := second (first h)
  create _ id mode label h := h.createSession id mode label
  simple nested _ request _ _ h := intact_runSimple t nested h request
  body _ _ _ _ := trivial

/-- One request keeps the store intact, inside a transaction or outside. -/
theorem intact_run (t : Thresholds) (nested : Bool) (state : Request.State)
    (h : state.store.Intact) (request : Request) :
    (run t nested state request).1.store.Intact := (does_intact t).run nested state request trivial h

/-- So do requests one after another. -/
theorem intact_runAll (t : Thresholds) (nested : Bool) (state : Request.State)
    (h : state.store.Intact) (requests : List Request) :
    (runAll t nested state requests).1.store.Intact :=
  (does_intact t).runAll nested state requests (fun _ _ => trivial) h

end Request

/-! ## §6. What an intact store comes to. -/

namespace Store.Intact

variable {s : Store}

/-- An import that is there is not put in again, whether its empty symbol is given or left out. -/
theorem insertEdge_again {e : EdgeRow} (he : e ∈ s.edges) {symbol : Option String}
    (hsymbol : symbol.getD "" = e.symbol) :
    s.insertEdge e.fromId e.toId symbol = .ok (s, false) := by
  unfold Store.insertEdge
  simp only [hsymbol]
  rw [if_pos (List.contains_iff_mem.mpr he)]

/-- An entry is found in the snapshot of its file. -/
theorem snapshot?_of_mem (h : s.Intact) {row : SnapshotRow} (hrow : row ∈ s.snapshots) :
    ∃ entries, s.snapshot? row.path = some entries ∧ row.entry ∈ entries := by
  have hmarked : s.snapshotFiles.contains row.path = true :=
    List.contains_iff_mem.mpr (h.snapshots row hrow)
  refine ⟨_, if_pos hmarked, ?_⟩
  rw [List.mem_mergeSort]
  exact List.mem_map.mpr ⟨row, List.mem_filter.mpr ⟨hrow, by simp⟩, rfl⟩

/-- The rows whose file has a path are those that carry the number of the path's row. -/
theorem fileById?_path (h : s.Intact) {path : String} {f : FileRow} (hrow : s.file? path = some f)
    (id : RowId) : ((s.fileById? id).any fun g => g.path == path) = (id == f.id) := by
  obtain ⟨hf, hpath⟩ := file?_eq_some hrow
  by_cases hid : id = f.id
  · subst hid
    rw [fileById?_of_mem h.ids hf]
    simp [hpath]
  · have hother : ∀ g, s.fileById? id = some g → g.path ≠ path := by
      intro g hg heq
      have hmem := List.mem_of_find?_eq_some hg
      have hgid : g.id = id := by simpa using List.find?_some hg
      have hgf : g = f := List.inj_on_of_nodup_map h.paths hmem hf (heq.trans hpath.symm)
      exact hid (by rw [← hgid, hgf])
    cases hg : s.fileById? id with
    | none => simp [hid]
    | some g => simp [hid, hother g hg]

/-- Of rows that belong to files, those of one path are the ones that carry its number. -/
theorem records_of_row {ρ κ τ : Type} (h : s.Intact) {path : String} {f : FileRow}
    (hrow : s.file? path = some f) (owner : ρ → RowId) (value : ρ → κ) (record : String → κ → τ)
    (pathOf : τ → String) (hrecord : ∀ p k, pathOf (record p k) = p) (rows : List ρ) :
    (rows.filterMap fun row => (s.fileById? (owner row)).map fun g => record g.path (value row)).filter
        (fun r => pathOf r == path)
      = ((rows.filter fun row => owner row == f.id).map value).map (record path) := by
  rw [List.filter_filterMap, List.map_map, ← List.filterMap_eq_map, List.filterMap_filter]
  refine List.filterMap_congr fun row _ => ?_
  have hany := h.fileById?_path hrow (owner row)
  cases hg : s.fileById? (owner row) with
  | none => rw [hg] at hany; simp [← hany]
  | some g =>
    rw [hg] at hany
    by_cases hpath : g.path = path
    · simp [hpath] at hany; simp [hpath, hany, hrecord]
    · simp [hpath] at hany; simp [hpath, hany, hrecord]

/-- Of rows that belong to files, none is of a path without a row. -/
theorem records_of_noRow {ρ κ τ : Type} {path : String} (hrow : s.file? path = none)
    (owner : ρ → RowId) (value : ρ → κ) (record : String → κ → τ)
    (pathOf : τ → String) (hrecord : ∀ p k, pathOf (record p k) = p) (rows : List ρ) :
    (rows.filterMap fun row => (s.fileById? (owner row)).map fun g => record g.path (value row)).filter
        (fun r => pathOf r == path) = [] := by
  rw [List.filter_eq_nil_iff]
  intro r hr
  obtain ⟨row, -, hsome⟩ := List.mem_filterMap.mp hr
  obtain ⟨g, hg, rfl⟩ := Option.map_eq_some_iff.mp hsome
  have hne := file?_eq_none.mp hrow g (List.mem_of_find?_eq_some hg)
  simpa [hrecord] using hne

/-- The symbols of a path are those that carry the number of its row. -/
theorem symbolsFor_of_row (h : s.Intact) {path : String} {f : FileRow}
    (hrow : s.file? path = some f) :
    s.symbolsFor path = ((s.ownSymbols f.id).map (SymbolRecord.mk path)).mergeSort fun a b =>
      let (x, y) := (signed64 a.symbol.startLine, signed64 b.symbol.startLine)
      x < y || (x == y && a.symbol.name ≤ b.symbol.name) := by
  have hrecords := h.records_of_row hrow (·.fileId) SymbolRow.symbol SymbolRecord.mk
    SymbolRecord.path (fun _ _ => rfl) s.symbols
  unfold symbolsFor
  show List.mergeSort ((s.symbols.filterMap s.symbolRecord?).filter _) _ = _
  unfold symbolRecord?
  rw [hrecords]
  rfl

theorem symbolsFor_of_noRow {path : String} (hrow : s.file? path = none) :
    s.symbolsFor path = [] := by
  have hrecords := records_of_noRow hrow (·.fileId) SymbolRow.symbol SymbolRecord.mk
    SymbolRecord.path (fun _ _ => rfl) s.symbols
  unfold symbolsFor
  show List.mergeSort ((s.symbols.filterMap s.symbolRecord?).filter _) _ = []
  unfold symbolRecord?
  rw [hrecords, List.mergeSort_nil]

/-- The chunks of a path are those that carry the number of its row. -/
theorem chunksFor_of_row (h : s.Intact) {path : String} {f : FileRow}
    (hrow : s.file? path = some f) :
    s.chunksFor path = (s.ownChunks f.id).mergeSort fun a b => signed64 a.index ≤ signed64 b.index := by
  have hrecords := h.records_of_row hrow (·.fileId) ChunkRow.chunk ChunkRecord.mk
    ChunkRecord.path (fun _ _ => rfl) s.chunks
  unfold chunksFor
  show List.mergeSort (((s.chunks.filterMap s.chunkRecord?).filter _).map _) _ = _
  unfold chunkRecord?
  rw [hrecords, List.map_map]
  simp [ownChunks, Function.comp_def]

theorem chunksFor_of_noRow {path : String} (hrow : s.file? path = none) :
    s.chunksFor path = [] := by
  have hrecords := records_of_noRow hrow (·.fileId) ChunkRow.chunk ChunkRecord.mk
    ChunkRecord.path (fun _ _ => rfl) s.chunks
  unfold chunksFor
  show List.mergeSort (((s.chunks.filterMap s.chunkRecord?).filter _).map _) _ = []
  unfold chunkRecord?
  rw [hrecords, List.map_nil, List.mergeSort_nil]

/-- The symbol that an edge shows; an import of the whole file shows none. -/
def shownSymbol (symbol : String) : Option String := if symbol.isEmpty then none else some symbol

theorem edge?_eq_some {row : EdgeRow} {e : Edge} (h : s.edge? row = some e) :
    ∃ f ∈ s.files, ∃ g ∈ s.files, f.id = row.fromId ∧ g.id = row.toId ∧
      e = ⟨f.path, g.path, shownSymbol row.symbol⟩ := by
  unfold edge? at h
  obtain ⟨f, hf, h⟩ := Option.bind_eq_some_iff.mp h
  obtain ⟨g, hg, h⟩ := Option.bind_eq_some_iff.mp h
  injection h with h
  exact ⟨f, List.mem_of_find?_eq_some hf, g, List.mem_of_find?_eq_some hg,
    by simpa using List.find?_some hf, by simpa using List.find?_some hg, h.symm⟩

theorem mem_allEdges {e : Edge} : e ∈ s.allEdges ↔ ∃ row ∈ s.edges, s.edge? row = some e := by
  unfold allEdges sortEdges
  rw [List.mem_mergeSort, List.mem_filterMap]

/-- A path whose number is at no edge makes no import, and none is made of it. -/
theorem edges_of_unused (h : s.Intact) {path : String} {f : FileRow} (hrow : s.file? path = some f)
    (hunused : ∀ e ∈ s.edges, e.fromId ≠ f.id ∧ e.toId ≠ f.id) :
    s.dependenciesOf path = [] ∧ s.importedBy path = [] := by
  obtain ⟨hf, hpath⟩ := file?_eq_some hrow
  unfold dependenciesOf importedBy
  rw [List.filter_eq_nil_iff, List.filter_eq_nil_iff]
  constructor
  · intro e he hsource
    obtain ⟨row, hmem, hedge⟩ := mem_allEdges.mp he
    obtain ⟨g, hg, target, _, hgid, _, rfl⟩ := edge?_eq_some hedge
    have hgf : g = f := List.inj_on_of_nodup_map h.paths hg hf
      ((by simpa using hsource : g.path = path).trans hpath.symm)
    exact (hunused row hmem).1 (by rw [← hgid, hgf])
  · intro e he htarget
    obtain ⟨row, hmem, hedge⟩ := mem_allEdges.mp he
    obtain ⟨source, _, g, hg, _, hgid, rfl⟩ := edge?_eq_some hedge
    have hgf : g = f := List.inj_on_of_nodup_map h.paths hg hf
      ((by simpa using htarget : g.path = path).trans hpath.symm)
    exact (hunused row hmem).2 (by rw [← hgid, hgf])

/-- No row belongs to the number that a new path gets, although it may have been that of a deleted
file. -/
theorem unused_of_new (h : s.Intact) {info : FileInfo} (hnew : s.file? info.path = none) :
    s.ownSymbols (s.upsertFile info).2.1 = [] ∧ s.ownChunks (s.upsertFile info).2.1 = []
      ∧ ∀ e ∈ s.edges, e.fromId ≠ (s.upsertFile info).2.1 ∧ e.toId ≠ (s.upsertFile info).2.1 := by
  -- a row that carried the number would belong to a file that is not there
  have hunused : ∀ {id}, s.hasFile id = true → id ≠ (s.upsertFile info).2.1 := by
    intro id hid heq
    rw [heq, upsertFile_id_of_new hnew, nextId_unused] at hid
    exact absurd hid (by simp)
  refine ⟨?_, ?_, fun e he => ⟨hunused (h.edges e he).1, hunused (h.edges e he).2⟩⟩
  · simp only [ownSymbols, List.map_eq_nil_iff, List.filter_eq_nil_iff, beq_iff_eq]
    exact fun row hr => hunused (h.symbols row hr)
  · simp only [ownChunks, List.map_eq_nil_iff, List.filter_eq_nil_iff, beq_iff_eq]
    exact fun row hr => hunused (h.chunks row hr)

/-- **A path that gets a row for the first time starts with nothing.** -/
theorem upsertFile_new (h : s.Intact) {info : FileInfo} (hnew : s.file? info.path = none) :
    (s.upsertFile info).1.symbolsFor info.path = [] ∧
      (s.upsertFile info).1.chunksFor info.path = [] ∧
      (s.upsertFile info).1.dependenciesOf info.path = [] ∧
      (s.upsertFile info).1.importedBy info.path = [] := by
  have hrow := upsertFile_file?_self s info
  have hintact := h.upsertFile info
  -- only the table of files has been written, and nothing in the others has the number
  obtain ⟨hsymbols, hchunks, hedges⟩ : (s.upsertFile info).1.ownSymbols (s.upsertFile info).2.1 = []
      ∧ (s.upsertFile info).1.ownChunks (s.upsertFile info).2.1 = []
      ∧ ∀ e ∈ (s.upsertFile info).1.edges,
        e.fromId ≠ (s.upsertFile info).2.1 ∧ e.toId ≠ (s.upsertFile info).2.1 := by
    rw [upsertFile_frame]
    exact h.unused_of_new hnew
  refine ⟨?_, ?_, hintact.edges_of_unused hrow hedges⟩
  · rw [hintact.symbolsFor_of_row hrow, hsymbols, List.map_nil, List.mergeSort_nil]
  · rw [hintact.chunksFor_of_row hrow, hchunks, List.mergeSort_nil]

end Store.Intact

/-! ## §7. The theorem. -/

/-- **The store hangs together, whatever is asked of it.** After any requests to an empty store,
those that fail and those in transactions included, the store is intact. An import that is there is
not put in again, with its empty symbol left out or not; an entry of a snapshot is of a file that is
marked as compared, and found there; an observation is stale exactly if it has a reason to be; and a
path that gets its row now starts with nothing. -/
theorem store_intact_after_any_requests (t : Thresholds) (requests : List Request) :
    let s := (Request.runAll t false ⟨.empty, 0⟩ requests).1.store
    s.Intact ∧
      (∀ e ∈ s.edges, ∀ symbol : Option String, symbol.getD "" = e.symbol →
        s.insertEdge e.fromId e.toId symbol = .ok (s, false)) ∧
      (∀ row ∈ s.snapshots, row.path ∈ s.snapshotFiles ∧
        ∃ entries, s.snapshot? row.path = some entries ∧ row.entry ∈ entries) ∧
      (∀ o ∈ s.observations, o.stale = true ↔ ∃ reason, o.staleReason = some reason) ∧
      ∀ info : FileInfo, s.file? info.path = none →
        (s.upsertFile info).1.symbolsFor info.path = [] ∧
          (s.upsertFile info).1.chunksFor info.path = [] ∧
          (s.upsertFile info).1.dependenciesOf info.path = [] ∧
          (s.upsertFile info).1.importedBy info.path = [] := by
  intro s
  have h : s.Intact := Request.intact_runAll t false ⟨.empty, 0⟩ intact_empty requests
  refine ⟨h, ?_, ?_, ?_, fun info hnew => h.upsertFile_new hnew⟩
  · exact fun e he symbol hsymbol => Intact.insertEdge_again he hsymbol
  · exact fun row hrow => ⟨h.snapshots row hrow, h.snapshot?_of_mem hrow⟩
  · exact fun o ho => h.staleness o ho

/-- A file with a symbol and an import of itself, deleted again; a symbol for a file that is not
there; and a transaction that is given up. -/
def reuseRequests : List Request :=
  [.upsertFile ⟨"a.ts", "typescript", "h", 1, 1, .code⟩,
    .replaceSymbols 1 [⟨"f", .function, "function f()", 1, 1, true⟩],
    .insertEdge 1 1 none,
    .replaceSymbols 7 [⟨"g", .function, "function g()", 1, 1, true⟩],
    .deleteFile "a.ts",
    .transaction [.upsertFile ⟨"c.ts", "typescript", "h", 1, 1, .code⟩] true]

theorem store_intact_after_reuse :
    let s := (Request.runAll .default false ⟨.empty, 0⟩ reuseRequests).1.store
    let info : FileInfo := ⟨"b.ts", "typescript", "h", 1, 1, .code⟩
    s.file? info.path = none ∧ (s.upsertFile info).2.1 = 1 ∧
      (s.upsertFile info).1.symbolsFor info.path = [] ∧
      (s.upsertFile info).1.chunksFor info.path = [] ∧
      (s.upsertFile info).1.dependenciesOf info.path = [] ∧
      (s.upsertFile info).1.importedBy info.path = [] := by
  intro s info
  have hnew : s.file? info.path = none := by decide
  exact ⟨hnew, by decide,
    (store_intact_after_any_requests .default reuseRequests).2.2.2.2 info hnew⟩

end CodeIndex
