import Mathlib
import CodeIndex.Proofs.Store.Integrity

/-!
# What a comparison leaves and reports

A comparison takes a new snapshot of one path and reports what happened to each name since the old
one. The new snapshot has the first declaration of each name, in the order of the names, and the
snapshots of other paths stay.

Main results:
  * `computeDiff_snapshot?_self`, `computeDiff_snapshot?_of_ne` — the snapshots after a comparison;
  * `replay_changesBetween` — the changes reported of one name lead from its presence in the old
    snapshot to its presence in the new one: a name that is there can only go or change, and one that
    is not can only come.
-/

namespace CodeIndex

/-! ## §1. First declarations. -/

theorem sortedKeys_firstDeclarations (symbols : List Symbol) :
    SortedKeys (firstDeclarations symbols) := by
  induction symbols with
  | nil => exact List.Pairwise.nil
  | cons symbol rest ih => exact sortedKeys_insertSorted symbol.name symbol ih

theorem name_of_mem_firstDeclarations {symbols : List Symbol} :
    ∀ entry ∈ firstDeclarations symbols, entry.2.name = entry.1 := by
  induction symbols with
  | nil => intro entry h; exact absurd h (by simp [firstDeclarations])
  | cons symbol rest ih =>
    intro entry h
    rcases mem_insertSorted h with rfl | h
    · rfl
    · exact ih entry h

/-! ## §2. Snapshots. -/

/-- The snapshot of a file with these symbols. -/
def snapshotOf (symbols : List Symbol) : List SnapshotEntry :=
  (firstDeclarations symbols).map fun entry => .ofSymbol entry.2

theorem snapshotOf_names (symbols : List Symbol) :
    (snapshotOf symbols).map (·.name) = (firstDeclarations symbols).map (·.1) := by
  unfold snapshotOf
  rw [List.map_map]
  exact List.map_congr_left name_of_mem_firstDeclarations

/-- What a comparison with a snapshot reports. -/
def comparison (previous : Option (List SnapshotEntry)) (path : String) (symbols : List Symbol) :
    FileDiff :=
  match previous with
  | none => ⟨path, true, []⟩
  | some previous => ⟨path, false, changesBetween previous (firstDeclarations symbols)⟩

theorem comparison_path (previous : Option (List SnapshotEntry)) (path : String)
    (symbols : List Symbol) : (comparison previous path symbols).path = path := by
  cases previous <;> rfl

/-- A first reading has no changes. -/
theorem comparison_first (previous : Option (List SnapshotEntry)) (path : String)
    (symbols : List Symbol) (h : (comparison previous path symbols).isFirst = true) :
    (comparison previous path symbols).changes = [] := by
  cases previous with
  | none => rfl
  | some previous => exact absurd h (by simp [comparison])

/-- What may happen to the snapshot of a file, and the changes that are found. -/
inductive Reread : Option (List SnapshotEntry) → Option (List SnapshotEntry) → List SymbolChange → Prop
    where
  /-- The file is not compared. -/
  | same (snapshot : Option (List SnapshotEntry)) : Reread snapshot snapshot []
  /-- The file is read for the first time. -/
  | first (symbols : List Symbol) : Reread none (some (snapshotOf symbols)) []
  /-- The file is compared with its snapshot. -/
  | compared (previous : List SnapshotEntry) (symbols : List Symbol) :
      Reread (some previous) (some (snapshotOf symbols))
        (changesBetween previous (firstDeclarations symbols))

theorem Reread.of_comparison (previous : Option (List SnapshotEntry)) (path : String)
    (symbols : List Symbol) :
    Reread previous (some (snapshotOf symbols)) (comparison previous path symbols).changes := by
  cases previous with
  | none => exact .first symbols
  | some previous => exact .compared previous symbols

namespace Store

theorem replaceSnapshot_snapshot?_of_ne (s : Store) {path other : String} (hne : other ≠ path)
    (entries : List SnapshotEntry) :
    (s.replaceSnapshot path entries).snapshot? other = s.snapshot? other := by
  -- the other path is marked if it was, and its entries are those it had
  have hmarked : (s.replaceSnapshot path entries).snapshotFiles.contains other
      = s.snapshotFiles.contains other := by
    rw [Bool.eq_iff_iff, List.contains_iff_mem, List.contains_iff_mem, mem_replaceSnapshot_files]
    exact ⟨fun h => h.elim id fun heq => absurd heq hne, .inl⟩
  have hrows : (s.replaceSnapshot path entries).snapshots.filter (·.path == other)
      = s.snapshots.filter (·.path == other) := by
    unfold replaceSnapshot
    rw [filter_putEntries_of_ne hne, List.filter_filter]
    refine List.filter_congr fun row _ => ?_
    by_cases hrow : row.path = other <;> simp [hrow, hne]
  unfold snapshot?
  rw [hmarked, hrows]

/-- Entries in the order of their names are the snapshot that they are put in as. -/
theorem replaceSnapshot_snapshot?_self (s : Store) (path : String) {entries : List SnapshotEntry}
    (hsorted : (entries.map (·.name)).Pairwise (· < ·)) :
    (s.replaceSnapshot path entries).snapshot? path = some entries := by
  have hmarked : (s.replaceSnapshot path entries).snapshotFiles.contains path = true :=
    List.contains_iff_mem.mpr ((mem_replaceSnapshot_files entries).mpr (.inr rfl))
  -- what the path had is gone before they are put in
  have hother : ∀ row ∈ s.snapshots.filter (·.path != path), row.path ≠ path := by
    intro row hrow
    simpa using (List.mem_filter.mp hrow).2
  have hput : (s.replaceSnapshot path entries).snapshots
      = s.snapshots.filter (·.path != path) ++ entries.map (SnapshotRow.mk path) :=
    putEntries_of_new (hsorted.imp ne_of_lt) fun row hrow e _ heq =>
      hother row hrow (Prod.mk.inj heq).1
  have hrows : (s.replaceSnapshot path entries).snapshots.filter (·.path == path)
      = entries.map (SnapshotRow.mk path) := by
    have hnone : (s.snapshots.filter (·.path != path)).filter (·.path == path) = [] := by
      rw [List.filter_eq_nil_iff]
      intro row hrow
      simpa using hother row hrow
    rw [hput, List.filter_append, hnone, List.nil_append]
    exact List.filter_eq_self.mpr fun row hrow => by
      obtain ⟨e, -, rfl⟩ := List.mem_map.mp hrow
      simp
  have hentries : (entries.map (SnapshotRow.mk path)).map (·.entry) = entries := by
    rw [List.map_map]
    exact List.map_id _
  unfold snapshot?
  rw [if_pos hmarked, hrows, hentries]
  refine congrArg some (List.mergeSort_of_pairwise ?_)
  exact (List.pairwise_map.mp hsorted).imp fun hlt => decide_eq_true (le_of_lt hlt)

theorem computeDiff_fst (s : Store) (path : String) (symbols : List Symbol) :
    (s.computeDiff path symbols).1 = s.replaceSnapshot path (snapshotOf symbols) := by
  unfold computeDiff
  cases s.snapshot? path <;> rfl

theorem computeDiff_snd (s : Store) (path : String) (symbols : List Symbol) :
    (s.computeDiff path symbols).2 = comparison (s.snapshot? path) path symbols := by
  unfold computeDiff
  cases s.snapshot? path <;> rfl

/-- A comparison writes the two tables of snapshots only. -/
theorem computeDiff_frame (s : Store) (path : String) (symbols : List Symbol) :
    (s.computeDiff path symbols).1
      = { s with
          snapshotFiles := (s.computeDiff path symbols).1.snapshotFiles
          snapshots := (s.computeDiff path symbols).1.snapshots } := by
  rw [computeDiff_fst]
  rfl

theorem computeDiff_snapshot?_self (s : Store) (path : String) (symbols : List Symbol) :
    (s.computeDiff path symbols).1.snapshot? path = some (snapshotOf symbols) := by
  have hsorted : ((snapshotOf symbols).map (·.name)).Pairwise (· < ·) := by
    rw [snapshotOf_names]
    exact sortedKeys_firstDeclarations symbols
  rw [computeDiff_fst, replaceSnapshot_snapshot?_self s path hsorted]

theorem computeDiff_snapshot?_of_ne (s : Store) {path other : String} (hne : other ≠ path)
    (symbols : List Symbol) :
    (s.computeDiff path symbols).1.snapshot? other = s.snapshot? other := by
  rw [computeDiff_fst, replaceSnapshot_snapshot?_of_ne s hne]

/-- The names in a snapshot do not repeat. -/
theorem Intact.snapshot?_names {s : Store} (h : s.Intact) {path : String}
    {entries : List SnapshotEntry} (hsnapshot : s.snapshot? path = some entries) :
    (entries.map (·.name)).Nodup := by
  -- entries of one path are told apart by their names
  have hnames : (((s.snapshots.filter (·.path == path)).map (·.entry)).map (·.name)).Nodup := by
    have hkeys : ((s.snapshots.filter (·.path == path)).map entryKey).Nodup :=
      h.snapshotNames.sublist (List.filter_sublist.map _)
    have hpath : ∀ row ∈ s.snapshots.filter (·.path == path), row.path = path := by
      intro row hrow
      simpa using (List.mem_filter.mp hrow).2
    rw [List.map_map]
    refine List.pairwise_map.mpr ((List.pairwise_map.mp hkeys).imp_of_mem fun ha hb hne heq => ?_)
    exact hne (Prod.ext ((hpath _ ha).trans (hpath _ hb).symm) heq)
  unfold snapshot? at hsnapshot
  split at hsnapshot
  next =>
    injection hsnapshot with hsnapshot
    rw [← hsnapshot]
    exact ((List.mergeSort_perm _ _).map _).nodup_iff.mpr hnames
  next => exact absurd hsnapshot (by simp)

/-- A snapshot is in the order of its names. -/
theorem Intact.snapshot?_sorted {s : Store} (h : s.Intact) {path : String}
    {entries : List SnapshotEntry} (hsnapshot : s.snapshot? path = some entries) :
    (entries.map (·.name)).Pairwise (· < ·) := by
  have hle : (entries.map (·.name)).Pairwise (· ≤ ·) := by
    unfold snapshot? at hsnapshot
    split at hsnapshot
    next =>
      injection hsnapshot with hsnapshot
      have hmerge := @List.pairwise_mergeSort _ (fun a b : SnapshotEntry => decide (a.name ≤ b.name))
        (fun a b c hab hbc => decide_eq_true ((of_decide_eq_true hab).trans (of_decide_eq_true hbc)))
        (fun a b => by simpa using le_total a.name b.name)
        ((s.snapshots.filter (·.path == path)).map (·.entry))
      rw [← hsnapshot, List.pairwise_map]
      exact hmerge.imp of_decide_eq_true
    next => exact absurd hsnapshot (by simp)
  exact (hle.and (h.snapshot?_names hsnapshot)).imp fun hboth => lt_of_le_of_ne hboth.1 hboth.2

end Store

/-! ## §3. The changes of one name. -/

/-- What a list of changes says of one name. -/
def changesOf (name : String) (changes : List SymbolChange) : List ChangeKind :=
  (changes.filter (·.symbol == name)).map (·.kind)

/-- Whether a name is there after the changes of it, given whether it was there before; `none` if a
change cannot have happened: a name came that was there, or one went or changed that was not. -/
def replay : Bool → List ChangeKind → Option Bool
  | present, [] => some present
  | false, .added :: rest => replay true rest
  | true, .removed :: rest => replay false rest
  | true, .sigChanged :: rest => replay true rest
  | _, _ => none

theorem replay_append (before after : List ChangeKind) :
    ∀ present : Bool, replay present (before ++ after) = (replay present before).bind (replay · after) := by
  induction before with
  | nil => intro present; rfl
  | cons kind rest ih =>
    intro present
    -- a change that cannot have happened ends both sides
    cases present <;> cases kind <;> first | exact ih _ | rfl

/-- Of rows told apart by a key, the results with that key are those of one row. -/
theorem filter_filterMap_key {α β : Type} {rows : List α} {key : α → String} {keyOf : β → String}
    {f : α → Option β} (hnodup : (rows.map key).Nodup)
    (hkey : ∀ row ∈ rows, ∀ result, f row = some result → keyOf result = key row) (name : String) :
    (rows.filterMap f).filter (keyOf · == name)
      = ((rows.find? (key · == name)).bind f).toList := by
  induction rows with
  | nil => rfl
  | cons row rest ih =>
    rw [List.map_cons, List.nodup_cons] at hnodup
    have hrest := ih hnodup.2 fun r hr => hkey r (List.mem_cons_of_mem _ hr)
    by_cases hname : key row = name
    · -- no other row has this key
      have hnone : rest.find? (key · == name) = none := by
        rw [List.find?_eq_none]
        intro r hr heq
        exact hnodup.1 (List.mem_map.mpr ⟨r, hr, by rw [hname]; simpa using heq⟩)
      rw [hnone] at hrest
      rw [List.find?_cons_of_pos (by simpa using hname)]
      cases hresult : f row with
      | none => simpa [List.filterMap_cons, hresult] using hrest
      | some result =>
        have hkeyOf := hkey row List.mem_cons_self result hresult
        rw [List.filterMap_cons_some hresult, List.filter_cons_of_pos (by simp [hkeyOf, hname]), hrest]
        simp [hresult]
    · rw [List.find?_cons_of_neg (by simpa using hname)]
      cases hresult : f row with
      | none => simpa [List.filterMap_cons, hresult] using hrest
      | some result =>
        have hkeyOf := hkey row List.mem_cons_self result hresult
        rw [List.filterMap_cons_some hresult, List.filter_cons_of_neg (by simp [hkeyOf, hname])]
        exact hrest

theorem symbol_of_changeOf? {current : List (String × Symbol)} {old : SnapshotEntry}
    {change : SymbolChange} (h : changeOf? current old = some change) : change.symbol = old.name := by
  unfold changeOf? at h
  split at h
  · injection h with h; rw [← h]; rfl
  · split at h
    · exact absurd h (by simp)
    · injection h with h; rw [← h]; rfl

theorem symbol_of_additionOf? {previous : List SnapshotEntry} {new : Symbol} {change : SymbolChange}
    (h : additionOf? previous new = some change) : change.symbol = new.name := by
  unfold additionOf? at h
  split at h
  · exact absurd h (by simp)
  · injection h with h; rw [← h]; rfl

theorem nodup_firstDeclarations (symbols : List Symbol) :
    (((firstDeclarations symbols).map (·.2)).map (·.name)).Nodup := by
  rw [List.map_map, List.map_congr_left (g := (·.1)) name_of_mem_firstDeclarations]
  exact (sortedKeys_firstDeclarations symbols).imp ne_of_lt

theorem find?_firstDeclarations (symbols : List Symbol) (name : String) :
    ((firstDeclarations symbols).map (·.2)).find? (·.name == name)
      = (firstDeclarations symbols).lookup name := by
  have hnames := @name_of_mem_firstDeclarations symbols
  generalize firstDeclarations symbols = entries at hnames ⊢
  induction entries with
  | nil => rfl
  | cons entry rest ih =>
    have hentry : entry.2.name = entry.1 := hnames entry List.mem_cons_self
    have hrest := ih fun e he => hnames e (List.mem_cons_of_mem _ he)
    rw [List.map_cons, List.find?_cons, List.lookup_cons, hentry, Bool.beq_comm, hrest]

/-- What is said of a name, by its entry in the old snapshot and its declaration in the file. -/
def saidOf : Option SnapshotEntry → Option Symbol → List SymbolChange
  | none, none => []
  | some old, none => [.of .removed old.name old.kind (some old.signature) none]
  | none, some new => [.of .added new.name new.kind none (some new.signature)]
  | some old, some new =>
    if Digest.ofSignature new.signature = old.sigHash then []
    else [.of .sigChanged old.name new.kind (some old.signature) (some new.signature)]

/-- The changes of one name are what happened to its entry, or that its symbol is new. -/
theorem filter_changesBetween {previous : List SnapshotEntry}
    (hprevious : (previous.map (·.name)).Nodup) (symbols : List Symbol) (name : String) :
    (changesBetween previous (firstDeclarations symbols)).filter (·.symbol == name)
      = saidOf (previous.find? (·.name == name)) ((firstDeclarations symbols).lookup name) := by
  have hnew : ∀ new, (firstDeclarations symbols).lookup name = some new → new.name = name := by
    intro new h
    rw [← find?_firstDeclarations] at h
    simpa using List.find?_some h
  unfold changesBetween
  rw [List.filter_append,
    filter_filterMap_key hprevious (fun _ _ _ h => symbol_of_changeOf? h) name,
    filter_filterMap_key (nodup_firstDeclarations symbols) (fun _ _ _ h => symbol_of_additionOf? h) name,
    find?_firstDeclarations]
  -- a symbol is new exactly if the snapshot has no entry of its name
  have hadd : ∀ new, (firstDeclarations symbols).lookup name = some new →
      additionOf? previous new = if (previous.find? (·.name == name)).isSome then none
        else some (.of .added new.name new.kind none (some new.signature)) := by
    intro new hlookup
    have hany : previous.any (·.name == name) = (previous.find? (·.name == name)).isSome := by
      rw [Bool.eq_iff_iff, List.any_eq_true, List.find?_isSome]
    rw [additionOf?, hnew new hlookup, hany]
  cases hold : previous.find? (·.name == name) with
  | none =>
    cases hlookup : (firstDeclarations symbols).lookup name with
    | none => rfl
    | some new => simp [hadd new hlookup, hold, saidOf]
  | some old =>
    have hname : old.name = name := by simpa using List.find?_some hold
    cases hlookup : (firstDeclarations symbols).lookup name with
    | none => simp [changeOf?, hname, hlookup, saidOf]
    | some new =>
      simp only [Option.bind_some, hadd new hlookup, hold, changeOf?, hname, hlookup, saidOf]
      split <;> rfl

/-- Whether a snapshot has an entry of a name. -/
def declares (entries : List SnapshotEntry) (name : String) : Bool := entries.any (·.name == name)

theorem declares_snapshotOf (symbols : List Symbol) (name : String) :
    declares (snapshotOf symbols) name = ((firstDeclarations symbols).lookup name).isSome := by
  rw [← find?_firstDeclarations]
  unfold declares snapshotOf
  rw [Bool.eq_iff_iff, List.find?_isSome, ← List.any_eq_true, List.any_map, List.any_map]
  rfl

/-- **A comparison reports what happened.** The changes of a name lead from whether it was in the old
snapshot to whether it is in the new one. -/
theorem replay_changesBetween {previous : List SnapshotEntry}
    (hprevious : (previous.map (·.name)).Nodup) (symbols : List Symbol) (name : String) :
    replay (declares previous name)
        (changesOf name (changesBetween previous (firstDeclarations symbols)))
      = some (declares (snapshotOf symbols) name) := by
  have hdeclares : declares previous name = (previous.find? (·.name == name)).isSome := by
    unfold declares
    rw [Bool.eq_iff_iff, List.any_eq_true, List.find?_isSome]
  rw [changesOf, filter_changesBetween hprevious, declares_snapshotOf, hdeclares]
  -- a name that was there has gone, or has another signature, or is as it was
  cases previous.find? (·.name == name) with
  | none => cases (firstDeclarations symbols).lookup name <;> rfl
  | some old =>
    cases (firstDeclarations symbols).lookup name with
    | none => rfl
    | some new =>
      rw [saidOf]
      split <;> rfl

end CodeIndex
