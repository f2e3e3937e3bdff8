import Mathlib
import CodeIndex.Proofs.Index.Contents
import CodeIndex.Proofs.Index.Imports
import CodeIndex.Proofs.Project.Run

/-!
# Operations on different files commute

Indexing a file, under either class, and removing one are operations on one file. What comes of such an
operation, and what the index holds of its file afterwards, are functions of what the index holds of that
file before (`FileOperation.told`, `run_told`). What it holds of other files stays. Imports can only go, and
which of them go is told by what came of the operation (`Spares`).

So operations on different files do not see each other, and what a list of them leaves is told file by file,
whatever its order (`runAll_told`). The numbers of rows do depend on the order: they are given out by the
greatest one in use, and the number of a removed file is used again.

Main result: `file_operations_commute`.
-/

namespace CodeIndex

open Text (Bytes)

/-! ## §1. What an index holds, without numbers. -/

/-- What the index holds of a file, but for the number of its row. -/
structure Contents where
  info : Option FileInfo
  symbols : List Symbol
  chunks : List Chunk
  snapshot : Option (List SnapshotEntry)

/-- A page without the number of its row. -/
def Page.contents (page : Page) : Contents :=
  ⟨page.row.map (·.toFileInfo), page.symbols, page.chunks, page.snapshot⟩

namespace Store

/-- What the store holds of a file. -/
def contents (s : Store) (path : String) : Contents := (s.page path).contents

variable {s t : Store}

theorem contents_info (s : Store) (path : String) :
    (s.contents path).info = (s.file? path).map (·.toFileInfo) := rfl

theorem contents_info_isSome (s : Store) (path : String) :
    (s.contents path).info.isSome = (s.file? path).isSome := by
  rw [contents_info, Option.isSome_map]

/-- Indices that list the same for every path, and have the same snapshots and imports. -/
structure SeenAlike (s t : Store) : Prop extends SameIndex s t where
  allSnapshots : ∀ path, s.snapshot? path = t.snapshot? path
  allEdges : s.allEdges = t.allEdges

/-- What is held of every file and the imports are all that is seen. -/
theorem SeenAlike.of_contents (hs : s.Intact) (ht : t.Intact)
    (hcontents : ∀ path, s.contents path = t.contents path)
    (hedges : ∀ e, e ∈ s.allEdges ↔ e ∈ t.allEdges) : SeenAlike s t := by
  have hall := allEdges_eq hs ht hedges
  have hagrees : ∀ path, (s.page path).Agrees (t.page path) := by
    intro path
    have heq := hcontents path
    exact ⟨congrArg Contents.info heq, congrArg Contents.symbols heq, congrArg Contents.chunks heq,
      fun _ _ _ => congrArg Contents.snapshot heq⟩
  exact ⟨SameIndex.of_pages hs ht hagrees hall, fun path => congrArg Contents.snapshot (hcontents path),
    hall⟩

end Store

/-! ## §2. Operations on one file. -/

/-- An operation on one file. -/
inductive FileOperation where
  | index (c : FileClass) (path : String) (force : Bool)
  | remove (path : String)
  deriving DecidableEq, Repr

/-- What comes of an operation. -/
inductive FileResult where
  | indexed (outcome : Except IndexFailure FileOutcome)
  /-- What became of the symbols, if there was a row. -/
  | removed (diff : Option FileDiff)

namespace FileOperation

/-- The file that an operation is about. -/
def path : FileOperation → String
  | .index _ path _ => path
  | .remove path => path

/-- Run an operation. One that fails leaves the store as it was. -/
def run (x : Indexer) (d : Disk) (s : Store) : FileOperation → Store × FileResult
  | .index c path force =>
    let result := x.index d s c path force
    (result.toOption.elim s (·.1), .indexed (result.map (·.2)))
  | .remove path =>
    let result := s.removeFile path
    (result.elim s (·.1), .removed (result.map (·.2)))

/-- Run operations one after another; the result says what came of each. -/
def runAll (x : Indexer) (d : Disk) : Store → List FileOperation → Store × List (FileOperation × FileResult)
  | s, [] => (s, [])
  | s, op :: rest =>
    let (s, result) := op.run x d s
    let (s, results) := runAll x d s rest
    (s, (op, result) :: results)

/-- What comes of indexing a file of which the index holds something, and what it holds then. -/
def toldOfIndex (x : Indexer) (d : Disk) (k : Contents) (c : FileClass) (path : String) (force : Bool) :
    FileResult × Contents :=
  match x.read d path with
  | .error e => (.indexed (.error e), k)
  | .ok bytes =>
    if !force && k.info.any (·.hash == Digest.ofBytes bytes) then
      (.indexed (.ok ⟨path, .skipped, none⟩), k)
    else
      let status := IndexStatus.ofExisted k.info.isSome
      match c with
      | .code =>
        match Text.decode? bytes with
        | none => (.indexed (.error (.notText path)), k)
        | some content =>
          let symbols := (parse path content).symbols
          (.indexed (.ok ⟨path, status, some (comparison k.snapshot path symbols)⟩),
            ⟨some (Indexer.codeInfo path bytes content), symbols, k.chunks, some (snapshotOf symbols)⟩)
      | .doc =>
        (.indexed (.ok ⟨path, status, none⟩),
          ⟨some (Indexer.docInfo path bytes), k.symbols,
            x.chunks (Language.ofPath path) (Text.decodeLossy bytes), k.snapshot⟩)

/-- What comes of removing it, and what the index holds then. -/
def toldOfRemove (k : Contents) (path : String) : FileResult × Contents :=
  match k.info with
  | none => (.removed none, k)
  | some info =>
    match info.fileClass with
    | .code => (.removed (some (comparison k.snapshot path [])), ⟨none, [], [], some (snapshotOf [])⟩)
    | .doc => (.removed (some ⟨path, false, []⟩), ⟨none, [], [], k.snapshot⟩)

/-- What comes of an operation on a file of which the index holds something, and what it holds then. -/
def told (x : Indexer) (d : Disk) (k : Contents) : FileOperation → FileResult × Contents
  | .index c path force => toldOfIndex x d k c path force
  | .remove path => toldOfRemove k path

/-- An import stays when an operation has come to something. A source file that is written loses the imports
that it makes, and a file that is removed those at either end. -/
def Spares (op : FileOperation) (e : Edge) : FileResult → Prop
  | .indexed (.ok o) =>
    match op with
    | .index .code path _ => o.status ≠ .skipped → e.source ≠ path
    | _ => True
  | .indexed (.error _) => True
  | .removed (some _) => e.source ≠ op.path ∧ e.target ≠ op.path
  | .removed none => True

/-- What an operation does to a store: something comes of it, the index then holds something of its file and
what it held of all others, and some imports go. -/
structure Does (op : FileOperation) (s : Store) (result : FileResult) (k : Contents) (s' : Store) : Prop where
  intact : s'.Intact
  own : s'.contents op.path = k
  others : ∀ path, path ≠ op.path → s'.contents path = s.contents path
  edges : ∀ e, e ∈ s'.allEdges ↔ e ∈ s.allEdges ∧ op.Spares e result

variable {x : Indexer} {d : Disk} {s : Store}

/-- An operation that leaves the store alone. -/
theorem Does.same (hs : s.Intact) {op : FileOperation} {result : FileResult}
    (hspares : ∀ e, op.Spares e result) : op.Does s result (s.contents op.path) s :=
  ⟨hs, rfl, fun _ _ => rfl, fun e => ⟨fun he => ⟨he, hspares e⟩, fun he => he.1⟩⟩

theorem Does.of_rewrites {op : FileOperation} {result : FileResult} {k : Contents} {s' : Store}
    (h : s.Rewrites s' op.path) (hown : s'.contents op.path = k)
    (hedges : ∀ e, e ∈ s'.allEdges ↔ e ∈ s.allEdges ∧ op.Spares e result) : op.Does s result k s' :=
  ⟨h.intact, hown, fun path hne => congrArg Page.contents (h.others path hne), hedges⟩

theorem contents_any (s : Store) (path hash : String) :
    (s.contents path).info.any (·.hash == hash) = (s.page path).row.any (·.hash == hash) := by
  show ((s.file? path).map (·.toFileInfo)).any (·.hash == hash) = (s.file? path).any (·.hash == hash)
  rw [Option.any_map]

theorem run_of_indexed {c : FileClass} {path : String} {force : Bool} {s' : Store} {o : FileOutcome}
    (h : x.index d s c path force = .ok (s', o)) :
    (index c path force).run x d s = (s', .indexed (.ok o)) := by
  unfold run
  simp only [h]
  rfl

theorem run_of_refused {c : FileClass} {path : String} {force : Bool} {e : IndexFailure}
    (h : x.index d s c path force = .error e) :
    (index c path force).run x d s = (s, .indexed (.error e)) := by
  unfold run
  simp only [h]
  rfl

/-- What stands in the way of a file does so whatever the number of its row is. -/
theorem told_of_refusal {c : FileClass} {path : String} {force : Bool} {e : IndexFailure}
    (h : x.refusal? d force (s.page path) c path = some e) :
    toldOfIndex x d (s.contents path) c path force = (.indexed (.error e), s.contents path) := by
  unfold Indexer.refusal? at h
  unfold toldOfIndex
  simp only [contents_any]
  cases hread : x.read d path with
  | error e' =>
    rw [hread] at h
    cases h
    rfl
  | ok bytes =>
    simp only [hread] at h ⊢
    split at h
    next => cases h
    next hchanged =>
      rw [if_neg hchanged]
      cases c with
      | doc => cases h
      | code =>
        simp only at h ⊢
        split at h
        next hnone =>
          cases h
          rw [Option.isNone_iff_eq_none.mp hnone]
        next => cases h

/-- **Indexing a file** does what is told of it. -/
theorem index_told (hs : s.Intact) (c : FileClass) (path : String) (force : Bool) :
    ∃ s' result k, (index c path force).run x d s = (s', result)
      ∧ toldOfIndex x d (s.contents path) c path force = (result, k)
      ∧ (index c path force).Does s result k s' := by
  have hwritten : ∀ existed, IndexStatus.ofExisted existed ≠ .skipped := by decide
  have houtcome := Indexer.index_outcome x d hs c path force
  generalize hindex : x.index d s c path force = result at houtcome
  cases houtcome with
  | refused refusal =>
    exact ⟨_, _, _, run_of_refused hindex, told_of_refusal refusal, Does.same hs fun _ => trivial⟩
  | current read kept same =>
    refine ⟨_, _, s.contents path, run_of_indexed hindex, ?_, Does.same hs fun e => ?_⟩
    · unfold toldOfIndex
      simp only [contents_any, read, kept, same, Bool.not_false, Bool.true_and, if_true]
    · cases c with
      | code => exact fun hstatus => absurd rfl hstatus
      | doc => trivial
  | code ofClass read decoded rewrites page changed =>
    subst ofClass
    obtain ⟨-, hedges⟩ := Indexer.index_allEdges hs hindex
    refine ⟨_, _, _, run_of_indexed hindex, ?_, Does.of_rewrites rewrites
      (congrArg Page.contents page) fun e => ?_⟩
    · unfold toldOfIndex
      simp only [contents_any, read, changed, decoded, Store.contents_info_isSome, Bool.false_eq_true,
        if_false]
      rfl
    · rw [hedges (hwritten _) e]
      simp [Spares, hwritten]
  | doc ofClass read rewrites page changed =>
    subst ofClass
    obtain ⟨-, hedges⟩ := Indexer.index_allEdges hs hindex
    refine ⟨_, _, _, run_of_indexed hindex, ?_, Does.of_rewrites rewrites
      (congrArg Page.contents page) fun e => ?_⟩
    · unfold toldOfIndex
      simp only [contents_any, read, changed, Store.contents_info_isSome, Bool.false_eq_true, if_false]
      rfl
    · rw [hedges (hwritten _) e]
      simp [Spares]

/-- **Removing a file** does what is told of it. -/
theorem remove_told (hs : s.Intact) (path : String) :
    ∃ s' result k, (remove path).run x d s = (s', result)
      ∧ toldOfRemove (s.contents path) path = (result, k)
      ∧ (remove path).Does s result k s' := by
  cases hrow : s.file? path with
  | none =>
    refine ⟨s, .removed none, s.contents path, ?_, ?_, Does.same hs fun _ => trivial⟩
    · simp only [run, Store.removeFile_of_noRow hrow]
      rfl
    · unfold toldOfRemove
      simp only [Store.contents_info, hrow, Option.map_none]
  | some row =>
    obtain ⟨s', diff, hremove, hrewrites, hpage, -⟩ := Store.removeFile_page hs hrow
    refine ⟨s', .removed (some diff), _, ?_, ?_, Does.of_rewrites hrewrites
      (congrArg Page.contents hpage) fun e => Store.removeFile_allEdges hs hremove⟩
    · simp only [run, hremove]
      rfl
    · -- what became of the symbols goes by the class of the row
      simp only [Store.removeFile, hrow, Option.map_some, Option.some.injEq] at hremove
      unfold toldOfRemove
      simp only [Store.contents_info, hrow, Option.map_some]
      cases hclass : row.fileClass with
      | code =>
        simp only [hclass] at hremove ⊢
        rw [← (Prod.mk.inj hremove).2, Store.computeDiff_snd]
        rfl
      | doc =>
        simp only [hclass] at hremove ⊢
        rw [← (Prod.mk.inj hremove).2]
        rfl

/-- **An operation does what is told of it** by what the index holds of its file. -/
theorem run_told (hs : s.Intact) (op : FileOperation) :
    (op.run x d s).2 = (op.told x d (s.contents op.path)).1
      ∧ op.Does s (op.run x d s).2 (op.told x d (s.contents op.path)).2 (op.run x d s).1 := by
  have hdone : ∃ s' result k, op.run x d s = (s', result)
      ∧ op.told x d (s.contents op.path) = (result, k) ∧ op.Does s result k s' := by
    cases op with
    | index c path force => exact index_told hs c path force
    | remove path => exact remove_told hs path
  obtain ⟨s', result, k, hrun, htold, hdoes⟩ := hdone
  rw [hrun, htold]
  exact ⟨rfl, hdoes⟩

/-! ## §3. Lists of operations. -/

/-- What operations on different files do to a store, told file by file. -/
structure DoAll (x : Indexer) (d : Disk) (ops : List FileOperation) (s : Store)
    (results : List (FileOperation × FileResult)) (s' : Store) : Prop where
  intact : s'.Intact
  /-- What comes of an operation is told by what the index held of its file at first. -/
  results : results = ops.map fun op => (op, (op.told x d (s.contents op.path)).1)
  own : ∀ op ∈ ops, s'.contents op.path = (op.told x d (s.contents op.path)).2
  others : ∀ path, path ∉ ops.map FileOperation.path → s'.contents path = s.contents path
  edges : ∀ e, e ∈ s'.allEdges ↔
    e ∈ s.allEdges ∧ ∀ op ∈ ops, op.Spares e (op.told x d (s.contents op.path)).1

theorem runAll_told (ops : List FileOperation) :
    ∀ {s : Store}, s.Intact → (ops.map FileOperation.path).Nodup →
      DoAll x d ops s (runAll x d s ops).2 (runAll x d s ops).1 := by
  induction ops with
  | nil => intro s hs _; exact ⟨hs, rfl, by simp, fun _ _ => rfl, by simp [runAll]⟩
  | cons op rest ih =>
    intro s hs hdistinct
    obtain ⟨hnew, hrest⟩ := List.nodup_cons.mp hdistinct
    obtain ⟨hresult, hdoes⟩ := run_told (x := x) (d := d) hs op
    have hafter := ih hdoes.intact hrest
    -- what the index holds of the files to come is what it held at first
    have hothers : ∀ other ∈ rest, (op.run x d s).1.contents other.path = s.contents other.path := by
      intro other hother
      refine hdoes.others other.path fun heq => hnew ?_
      rw [← heq]
      exact List.mem_map_of_mem hother
    refine ⟨hafter.intact, ?_, ?_, ?_, ?_⟩
    · show (op, (op.run x d s).2) :: (runAll x d (op.run x d s).1 rest).2 = _
      rw [hresult, hafter.results, List.map_cons]
      congr 1
      refine List.map_congr_left fun other hother => ?_
      rw [hothers other hother]
    · intro other hother
      show (runAll x d (op.run x d s).1 rest).1.contents other.path = _
      rcases List.mem_cons.mp hother with rfl | hother
      · rw [hafter.others other.path hnew, hdoes.own]
      · rw [hafter.own other hother, hothers other hother]
    · intro path hpath
      rw [List.map_cons, List.mem_cons, not_or] at hpath
      show (runAll x d (op.run x d s).1 rest).1.contents path = _
      rw [hafter.others path hpath.2, hdoes.others path hpath.1]
    · intro e
      show e ∈ (runAll x d (op.run x d s).1 rest).1.allEdges ↔ _
      have hspares : (∀ other ∈ rest,
            other.Spares e (other.told x d ((op.run x d s).1.contents other.path)).1)
          ↔ ∀ other ∈ rest, other.Spares e (other.told x d (s.contents other.path)).1 :=
        forall₂_congr fun other hother => by rw [hothers other hother]
      rw [hafter.edges e, hdoes.edges e, hspares, hresult, List.forall_mem_cons, and_assoc]

/-- What operations on different files leave does not depend on their order. -/
theorem DoAll.seenAlike {ops ops' : List FileOperation} {s s₁ s₂ : Store}
    {results results' : List (FileOperation × FileResult)} (hperm : ops.Perm ops')
    (first : DoAll x d ops s results s₁) (second : DoAll x d ops' s results' s₂) :
    results.Perm results' ∧ s₁.SeenAlike s₂ := by
  refine ⟨?_, .of_contents first.intact second.intact (fun path => ?_) fun e => ?_⟩
  · rw [first.results, second.results]
    exact hperm.map _
  · by_cases hpath : path ∈ ops.map FileOperation.path
    · obtain ⟨op, hop, rfl⟩ := List.mem_map.mp hpath
      rw [first.own op hop, second.own op (hperm.mem_iff.mp hop)]
    · have hpath' : path ∉ ops'.map FileOperation.path := fun hmem =>
        hpath ((hperm.map FileOperation.path).mem_iff.mpr hmem)
      rw [first.others path hpath, second.others path hpath']
  · rw [first.edges e, second.edges e]
    exact and_congr_right fun _ => forall_congr' fun op => imp_congr_left hperm.mem_iff

end FileOperation

/-! ## §4. The theorem. -/

/-- **Operations on different files commute.** On a store that hangs together, two operations on different
files come to the same in either order, each one to what it comes to alone, and leave indices that list the
same for every path. So does any list of operations on different files, in any order. -/
theorem file_operations_commute (x : Indexer) (d : Disk) {s : Store} (hs : s.Intact) :
    (∀ a b : FileOperation, a.path ≠ b.path →
        (b.run x d (a.run x d s).1).2 = (b.run x d s).2
          ∧ (a.run x d (b.run x d s).1).2 = (a.run x d s).2
          ∧ (b.run x d (a.run x d s).1).1.SeenAlike (a.run x d (b.run x d s).1).1)
      ∧ ∀ ops ops' : List FileOperation, ops.Perm ops' → (ops.map FileOperation.path).Nodup →
        (FileOperation.runAll x d s ops).2.Perm (FileOperation.runAll x d s ops').2
          ∧ (FileOperation.runAll x d s ops).1.SeenAlike (FileOperation.runAll x d s ops').1 := by
  have hlists : ∀ ops ops' : List FileOperation, ops.Perm ops' → (ops.map FileOperation.path).Nodup →
      (FileOperation.runAll x d s ops).2.Perm (FileOperation.runAll x d s ops').2
        ∧ (FileOperation.runAll x d s ops).1.SeenAlike (FileOperation.runAll x d s ops').1 := by
    intro ops ops' hperm hdistinct
    have hdistinct' := (hperm.map FileOperation.path).nodup_iff.mp hdistinct
    exact (FileOperation.runAll_told ops hs hdistinct).seenAlike hperm
      (FileOperation.runAll_told ops' hs hdistinct')
  -- what one of two operations comes to is not changed by the other
  have halone : ∀ a b : FileOperation, a.path ≠ b.path →
      (b.run x d (a.run x d s).1).2 = (b.run x d s).2 := by
    intro a b hne
    obtain ⟨-, hdoes⟩ := FileOperation.run_told (x := x) (d := d) hs a
    rw [(FileOperation.run_told hdoes.intact b).1, (FileOperation.run_told hs b).1,
      hdoes.others b.path (Ne.symm hne)]
  refine ⟨fun a b hne => ⟨halone a b hne, halone b a (Ne.symm hne), ?_⟩, hlists⟩
  exact (hlists [a, b] [b, a] (.swap b a []) (by simpa using hne)).2

/-- Two source files. -/
def twoFiles : Disk :=
  ⟨[([['p']], .directory), ([['p'], ['a', '.', 'p', 'y']], .file definesF),
    ([['p'], ['b', '.', 'p', 'y']], .file [])], []⟩

/-- An index of the first one. -/
def firstIndexed : Store := ((FileOperation.index .code "a.py" false).run pythonProject.indexer twoFiles .empty).1

/-- The first file is removed and the second one indexed. If the removal comes first, its number is used again;
otherwise the second file gets a number of its own. Nothing else tells the two orders apart. -/
theorem file_operations_commute_but_for_numbers :
    let a : FileOperation := .remove "a.py"
    let b : FileOperation := .index .code "b.py" false
    let ab := (b.run pythonProject.indexer twoFiles (a.run pythonProject.indexer twoFiles firstIndexed).1).1
    let ba := (a.run pythonProject.indexer twoFiles (b.run pythonProject.indexer twoFiles firstIndexed).1).1
    firstIndexed.Intact ∧ ab.SeenAlike ba ∧ ab.fileId? "b.py" = some 1 ∧ ba.fileId? "b.py" = some 2 := by
  intro a b ab ba
  have hs : firstIndexed.Intact := (FileOperation.run_told Store.intact_empty _).2.intact
  refine ⟨hs, ?_, ?_⟩
  · exact ((file_operations_commute pythonProject.indexer twoFiles hs).1 a b (by decide)).2.2
  · decide +kernel

end CodeIndex
