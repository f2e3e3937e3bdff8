import Mathlib
import CodeIndex.Project.Report
import CodeIndex.Proofs.Disk.Appending
import CodeIndex.Proofs.Disk.Replacing
import CodeIndex.Proofs.Disk.Textual
import CodeIndex.Proofs.Project.Run

/-!
# Where the events of sessions are exported

The events of a session are added to a file that has the name of the session. The name may be any text, and it is
put behind the directory of exports as a path. As long as this path does not start at the root and does not climb,
the file is below that directory; of a name without a slash it is a file in the directory, and each such name
has its own. A name that starts at the root, or that climbs, leads wherever the path leads, and names that
differ in void segments or in steps up and down lead to one file.

Main results:
  * `exportEvents_adds` — an export adds to the file at the place of its path, and touches no other file;
  * `exports_stay_in_directory` — when this file is below the directory of exports, and when two names share it.
-/

namespace CodeIndex

open CodeIndex.Path (placeOf segments enter isAbsolute)

/-! ## §1. Adding to a file. -/

namespace Disk

variable {d d' : Disk}

/-- Something was added to the file at a place, which was made if it was missing, and to no other file. -/
structure AddedTo (d d' : Disk) (place : Location) : Prop where
  added : ∃ more, d'.fileAt? place = some (.file (d.contentAt place ++ more))
  others : ∀ q, q ≠ place → d'.fileAt? q = d.fileAt? q

theorem Grown.contentAt (h : d.Grown d') (place : Location) : d'.contentAt place = d.contentAt place := by
  unfold Disk.contentAt
  rcases h.each place with hsame | ⟨hnone, hmade⟩
  · rw [hsame]
  · rw [hnone, hmade]
    rfl

/-- **Lines are added** to the file at the place that the text of a path tells, or no file is changed. -/
theorem appendLines_adds (d : Disk) (path : String) (lines : List (List Char)) :
    (∃ n, (d.appendLines path lines).result = .ok n ∧
        d.AddedTo (d.appendLines path lines).disk (placeOf d.here path)) ∨
      (∃ e, (d.appendLines path lines).result = .error e) ∧
        ∀ q, (d.appendLines path lines).disk.fileAt? q = d.fileAt? q := by
  have hgrown := makeParent_grown d path
  unfold appendLines
  split
  next made e hmade =>
    rw [hmade] at hgrown
    exact .inr ⟨⟨e, rfl⟩, hgrown.fileAt?⟩
  next made hmade =>
    rw [hmade] at hgrown
    simp only
    split
    next after hafter =>
      left
      obtain ⟨place, hplace, hput⟩ := modifyFile_eq_ok_iff.mp hafter
      have hwhere : placeOf d.here path = place := by
        rw [hplace.eq_placeOf]
        exact congrArg (placeOf · path) hgrown.here.symm
      refine ⟨lines.length, rfl, ?_⟩
      rw [hwhere, hput]
      refine ⟨⟨Text.encode (lines.flatMap (· ++ ['\n'])), ?_⟩, fun q hq => ?_⟩
      · rw [← hgrown.contentAt]
        exact fileAt?_file (at?_put_self hplace.ne_nil _)
      · rw [fileAt?_congr (at?_put_of_ne hq _)]
        exact hgrown.fileAt? q
    next e _ => exact .inr ⟨⟨e, rfl⟩, hgrown.fileAt?⟩

end Disk

/-- **An export** adds to the file at the place of its path, and touches no other file. -/
theorem Project.exportEvents_adds (p : Project) (d : Disk) (session : String) :
    (∃ x, (p.exportEvents d session).2 = .ok x ∧ x.path = p.layout.exportFile session ∧
        d.AddedTo (p.exportEvents d session).1 (placeOf d.here (p.layout.exportFile session))) ∨
      (∃ e, (p.exportEvents d session).2 = .error e) ∧
        ∀ q, (p.exportEvents d session).1.fileAt? q = d.fileAt? q := by
  unfold exportEvents
  split
  next e _ => exact .inr ⟨⟨e, rfl⟩, fun q => rfl⟩
  next events _ =>
    have hadds := Disk.appendLines_adds d (p.layout.exportFile session)
      (events.map fun e => (e.toJson .int).compact)
    simp only
    generalize d.appendLines _ _ = w at hadds ⊢
    obtain ⟨disk, result⟩ := w
    rcases hadds with ⟨n, hresult, hadded⟩ | ⟨⟨e, hresult⟩, hsame⟩
    · obtain rfl : result = .ok n := hresult
      exact .inl ⟨⟨p.layout.exportFile session, n⟩, rfl, rfl, hadded⟩
    · obtain rfl : result = .error e := hresult
      exact .inr ⟨⟨.disk e, rfl⟩, hsame⟩

/-! ## §2. Names of sessions as paths. -/

/-- The segments of the path that the name of a session is behind the directory of exports. -/
def exportSegments (session : String) : Path.Segments := segments (session ++ ".jsonl").toList

/-- A name leads below the directory of exports: it does not start at the root, and no first part of it leads up
more often than down. -/
structure StaysBelow (session : String) : Prop where
  relative : isAbsolute session.toList = false
  level : ¬ Resolve.Climbs (exportSegments session)

theorem isAbsolute_exported (session : String) :
    isAbsolute (session ++ ".jsonl").toList = isAbsolute session.toList := by
  rw [String.toList_append]
  cases session.toList with
  | nil => rfl
  | cons c rest => rfl

/-- The last segment is a name, since it has an extension. -/
theorem exportSegments_eq (session : String) :
    ∃ front last, exportSegments session = front ++ [last] ∧ Path.IsProper last := by
  have hne : segments session.toList ≠ [] := List.splitOn_ne_nil _ _
  obtain ⟨front, last, hsplit⟩ : ∃ front last, segments session.toList = front ++ [last] :=
    ⟨_, _, (List.dropLast_append_getLast hne).symm⟩
  have hnoSlash : ∀ s ∈ front ++ [last], '/' ∉ s := by
    rw [← hsplit]
    exact Path.noSlash_of_mem_segments _
  have hlast : '/' ∉ last ++ ".jsonl".toList := by
    have hplain := hnoSlash last (by simp)
    simpa using hplain
  refine ⟨front, last ++ ".jsonl".toList, ?_, .of_length (by simp) hlast⟩
  unfold exportSegments
  rw [String.toList_append, ← Path.joinSegments_segments session.toList, hsplit, Path.joinSegments_extend]
  apply List.splitOn_intercalate
  · intro s hs
    rcases List.mem_append.mp hs with hs | hs
    · exact hnoSlash s (List.mem_append_left _ hs)
    · rw [List.mem_singleton.mp hs]
      exact hlast
  · simp

theorem noSlash_of_mem_exportSegments (session : String) : ∀ s ∈ exportSegments session, '/' ∉ s :=
  Path.noSlash_of_mem_segments _

variable {session : String}

/-- A name that does not climb leads down some names, the last of which is that of a file. -/
theorem StaysBelow.exists_names (h : StaysBelow session) :
    ∃ names, Resolve.fold? (exportSegments session) = some names ∧ Path.Leads names := by
  have hends : (exportSegments session).foldlM Resolve.step? [] ≠ none := by
    intro hnone
    obtain ⟨part, hpart, hclimbs⟩ := (Resolve.foldlM_step?_eq_none_iff _ _).mp hnone
    rw [List.length_nil, Nat.zero_add] at hclimbs
    exact h.level ⟨part, hpart, hclimbs⟩
  obtain ⟨place, hplace⟩ := Option.ne_none_iff_exists'.mp hends
  have hproper := Resolve.foldlM_step?_proper _ (by simp) (noSlash_of_mem_exportSegments session) hplace
  refine ⟨place.reverse, by rw [Resolve.fold?, hplace, Option.map_some], ?_, ?_⟩
  · -- the last step goes down
    obtain ⟨front, last, hsegments, hlast⟩ := exportSegments_eq session
    rw [hsegments, List.foldlM_append] at hplace
    obtain ⟨mid, -, hstep⟩ := Option.bind_eq_some_iff.mp hplace
    rw [Resolve.foldlM_step?_names [last] (by simpa using hlast)] at hstep
    rw [← Option.some.inj hstep]
    simp
  · intro n hn
    exact hproper n (List.mem_reverse.mp hn)

/-- A name without a slash is one segment. -/
theorem exportSegments_of_noSlash (h : '/' ∉ session.toList) :
    exportSegments session = [(session ++ ".jsonl").toList] := by
  have hplain : '/' ∉ (session ++ ".jsonl").toList := by
    rw [String.toList_append]
    simpa using h
  exact List.splitOn_eq_singleton hplain

theorem foldlM_of_noSlash (h : '/' ∉ session.toList) :
    (exportSegments session).foldlM Resolve.step? [] = some [(session ++ ".jsonl").toList] := by
  have hproper : Path.IsProper (session ++ ".jsonl").toList := by
    rw [String.toList_append]
    exact .of_length (by simp) (by simpa using h)
  rw [exportSegments_of_noSlash h]
  exact Resolve.foldlM_step?_names [_] (by simpa using hproper) []

/-- So it stays below, -/
theorem staysBelow_of_noSlash (h : '/' ∉ session.toList) : StaysBelow session := by
  constructor
  · cases hchars : session.toList with
    | nil => rfl
    | cons c rest =>
      rw [hchars] at h
      have hc : c ≠ '/' := fun heq => h (heq ▸ List.mem_cons_self)
      simpa [isAbsolute] using hc
  · intro hclimbs
    obtain ⟨part, hpart, hclimbs⟩ := hclimbs
    have hnone := (Resolve.foldlM_step?_eq_none_iff (exportSegments session) []).mpr
      ⟨part, hpart, by rwa [List.length_nil, Nat.zero_add]⟩
    rw [foldlM_of_noSlash h] at hnone
    cases hnone

/-- and leads to a file in the directory of exports. -/
theorem fold?_of_noSlash (h : '/' ∉ session.toList) :
    Resolve.fold? (exportSegments session) = some [(session ++ ".jsonl").toList] := by
  unfold Resolve.fold?
  rw [foldlM_of_noSlash h]
  rfl

/-! ## §3. Places of exports. -/

/-- The place of the directory of exports. -/
def Layout.exportsPlace (l : Layout) (here : Location) : Location :=
  placeOf here l.root ++ [".vigil".toList, "exports".toList]

theorem placeOf_exports (l : Layout) (here : Location) :
    placeOf here (Path.under l.dataDir "exports") = l.exportsPlace here := by
  have hdata : placeOf here l.dataDir = placeOf here l.root ++ [".vigil".toList] :=
    Path.placeOf_under (p := ".vigil") rfl here l.root
  rw [Path.placeOf_under rfl, hdata, Layout.exportsPlace]
  show Path.enter _ "exports".toList = _
  rw [Path.enter_proper ⟨by decide, by decide, by decide, by decide⟩, List.append_assoc]
  rfl

/-- A name that does not start at the root goes on from the directory of exports, -/
theorem placeOf_exportFile (h : isAbsolute session.toList = false) (l : Layout) (here : Location) :
    placeOf here (l.exportFile session) = (exportSegments session).foldl enter (l.exportsPlace here) := by
  unfold Layout.exportFile
  rw [Path.placeOf_under (by rw [isAbsolute_exported, h]), placeOf_exports]
  rfl

/-- and one that starts at the root does not. -/
theorem placeOf_exportFile_absolute (h : isAbsolute session.toList = true) (l : Layout) (here : Location) :
    placeOf here (l.exportFile session) = (exportSegments session).foldl enter [] := by
  unfold Layout.exportFile
  rw [Path.placeOf_under_absolute (by rw [isAbsolute_exported, h])]
  rfl

theorem placeOf_of_fold? {names : Path.Segments} (h : isAbsolute session.toList = false)
    (hnames : Resolve.fold? (exportSegments session) = some names) (l : Layout) (here : Location) :
    placeOf here (l.exportFile session) = l.exportsPlace here ++ names := by
  rw [placeOf_exportFile h, Path.foldl_enter_of_fold? hnames]

/-- **Two names that stay below** share a file if and only if they lead down the same names. -/
theorem placeOf_eq_iff {a b : String} (ha : StaysBelow a) (hb : StaysBelow b) (l : Layout) (here : Location) :
    placeOf here (l.exportFile a) = placeOf here (l.exportFile b) ↔
      Resolve.fold? (exportSegments a) = Resolve.fold? (exportSegments b) := by
  obtain ⟨names, hnames, -⟩ := ha.exists_names
  obtain ⟨others, hothers, -⟩ := hb.exists_names
  rw [placeOf_of_fold? ha.relative hnames, placeOf_of_fold? hb.relative hothers, hnames, hothers,
    List.append_right_inj, Option.some.injEq]

/-- **Exports stay in their directory** as long as the names of sessions stay below it. An export adds to one file
or changes none. A name that does not start at the root and does not climb leads to a file below the directory of
exports; two such names share a file if and only if they lead down the same names. A name without a slash is one
of them, and no other name without a slash shares its file. Any other name leads where its path leads: one that
climbs goes on from the directory of exports, and one that starts at the root does not. -/
theorem exports_stay_in_directory (p : Project) (d : Disk) :
    (∀ session,
      (∃ x, (p.exportSession d (some session)).2 = .ok x ∧ x.path = p.layout.exportFile session ∧
          d.AddedTo (p.exportSession d (some session)).1 (placeOf d.here (p.layout.exportFile session))) ∨
        (∃ e, (p.exportSession d (some session)).2 = .error e) ∧
          ∀ q, (p.exportSession d (some session)).1.fileAt? q = d.fileAt? q) ∧
      (∀ session, StaysBelow session → ∃ names, Path.Leads names ∧
        placeOf d.here (p.layout.exportFile session)
          = placeOf d.here p.root ++ [".vigil".toList, "exports".toList] ++ names) ∧
      (∀ a b, StaysBelow a → StaysBelow b →
        (placeOf d.here (p.layout.exportFile a) = placeOf d.here (p.layout.exportFile b) ↔
          Resolve.fold? (exportSegments a) = Resolve.fold? (exportSegments b))) ∧
      (∀ session, '/' ∉ session.toList → StaysBelow session) ∧
      (∀ a b, '/' ∉ a.toList → '/' ∉ b.toList →
        placeOf d.here (p.layout.exportFile a) = placeOf d.here (p.layout.exportFile b) → a = b) ∧
      ∀ session, placeOf d.here (p.layout.exportFile session)
        = (exportSegments session).foldl enter
            (if isAbsolute session.toList then [] else p.layout.exportsPlace d.here) := by
  refine ⟨p.exportEvents_adds d, ?_, fun a b ha hb => placeOf_eq_iff ha hb _ _,
    fun session h => staysBelow_of_noSlash h, ?_, ?_⟩
  · intro session h
    obtain ⟨names, hnames, hleads⟩ := h.exists_names
    exact ⟨names, hleads, placeOf_of_fold? h.relative hnames p.layout d.here⟩
  · intro a b ha hb hshared
    rw [placeOf_eq_iff (staysBelow_of_noSlash ha) (staysBelow_of_noSlash hb), fold?_of_noSlash ha,
      fold?_of_noSlash hb] at hshared
    have hchars := (List.cons.inj (Option.some.inj hshared)).1
    rw [String.toList_append, String.toList_append, List.append_left_inj] at hchars
    exact String.toList_injective hchars
  · intro session
    cases habsolute : isAbsolute session.toList with
    | true => exact placeOf_exportFile_absolute habsolute p.layout d.here
    | false => exact placeOf_exportFile habsolute p.layout d.here

/-- The directory `p`, which holds nothing. -/
def emptyTree : Disk := ⟨[([['p']], .directory)], []⟩

/-- The name of a session may lead to a file of the project itself, which is not in the directory of exports; and
two names may share a file. -/
theorem exports_leave_directory :
    emptyTree.fileAt? ["p".toList, "a.jsonl".toList] = none ∧
      (pythonProject.exportSession emptyTree (some "../../a")).1.fileAt? ["p".toList, "a.jsonl".toList]
        = some (.file []) ∧
      ¬ pythonProject.layout.exportsPlace emptyTree.here <+: ["p".toList, "a.jsonl".toList] ∧
      "a" ≠ "./a" ∧
      placeOf emptyTree.here (pythonProject.layout.exportFile "a")
        = placeOf emptyTree.here (pythonProject.layout.exportFile "./a") := by
  have hplace : pythonProject.layout.exportsPlace emptyTree.here
      = ["p".toList, ".vigil".toList, "exports".toList] := rfl
  refine ⟨rfl, rfl, ?_, by decide, ?_⟩
  · rw [hplace]
    decide
  · rw [placeOf_exportFile rfl, placeOf_exportFile rfl]
    rfl

end CodeIndex
