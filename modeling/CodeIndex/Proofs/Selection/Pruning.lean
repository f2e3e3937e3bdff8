import Mathlib
import CodeIndex.Proofs.Selection.Discovery
import CodeIndex.Proofs.Selection.Matching

/-!
# Directories that are left out

Discovery does not enter a directory if the globs for what is never indexed match one path in it: the probe,
whose name is an underscore. The fate of the probe is that of every file below the directory if a glob does
not look at what follows the slash before the probe. That is so if it ends in two stars, and a glob that ends
in another character than an underscore does not match a probe (`Glob.isSteady`). A glob such as `**/_*` does
look at the name of the probe: every directory is left out, with files that the glob does not match.

A file is offered if the process can get to it and it is selected when it is asked about by itself. So what is
discovered is what is offered but for the files below a directory that is left out, and nothing is lost if all
globs are steady.

Main results:
  * `prunes_ignores` — with steady globs a directory is left out only if all that is below it is ignored;
  * `discover_among_offered` — what discovery finds, and when it is all that is offered;
  * `selected_file_not_discovered` — a selected file that discovery does not find.
-/

namespace CodeIndex

namespace Glob

open Text (Bytes)

/-! ## §1. Globs that see no difference between files of one directory. -/

/-- Whether a glob decides alike about the probe of a directory and all else that is below it, once it matches
the probe: it ends in two stars, or in a character with which no probe ends. -/
def isSteady (g : Glob) : Bool :=
  match g.pieces.getLast? with
  | none => true
  | some .trailing => true
  | some (.literal c) => c != '_'
  | some .leading => g.pieces.length == 1
  | some _ => false

/-- The name of the probe. -/
def probe : Bytes := [95]

/-- No character but an underscore ends in the byte of an underscore. -/
theorem encode_ends {c : Char} (h : (Text.encode [c]).getLast? = some 95) : c = '_' := by
  have hlast : (String.utf8EncodeChar c).getLast? = some 95 := by simpa [Text.encode] using h
  have hbyte {n : Nat} (hn : UInt8.ofNat n = 95) : n % 256 = 95 := by
    have := congrArg UInt8.toNat hn
    simpa using this
  unfold String.utf8EncodeChar at hlast
  simp only at hlast
  split at hlast
  · have hval : c.val.toNat % 256 = 95 := hbyte (by simpa using hlast)
    refine Char.ext (UInt32.toNat_inj.mp ?_)
    show c.val.toNat = 95
    omega
  · have hbyte := hbyte (n := c.val.toNat % 64 + 128) (by split_ifs at hlast <;> simpa using hlast)
    omega

theorem afterLeading_trailing (front : List GlobPiece) :
    ∃ front', afterLeading (front ++ [GlobPiece.trailing]) = front' ++ [GlobPiece.trailing] := by
  unfold afterLeading
  split
  next rest heq =>
    cases front with
    | nil => exact absurd heq (by simp)
    | cons piece others =>
      injection heq with _ heq
      exact ⟨others, heq.symm⟩
  next => exact ⟨front, rfl⟩

theorem isExtension_trailing (front : List GlobPiece) :
    isExtension (front ++ [GlobPiece.trailing]) = false := by
  unfold isExtension
  split
  next rest heq =>
    rw [List.all_eq_false]
    refine ⟨.trailing, ?_, by simp [isLiteral]⟩
    have hlast := congrArg List.getLast? heq
    rw [List.getLast?_concat] at hlast
    cases rest with
    | nil => exact absurd hlast (by simp)
    | cons a rest =>
      rw [List.getLast?_cons_cons, List.getLast?_cons_cons] at hlast
      exact List.mem_of_getLast? hlast.symm
  next => rfl

/-- A glob that ends in two stars does not look at the name of a path. -/
theorem wayOf_trailing (front : List GlobPiece) :
    (wayOf (front ++ [GlobPiece.trailing])).usesName = false := by
  obtain ⟨front', hrest⟩ := afterLeading_trailing front
  have hwritten (l : List GlobPiece) : (l ++ [GlobPiece.trailing]).all isLiteral = false := by
    simp [isLiteral]
  have hname : isName (front' ++ [GlobPiece.trailing]) = false := by simp [isName, isLiteral]
  have hend : endsInExtension (front ++ [GlobPiece.trailing]).reverse = false := by
    rw [List.reverse_append]; rfl
  unfold wayOf
  simp only [hrest, hname, hwritten, isExtension_trailing, hend, Bool.and_false, Bool.false_eq_true, if_false]
  split <;> rfl

/-- What two stars at the end match below a directory does not depend on what stands there. -/
theorem spells_trailing {front : List GlobPiece} {dir name : Bytes} (hname : slash ∉ name)
    (h : Spells (front ++ [GlobPiece.trailing]) (dir ++ slash :: name)) (rest : Bytes) :
    Spells (front ++ [GlobPiece.trailing]) (dir ++ slash :: rest) := by
  obtain ⟨a, b, hsplit, ha, hb⟩ := (spells_append _ _).mp h
  cases spells_singleton.mp hb with
  | trailing t =>
    -- the slash of the stars is that before the name, or one of the directory
    rcases List.append_eq_append_iff.mp hsplit with ⟨more, rfl, heq⟩ | ⟨more, rfl, heq⟩
    · cases more with
      | nil =>
        rw [List.append_nil] at ha
        exact (spells_append _ _).mpr ⟨dir, slash :: rest, rfl, ha, spells_singleton.mpr (.trailing rest)⟩
      | cons s more =>
        injection heq with _ heq
        exact absurd (heq ▸ List.mem_append_right _ List.mem_cons_self) hname
    · cases more with
      | nil =>
        rw [List.append_nil]
        exact (spells_append _ _).mpr ⟨a, slash :: rest, rfl, ha, spells_singleton.mpr (.trailing rest)⟩
      | cons s more =>
        injection heq with hs heq
        subst hs
        refine (spells_append _ _).mpr ⟨a, slash :: (more ++ slash :: rest), by simp, ha, ?_⟩
        exact spells_singleton.mpr (.trailing _)

/-- **A steady glob** that matches the probe of a directory matches all that is below it. -/
theorem matches_below {g : Glob} (hsteady : g.isSteady = true) {dir : Bytes}
    (h : g.matchesBytes (dir ++ slash :: probe) = true) (rest : Bytes) :
    g.matchesBytes (dir ++ slash :: rest) = true := by
  unfold matchesBytes at h ⊢
  rw [Bool.and_eq_true, coversAll_iff] at h ⊢
  obtain ⟨hcovers, -⟩ := h
  unfold isSteady at hsteady
  rcases List.eq_nil_or_concat g.pieces with hnil | ⟨front, last, hpieces⟩
  · -- no pieces spell nothing
    rw [hnil] at hcovers
    rcases hcovers with hcovers | hcovers
    · exact absurd hcovers (by simp)
    · generalize hpath : dir ++ slash :: probe = path at hcovers
      cases hcovers
      exact absurd hpath (by simp)
  · rw [List.concat_eq_append] at hpieces
    rw [hpieces, List.getLast?_concat] at hsteady
    cases last with
    | trailing =>
      rw [hpieces] at hcovers ⊢
      rw [wayOf_trailing]
      rcases hcovers with hcovers | hcovers
      · exact absurd (congrArg List.getLast? hcovers) (by simp)
      · exact ⟨.inr (spells_trailing (by decide) hcovers rest), by simp⟩
    | literal c =>
      rcases hcovers with hcovers | hcovers
      · rw [hcovers] at hpieces
        exact absurd (congrArg List.getLast? hpieces) (by simp)
      · -- the probe ends in an underscore
        rw [hpieces] at hcovers
        obtain ⟨a, b, hsplit, -, hb⟩ := (spells_append _ _).mp hcovers
        cases spells_singleton.mp hb
        have hne : Text.encode [c] ≠ [] := by simp [Text.encode, String.utf8EncodeChar_ne_nil]
        have hlast := congrArg List.getLast? hsplit
        rw [List.getLast?_append_of_ne_nil a hne, List.getLast?_append_of_ne_nil dir (by simp)] at hlast
        exact absurd hsteady (by simp [encode_ends hlast.symm])
    | leading =>
      have hfront : front = [] := by simpa using hsteady
      subst hfront
      have hway : (wayOf [.leading]).usesName = false := by decide
      rw [hpieces, List.nil_append, hway]
      exact ⟨.inl rfl, by simp⟩
    | _ => exact absurd hsteady (by simp)

end Glob

/-! ## §2. Keys of directories. -/

/-- What is below a directory that is left out is ignored, if all globs are steady. -/
theorem FileFilter.prunes_ignores {f : FileFilter} (hsteady : ∀ g ∈ f.ignore, g.isSteady = true) {dir : String}
    (h : f.prunes dir = true) (rest : List Char) :
    f.ignores (String.ofList (dir.toList ++ '/' :: rest)) = true := by
  unfold prunes ignores anyGlob at h
  obtain ⟨g, hg, hprobe⟩ := List.any_eq_true.mp h
  refine List.any_eq_true.mpr ⟨g, hg, ?_⟩
  unfold Glob.selects at hprobe ⊢
  have hencode (more : List Char) :
      Text.encode (dir.toList ++ '/' :: more) = Text.encode dir.toList ++ Glob.slash :: Text.encode more := by
    simp [Text.encode, Glob.slash, String.utf8EncodeChar]
  rw [String.toList_append] at hprobe
  rw [String.toList_ofList, hencode]
  refine Glob.matches_below (hsteady g hg) ?_ _
  have hname : Text.encode ['_'] = Glob.probe := by decide
  rw [← hname, ← hencode]
  exact hprobe

namespace Path

/-- A leading dot is dropped from the front of a path. -/
theorem dropHere_append {p : List Char} (hempty : p ≠ []) (hdot : p ≠ ['.']) (rest : List Char) :
    dropHere (p ++ '/' :: rest) = dropHere p ++ '/' :: rest := by
  match p, hempty, hdot with
  | [c], _, hdot =>
    have hc : c ≠ '.' := by simpa using hdot
    simp [dropHere, hc]
  | a :: b :: p, _, _ =>
    unfold dropHere
    split
    next more heq =>
      obtain ⟨rfl, rfl, rfl⟩ : a = '.' ∧ b = '/' ∧ p ++ '/' :: rest = more := by simpa using heq
      rfl
    next hother =>
      split
      next more heq =>
        obtain ⟨rfl, rfl, rfl⟩ : a = '.' ∧ b = '/' ∧ p = more := by simpa using heq
        exact absurd rfl (hother _)
      next => rfl

/-- The path that names make has more to it than a dot. -/
theorem Leads.slashed_ne {names : Segments} (h : Leads names) :
    slashed (joinSegments names) ≠ [] ∧ slashed (joinSegments names) ≠ ['.'] := by
  constructor
  · intro hempty
    have hjoined : joinSegments names = [] := List.map_eq_nil_iff.mp hempty
    have hnames := h.segments
    rw [hjoined] at hnames
    exact (h.each [] (by rw [← hnames]; decide)).nonempty rfl
  · intro hdot
    obtain ⟨c, hjoined, hc⟩ : ∃ c, joinSegments names = [c] ∧ (if c == '\\' then '/' else c) = '.' := by
      obtain ⟨c, rest, hjoined, hc, hrest⟩ := List.map_eq_cons_iff.mp hdot
      obtain rfl := List.map_eq_nil_iff.mp hrest
      exact ⟨c, hjoined, hc⟩
    have hcdot : c = '.' := by
      split at hc
      · exact absurd hc (by decide)
      · exact hc
    have hnames := h.segments
    rw [hjoined, hcdot] at hnames
    exact (h.each ['.'] (by rw [← hnames]; decide)).notHere rfl

end Path

variable {names : List (List Char)}

/-- The key of a file starts with those of the directories on the way. -/
theorem relative_below {root : String} (hroot : root ≠ "") (h : Path.Leads names) {above : List (List Char)}
    (habove : above ∈ Walk.ancestors names) :
    ∃ rest, Path.relative root (Walk.pathBelow root names)
      = String.ofList ((Path.relative root (Walk.pathBelow root above)).toList ++ '/' :: rest) := by
  unfold Walk.ancestors at habove
  obtain ⟨i, hi, rfl⟩ := List.mem_map.mp habove
  have hlength : i + 1 < names.length := by
    have := List.mem_range.mp hi
    omega
  have hfront : names.take (i + 1) ≠ [] := by
    rw [ne_eq, List.take_eq_nil_iff]
    rintro (hzero | hnil)
    · omega
    · simp [hnil] at hlength
  have hmore : names.drop (i + 1) ≠ [] := by
    rw [ne_eq, List.drop_eq_nil_iff]
    omega
  have habove : Path.Leads (names.take (i + 1)) := ⟨hfront, fun n hn => h.each n (List.mem_of_mem_take hn)⟩
  refine ⟨Path.slashed (Path.joinSegments (names.drop (i + 1))), ?_⟩
  rw [relative_of_leads hroot h, relative_of_leads hroot habove, String.toList_ofList]
  -- the names of the directory come first, and neither slashing nor a leading dot changes the rest
  have hjoined : Path.joinSegments names
      = Path.joinSegments (names.take (i + 1)) ++ '/' :: Path.joinSegments (names.drop (i + 1)) := by
    rw [← Path.joinSegments_append hfront hmore, List.take_append_drop]
  have hslashed : Path.slashed (Path.joinSegments names)
      = Path.slashed (Path.joinSegments (names.take (i + 1)))
        ++ '/' :: Path.slashed (Path.joinSegments (names.drop (i + 1))) := by
    rw [hjoined]
    unfold Path.slashed
    rw [List.map_append, List.map_cons]
    rfl
  rw [hslashed, Path.dropHere_append habove.slashed_ne.1 habove.slashed_ne.2]

/-! ## §3. Files that are offered. -/

/-- All that is below a directory has proper names. -/
def Disk.ProperBelow (d : Disk) (root : String) : Prop :=
  ∀ start, d.locate root = .ok start →
    ∀ names e, (start ++ names, e) ∈ d.entries → ∀ n ∈ names, Path.IsProper n

theorem Disk.NamedBelow.proper {d : Disk} {root : String} (h : d.NamedBelow root) : d.ProperBelow root :=
  fun start hstart names e hmem n hn => (h start hstart names e hmem n hn).proper

namespace Walk

variable {d : Disk} {f : FileFilter} {root : String} {file : Discovered}

/-- At names below the root, and below no closed directory, stands a regular file that is selected when it is
asked about by itself. -/
structure Offers (d : Disk) (f : FileFilter) (root : String) (names : List (List Char)) (file : Discovered) :
    Prop where
  nonempty : names ≠ []
  stands : ∃ start e, d.locate root = .ok start ∧ (start ++ names, e) ∈ d.entries ∧ e.isDirectory = false
    ∧ isOpen d start names = true
  path : file.path = Path.relative root (pathBelow root names)
  selected : f.classify? file.path = some file.fileClass

/-- With steady globs no file is offered below a directory that is left out. -/
theorem Offers.reaches (hsteady : ∀ g ∈ f.ignore, g.isSteady = true) (hproper : d.ProperBelow root)
    (h : Offers d f root names file) : reaches f root root names = true := by
  obtain ⟨start, e, hstart, hentry, -⟩ := h.stands
  have hleads : Path.Leads names := ⟨h.nonempty, hproper start hstart names e hentry⟩
  unfold Walk.reaches
  rw [List.all_eq_true]
  intro above habove
  obtain ⟨rest, hkey⟩ := relative_below (Disk.locate_eq_ok hstart).1 hleads habove
  by_contra hpruned
  have hpruned : f.prunes (Path.relative root (pathBelow root above)) = true := by simpa using hpruned
  -- the key of the file starts with that of the directory, so the file is ignored with it
  have hignored := FileFilter.prunes_ignores hsteady hpruned rest
  rw [← hkey, ← h.path] at hignored
  have hselected := h.selected
  unfold FileFilter.classify? at hselected
  rw [if_pos hignored] at hselected
  exact absurd hselected (by simp)

/-- A walk finds the files that are offered and that it reaches. -/
theorem found?_iff_offers {start : Location} (hstart : d.locate root = .ok start) :
    (∃ entry ∈ d.entries, found? d f root root start entry = some file)
      ↔ ∃ names, Offers d f root names file ∧ reaches f root root names = true := by
  constructor
  · rintro ⟨⟨place, e⟩, hentry, hfound⟩
    obtain ⟨hfile, names, rfl, hne, hopen, hreaches, hpath, hclass⟩ := found?_eq_some.mp hfound
    exact ⟨names, ⟨hne, ⟨start, e, hstart, hentry, hfile, hopen⟩, hpath, hclass⟩, hreaches⟩
  · rintro ⟨names, ⟨hne, ⟨start', e, hstart', hentry, hfile, hopen⟩, hpath, hclass⟩, hreaches⟩
    obtain rfl : start = start' := Except.ok.inj (hstart.symm.trans hstart')
    exact ⟨_, hentry, found?_eq_some.mpr ⟨hfile, names, rfl, hne, hopen, hreaches, hpath, hclass⟩⟩

/-- Files at different places are found under different keys. -/
theorem found?_paths {start : Location} (hstart : d.locate root = .ok start) (hnamed : d.NamedBelow root)
    (hplaces : (d.entries.map (·.1)).Nodup) :
    (d.entries.filterMap (found? d f root root start)).Pairwise fun a b => a.path ≠ b.path := by
  rw [List.pairwise_filterMap]
  have hapart : d.entries.Pairwise fun a b => a.1 ≠ b.1 := List.pairwise_map.mp hplaces
  refine hapart.imp_of_mem ?_
  rintro ⟨place, e⟩ ⟨place', e'⟩ hentry hentry' hne file hfound file' hfound' hpath
  obtain ⟨-, names, rfl, hnonempty, -, -, hkey, -⟩ := found?_eq_some.mp hfound
  obtain ⟨-, names', rfl, hnonempty', -, -, hkey', -⟩ := found?_eq_some.mp hfound'
  have hnames : Path.AreNames names := ⟨hnonempty, hnamed start hstart names e hentry⟩
  have hnames' : Path.AreNames names' := ⟨hnonempty', hnamed start hstart names' e' hentry'⟩
  rw [hkey, hkey', relative_pathBelow (Disk.locate_eq_ok hstart).1 hnames,
    relative_pathBelow (Disk.locate_eq_ok hstart).1 hnames'] at hpath
  -- the names are the segments of the key
  have hsame : names = names' := by
    rw [← hnames.leads.segments, ← hnames'.leads.segments, String.ofList_injective hpath]
  exact hne (by rw [hsame])

end Walk

/-! ## §4. What discovery finds. -/

theorem sortDiscovered_sorted (files : List Discovered) :
    (sortDiscovered files).Pairwise fun a b => a.path ≤ b.path := by
  have hpairwise := @List.pairwise_mergeSort _ (fun a b : Discovered => decide (a.path ≤ b.path))
    (fun a b c hab hbc => by simpa using le_trans (by simpa using hab) (by simpa using hbc))
    (fun a b => by simpa using le_total a.path b.path) files
  exact hpairwise.imp (by simp)

theorem sortDiscovered_strict {files : List Discovered} (h : files.Pairwise fun a b => a.path ≠ b.path) :
    (sortDiscovered files).Pairwise fun a b => a.path < b.path := by
  have hapart : (sortDiscovered files).Pairwise fun a b => a.path ≠ b.path :=
    (List.mergeSort_perm files _).symm.pairwise h Ne.symm
  exact ((sortDiscovered_sorted files).and hapart).imp fun hab => lt_of_le_of_ne hab.1 hab.2

/-- **What discovery finds** below a root that is not closed: the files that are offered and not below a directory that is left
out, in the order of their keys. With steady globs these are all that are offered. Each key is there once if
no name holds a backslash. -/
theorem discover_among_offered {d : Disk} {f : FileFilter} {root : String} (hdir : d.entry root = .ok .directory)
    (hproper : d.ProperBelow root) :
    ∃ files, discover d f root root = .ok files
      ∧ files.Pairwise (fun a b => a.path ≤ b.path)
      ∧ (∀ file, file ∈ files ↔ ∃ names, Walk.Offers d f root names file
          ∧ Walk.reaches f root root names = true)
      ∧ ((∀ g ∈ f.ignore, g.isSteady = true) →
          ∀ file, file ∈ files ↔ ∃ names, Walk.Offers d f root names file)
      ∧ (d.NamedBelow root → (d.entries.map (·.1)).Nodup →
          files.Pairwise fun a b => a.path < b.path) := by
  obtain ⟨start, hstart, hat⟩ := Disk.entry_eq_ok hdir
  have hmem (file : Discovered) :
      file ∈ sortDiscovered (d.entries.filterMap (Walk.found? d f root root start))
        ↔ ∃ names, Walk.Offers d f root names file ∧ Walk.reaches f root root names = true := by
    unfold sortDiscovered
    rw [List.mem_mergeSort, List.mem_filterMap]
    exact Walk.found?_iff_offers hstart
  refine ⟨_, ?_, sortDiscovered_sorted _, hmem, ?_, ?_⟩
  · unfold discover
    rw [hstart]
    simp only [hat]
  · intro hsteady file
    rw [hmem]
    constructor
    · rintro ⟨names, hoffers, -⟩
      exact ⟨names, hoffers⟩
    · rintro ⟨names, hoffers⟩
      exact ⟨names, hoffers, hoffers.reaches hsteady hproper⟩
  · intro hnamed hplaces
    exact sortDiscovered_strict (Walk.found?_paths hstart hnamed hplaces)

/-- The globs that hold where none are given are steady. -/
example : (Config.default.ignoreGlobs.all fun pattern => (Glob.read? pattern).any (·.isSteady)) = true := by
  decide

/-- Two source files, one of them below a directory. -/
def nestedTree : Disk :=
  ⟨[([['p']], .directory), ([['p'], ['s', 'r', 'c']], .directory),
    ([['p'], ['s', 'r', 'c'], ['a', '.', 'p', 'y']], .file []), ([['p'], ['b', '.', 'p', 'y']], .file [])], []⟩

/-- All source files but those below `out`. -/
def outConfig : Config := ⟨[("python", ["**/*.py"])], [], ["**/out/**"], 10, 1000, Thresholds.default⟩

def outFilter : FileFilter :=
  ⟨[⟨[.leading, .run, .literal '.', .literal 'p', .literal 'y']⟩], [],
    [⟨[.leading, .literal 'o', .literal 'u', .literal 't', .trailing]⟩]⟩

theorem nestedTree_named : nestedTree.NamedBelow "/p" := Disk.NamedBelow.of_entries (by decide)

theorem discover_among_offered_outside_of_out :
    FileFilter.ofConfig outConfig = .ok outFilter ∧ nestedTree.entry "/p" = .ok .directory
      ∧ nestedTree.ProperBelow "/p"
      ∧ ∃ files, discover nestedTree outFilter "/p" "/p" = .ok files
        ∧ files.Pairwise (fun a b => a.path < b.path)
        ∧ ∀ file, file ∈ files ↔ ∃ names, Walk.Offers nestedTree outFilter "/p" names file := by
  have hdir : nestedTree.entry "/p" = .ok .directory := rfl
  have hproper : nestedTree.ProperBelow "/p" := nestedTree_named.proper
  obtain ⟨files, hfiles, -, -, hsteady, hstrict⟩ := discover_among_offered (f := outFilter) hdir hproper
  exact ⟨rfl, hdir, hproper, files, hfiles, hstrict nestedTree_named (by decide), hsteady (by decide)⟩

/-- All source files but those whose names start with an underscore. -/
def underscoreConfig : Config := ⟨[("python", ["**/*.py"])], [], ["**/_*"], 10, 1000, Thresholds.default⟩

def underscoreFilter : FileFilter :=
  ⟨[⟨[.leading, .run, .literal '.', .literal 'p', .literal 'y']⟩], [], [⟨[.leading, .literal '_', .run]⟩]⟩

/-- **A selected file that discovery does not find.** The probe of its directory starts with an underscore,
which the file does not. -/
theorem selected_file_not_discovered :
    FileFilter.ofConfig underscoreConfig = .ok underscoreFilter
      ∧ Walk.Offers nestedTree underscoreFilter "/p" [['s', 'r', 'c'], ['a', '.', 'p', 'y']] ⟨"src/a.py", .code⟩
      ∧ discover nestedTree underscoreFilter "/p" "/p" = .ok [⟨"b.py", .code⟩] := by
  refine ⟨rfl, ⟨by decide, ⟨[['p']], .file [], by decide, by simp [nestedTree], rfl, by decide⟩, by decide, by decide⟩,
    ?_⟩
  have hfound : nestedTree.entries.filterMap (Walk.found? nestedTree underscoreFilter "/p" "/p" [['p']])
      = [⟨"b.py", .code⟩] := by decide
  have hstart : nestedTree.locate "/p" = .ok [['p']] := by decide
  unfold discover
  rw [hstart]
  simp only [hfound, sortDiscovered, List.mergeSort_singleton]
  rfl

end CodeIndex
