import Mathlib
import CodeIndex.Proofs.Project.LastWrite
import CodeIndex.Proofs.Selection.Spelling
import CodeIndex.Proofs.Session.Redundancy

/-!
# One file under one key

A project and its observers turn a path into its key before they do anything with it, and some of them do
so twice, or put the root in front of it first. So a file that is spelled plainly is one file for all of
them: it has one row, and its accesses are counted together. Another spelling can be another file.

Main results: `spellings_address_one_file`, `same_file_under_other_keys`.
-/

open CodeIndex.Path (AreNames Spells SpellsPlainly EndsIn)

namespace CodeIndex

/-! ## §1. Projects. -/

/-- What a project does with a path is what it does with a key. -/
structure Project.Addresses (p : Project) (key path : String) : Prop where
  index : ∀ d c force now, p.index d c path force now = p.index d c key force now
  /-- No rows but those of the key are written. -/
  rows : p.Good → ∀ d c force now other, other ≠ key →
    (p.index d c path force now).1.store.page other = p.store.page other
  remove : ∀ now, p.removeFile path now = p.removeFile key now
  watch : ∀ d kind now, p.onWatchEvent d ⟨kind, path⟩ now = p.onWatchEvent d ⟨kind, key⟩ now
  compare : ∀ symbols, p.computeDiff path symbols = p.computeDiff key symbols
  resolve : ∀ d, p.resolveFile d path = p.resolveFile d key
  dependencies : p.dependenciesOf path = p.dependenciesOf key
  importers : p.importedBy path = p.importedBy key
  symbols : p.symbolsIn path = p.symbolsIn key

theorem Project.addresses {p : Project} {key path : String} (hpath : p.indexer.relative path = key)
    (hkey : p.indexer.relative key = key) : p.Addresses key path where
  index d c force now := by
    unfold index
    rw [hpath, hkey]
  rows hgood d c force now other hother := by
    have hleaves := index_leaves hgood d c path force now other
    have hkept : p.indexEffect d c key force other = .kept := by
      unfold indexEffect Effect.on
      rw [if_neg (Ne.symm hother), ite_self]
    rw [hpath, hkept] at hleaves
    exact hleaves.page_of_kept
  remove now := by
    unfold removeFile
    rw [hpath, hkey]
  watch d kind now := by
    unfold onWatchEvent onFileWritten removeFile
    simp only [hpath, hkey]
  compare symbols := by
    unfold computeDiff
    rw [hpath, hkey]
  resolve d := by
    unfold resolveFile
    rw [hpath, hkey]
  dependencies := by
    unfold dependenciesOf
    rw [hpath, hkey]
  importers := by
    unfold importedBy
    rw [hpath, hkey]
  symbols := by
    unfold symbolsIn
    rw [hpath, hkey]

/-- A path that is added to a pass stands for a key. -/
structure Indexer.Adds (x : Indexer) (key path : String) : Prop where
  /-- It is taken as it is, unless it leads to a directory. -/
  expand : ∀ d, d.isDirectory (x.place path) = false → x.expand d path = .ok [⟨key, x.filter.classOf key⟩]
  /-- So a pass does the same with the key in its place. -/
  pass : ∀ d s force before after, d.isDirectory (x.place path) = false → d.isDirectory (x.place key) = false →
    x.indexAll d s ⟨force, before ++ path :: after⟩ = x.indexAll d s ⟨force, before ++ key :: after⟩

theorem Indexer.adds {x : Indexer} {key path : String} (hpath : x.relative (x.place path) = key)
    (hkey : x.relative (x.place key) = key) : x.Adds key path := by
  have hexpand : ∀ {name : String}, x.relative (x.place name) = key → ∀ d : Disk,
      d.isDirectory (x.place name) = false → x.expand d name = .ok [⟨key, x.filter.classOf key⟩] := by
    intro name hname d hfile
    unfold expand
    simp only [hfile, hname]
    rfl
  refine ⟨hexpand hpath, fun d s force before after hfile hkeyFile => ?_⟩
  have hselected : x.selected d (before ++ path :: after) = x.selected d (before ++ key :: after) := by
    unfold selected
    simp only [List.mapM_append, List.mapM_cons, hexpand hpath d hfile, hexpand hkey d hkeyFile]
  unfold indexAll
  simp only [hselected]

/-! ## §2. Observers. -/

/-- Two calls that differ in how they spell their file, if in anything. -/
structure ToolCall.SameButFile (call other : ToolCall) : Prop where
  tool : call.tool = other.tool
  result : call.result = other.result
  isError : call.isError = other.isError
  symbol : call.symbolArg? = other.symbolArg?
  query : call.queryArg? = other.queryArg?

/-- A call about a path is a call about a key. -/
structure Observer.Hears (o : Observer) (key path : String) : Prop where
  /-- Whatever the tool does, it is observed in the same way. -/
  alike : ∀ d s call other now, ToolCall.SameButFile call other → call.targetFile? = some path →
    other.targetFile? = some key → o.onToolCall d s call now = o.onToolCall d s other now
  /-- A lookup that finds something counts as an access to the key. -/
  counted : ∀ d s call now, o.Ready s → call.targetFile? = some path → call.isError = false →
    call.kind = .lookup → call.foundNothing = false →
    (o.onToolCall d s call now).1.tally = o.tally.recordAccess key call.symbolArg?

theorem Observer.hears {o : Observer} {key path : String} (hpath : Path.relative o.root path = key)
    (hkey : Path.relative o.root key = key) : o.Hears key path where
  alike d s call other now hsame hcall hother := by
    obtain ⟨tool, args, result, isError⟩ := call
    obtain ⟨tool', args', result', isError'⟩ := other
    obtain ⟨rfl, rfl, rfl, hsymbol, hquery⟩ := hsame
    unfold onToolCall onLookup onSearch onError
    simp only [hcall, hother, Option.map_some, hpath, hkey, hsymbol, hquery]
    rfl
  counted d s call now hready hcall hfails hkind hfound := by
    have hcounted : call.countedAs? o.root = some (.access key call.symbolArg?) := by
      simp [ToolCall.countedAs?, hfails, hkind, hfound, hcall, hpath]
    have hlives := onToolCall_lives hready d call now
    generalize hstanding : (o.onToolCall d s call now).1.standing (o.onToolCall d s call now).2 = is at hlives
    have htally : (o.onToolCall d s call now).1.tally = is.tally := congrArg Standing.tally hstanding
    rw [htally]
    cases hlives with
    | uncounted counted => exact absurd (hcounted.symm.trans counted) (by simp)
    | access counted =>
      obtain ⟨rfl, rfl⟩ := CountedAs.access.inj (Option.some.inj (hcounted.symm.trans counted))
      rfl
    | failedSearch counted => exact absurd (hcounted.symm.trans counted) (by simp)
    | failure details counted => exact absurd (hcounted.symm.trans counted) (by simp)

/-! ## §3. Spellings. -/

namespace Path

variable {root path : String} {names : List (List Char)}

/-- The key is a spelling of its file. -/
theorem AreNames.spells (h : AreNames names) (root : String) : Spells root names (keyOf names) := by
  refine .alone ?_ ?_
  · rw [keyOf, String.toList_ofList]
    exact h.leads.relative
  · rw [keyOf, String.toList_ofList, h.leads.segments]
    exact h.leads.located_eq

/-- Nothing stands between the names of a plain spelling. -/
theorem SpellsPlainly.endsIn (hnames : AreNames names) (h : SpellsPlainly root names path) :
    EndsIn (segments path.toList) names := by
  cases h with
  | below h hends => exact hends
  | key h =>
    rw [h, keyOf, String.toList_ofList, hnames.leads.segments]
    exact ⟨[], [], by simp, by simp⟩
  | here h =>
    have htext : path.toList = ['.'] ++ '/' :: joinSegments names := by
      rw [h, keyOf]
      simp
    refine ⟨[['.']], [], ?_, by simp⟩
    rw [htext, segments_append, hnames.leads.segments, List.append_nil]
    rfl

/-- The root stays in front of a spelling, or is put there, and then the spelling is plain if nothing stands
between the names. -/
theorem Spells.relative_under (hroot : isAbsolute root.toList = true) (hnames : AreNames names)
    (h : Spells root names path) (hends : EndsIn (segments path.toList) names) :
    relative root (under root path) = keyOf names := by
  cases h with
  | below h =>
    have habsolute : isAbsolute path.toList = true := by
      by_contra hrelative
      obtain ⟨_, _, _, _, hstrip⟩ := strip?_of_below hroot h
      rw [strip?_of_relative hroot (by simpa using hrelative)] at hstrip
      exact absurd hstrip (by simp)
    have hunder : under root path = path := by
      unfold under join
      rw [if_pos habsolute, String.ofList_toList]
    rw [hunder]
    exact SpellsPlainly.relative_eq hroot hnames (.below h hends)
  | alone hrelative h =>
    obtain ⟨hbelow, hstill⟩ := under_spells hroot hrelative h
    exact SpellsPlainly.relative_eq hroot hnames (.below hbelow (hstill hends))

end Path

/-- Whatever is done with a path in the project at a root is done with a key. -/
structure OneFile (root key path : String) : Prop where
  project : ∀ p : Project, p.root = root → p.Addresses key path
  pass : ∀ x : Indexer, x.root = root → x.Adds key path
  observer : ∀ o : Observer, o.root = root → o.Hears key path

/-- **Plain spellings address one file.** In the project at an absolute root, take any path that is made of
the names of a file, with the root in front of them or without it, and segments that stand for nothing. Its
key is the names with slashes between them if and only if it is spelled plainly: nothing stands between the
names, and without the root nothing around them but one leading dot. Then all that is done with the path is
done with that key. A path that is added to a pass stands for it wherever nothing stands between the names.
The key of the path is its own key, unless the path starts with a dot and goes on with a void segment. -/
theorem spellings_address_one_file {root path : String} {names : List (List Char)}
    (hroot : Path.isAbsolute root.toList = true) (hnames : AreNames names) (h : Spells root names path) :
    (Path.relative root path = keyOf names ↔ SpellsPlainly root names path)
      ∧ (SpellsPlainly root names path → OneFile root (keyOf names) path)
      ∧ (EndsIn (Path.segments path.toList) names →
        ∀ x : Indexer, x.root = root → x.Adds (keyOf names) path)
      ∧ ((∀ s rest, Path.segments path.toList = ['.'] :: s :: rest → Path.isVoid s = false) →
        Path.relative root (Path.relative root path) = Path.relative root path) := by
  have hkey : Path.relative root (keyOf names) = keyOf names := SpellsPlainly.relative_eq hroot hnames (.key rfl)
  have hadds : EndsIn (Path.segments path.toList) names →
      ∀ x : Indexer, x.root = root → x.Adds (keyOf names) path := by
    rintro hends x rfl
    have hkeyPlain : SpellsPlainly x.root names (keyOf names) := .key rfl
    exact Indexer.adds (h.relative_under hroot hnames hends)
      ((hnames.spells x.root).relative_under hroot hnames (hkeyPlain.endsIn hnames))
  refine ⟨h.relative_eq_iff hroot hnames, fun hplain => ?_, hadds, h.relative_relative hroot hnames⟩
  have hpath := hplain.relative_eq hroot hnames
  refine ⟨?_, hadds (hplain.endsIn hnames), ?_⟩
  · rintro p rfl
    exact Project.addresses hpath hkey
  · rintro o rfl
    exact Observer.hears hpath hkey

/-- The names of a file in a directory. -/
def srcNames : List (List Char) := [['s', 'r', 'c'], ['a', '.', 't', 'x', 't']]

theorem spellings_address_one_file_with_dots_and_slashes :
    (Path.isAbsolute "/p".toList = true ∧ AreNames srcNames ∧ Spells "/p" srcNames "//p/.//src/a.txt/.")
    ∧ Path.relative "/p" "//p/.//src/a.txt/." = "src/a.txt"
    ∧ OneFile "/p" "src/a.txt" "//p/.//src/a.txt/." := by
  have hnames : AreNames srcNames := ⟨by decide, by decide⟩
  have hspells : Spells "/p" srcNames "//p/.//src/a.txt/." := .below (by decide)
  have hkey : keyOf srcNames = "src/a.txt" := by decide
  have hrelative : Path.relative "/p" "//p/.//src/a.txt/." = keyOf srcNames := by decide
  refine ⟨⟨by decide, hnames, hspells⟩, hrelative.trans hkey, ?_⟩
  obtain ⟨hplain, hone, -, -⟩ := spellings_address_one_file (by decide) hnames hspells
  exact hkey ▸ hone (hplain.mp hrelative)

/-- A disk with that file. -/
def srcTree : Disk :=
  ⟨[([['p']], .directory), ([['p'], ['s', 'r', 'c']], .directory),
    ([['p'], ['s', 'r', 'c'], ['a', '.', 't', 'x', 't']], .file [97])], []⟩

/-- **One file under several keys.** Slashes between the names stay in the key, and so does a second leading
dot, which is dropped when the key is taken for a path. A file that is indexed under two spellings has two
rows. -/
theorem same_file_under_other_keys :
    (Spells "/p" srcNames "src//a.txt" ∧ Path.relative "/p" "src//a.txt" = "src//a.txt")
    ∧ (Spells "/p" srcNames "/p/src/./a.txt" ∧ Path.relative "/p" "/p/src/./a.txt" = "src/./a.txt")
    ∧ (Spells "/p" srcNames "././src/a.txt" ∧ Path.relative "/p" "././src/a.txt" = "./src/a.txt"
      ∧ Path.relative "/p" "./src/a.txt" = "src/a.txt")
    ∧ (((pythonProject.index srcTree .doc "src/a.txt" false 0).1.index srcTree .doc "src//a.txt" false
        1).1.store.files.map (·.path)) = ["src/a.txt", "src//a.txt"] := by
  refine ⟨⟨.alone (by decide) (by decide), by decide⟩, ⟨.below (by decide), by decide⟩,
    ⟨.alone (by decide) (by decide), by decide, by decide⟩, by decide +kernel⟩

end CodeIndex
