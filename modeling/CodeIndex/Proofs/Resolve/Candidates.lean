import Mathlib
import CodeIndex.Proofs.Selection.Pruning
import CodeIndex.Proofs.Selection.Spelling
import CodeIndex.Proofs.Store.Tables
import CodeIndex.Resolve.Candidate

/-!
# The candidates of an import

A relative import is a way from a directory of the project to a file. The way climbs above the root if
some first part of it goes up more often than it goes down (`Climbs`), and then there are no candidates.
Otherwise it folds to proper names, and everything that is tried is made of proper names again, whatever
the importing file and the specifier are: what is put after a path or taken off its end stays within its
last name. In the other direction every file can be named from every other: up out of each directory that
the two do not share, and down to the file (`wayTo`).

Main results:
  * `foldlM_step?_eq_none_iff` — a way has no end if and only if it climbs;
  * `leads_of_mem_spellings` — what names may stand for is made of names;
  * `target?_wayTo` — the way from one file to another folds to the other;
  * `candidates_confined_and_complete` — the candidates stay in the project and reach each of its files.
-/

namespace CodeIndex

namespace Path

/-! ## §1. The last segment of a path. -/

/-- A segment of three characters is none of the short ones that stand for something else. -/
theorem IsProper.of_length {n : List Char} (hlength : 3 ≤ n.length) (hslash : '/' ∉ n) : IsProper n := by
  refine ⟨?_, ?_, ?_, hslash⟩ <;> rintro rfl <;> simp at hlength

theorem joinSegments_cons (first : List Char) {rest : Segments} (hrest : rest ≠ []) :
    joinSegments (first :: rest) = first ++ '/' :: joinSegments rest := by
  rw [joinSegments, List.intercalate_cons_of_ne_nil hrest, List.append_assoc]
  rfl

/-- What is put after a path is put after its last segment. -/
theorem joinSegments_extend (front : Segments) (last more : List Char) :
    joinSegments (front ++ [last]) ++ more = joinSegments (front ++ [last ++ more]) := by
  by_cases hfront : front = []
  · subst hfront
    simp only [List.nil_append, joinSegments, List.intercalate_singleton]
  · rw [joinSegments_append hfront (by simp), joinSegments_append hfront (by simp)]
    simp only [joinSegments, List.intercalate_singleton, List.append_assoc, List.cons_append]

/-- An end of a path without a slash is an end of its last segment. -/
theorem suffix_last {front : Segments} {last piece : List Char} (hslash : '/' ∉ piece)
    (h : piece <:+ joinSegments (front ++ [last])) : piece <:+ last := by
  by_cases hfront : front = []
  · subst hfront
    simpa [joinSegments, List.intercalate_singleton] using h
  · rw [joinSegments_append hfront (by simp), joinSegments, joinSegments, List.intercalate_singleton] at h
    rcases List.suffix_or_suffix_of_suffix h (List.suffix_append _ ('/' :: last)) with hshort | hlong
    · rcases List.suffix_cons_iff.mp hshort with rfl | hlast
      · exact absurd List.mem_cons_self hslash
      · exact hlast
    · exact absurd (hlong.subset List.mem_cons_self) hslash

theorem Leads.joinSegments_ne_nil {names : Segments} (h : Leads names) : joinSegments names ≠ [] := by
  intro hempty
  have hvoid : Path.segments [] = [[]] := by decide
  have hsegments := h.segments
  rw [hempty, hvoid] at hsegments
  exact (h.each [] (by simp [← hsegments])).nonempty rfl

/-- Names lead on to one more. -/
theorem leads_concat {front : Segments} {last : List Char} (hfront : ∀ n ∈ front, IsProper n)
    (hlast : IsProper last) : Leads (front ++ [last]) := by
  refine ⟨by simp, fun n hn => ?_⟩
  rcases List.mem_append.mp hn with hn | hn
  · exact hfront n hn
  · exact List.mem_singleton.mp hn ▸ hlast

end Path

namespace Resolve

open CodeIndex.Path (Segments IsProper joinSegments)

/-! ## §2. Folding. -/

/-- A segment that leads into an entry of a directory. -/
def goesDown (segment : List Char) : Bool :=
  segment != [] && segment != ['.'] && segment != ['.', '.']

/-- Some first part of the way goes up more often than it goes down. -/
def Climbs (way : Segments) : Prop :=
  ∃ part, part <+: way ∧ part.countP goesDown < part.count ['.', '.']

variable {place next : Segments} {segment : List Char}

/-- A step stays where it is, goes up, or goes down. -/
theorem step?_cases (place : Segments) (segment : List Char) :
    (goesDown segment = false ∧ segment ≠ ['.', '.'] ∧ step? place segment = some place)
    ∨ (segment = ['.', '.'] ∧ step? place segment = match place with
        | [] => none
        | _ :: outer => some outer)
    ∨ (goesDown segment = true ∧ segment ≠ ['.', '.'] ∧ step? place segment = some (segment :: place)) := by
  unfold step?
  by_cases hempty : segment = []
  · exact .inl ⟨by simp [goesDown, hempty], by simp [hempty], if_pos hempty⟩
  by_cases hhere : segment = ['.']
  · exact .inl ⟨by simp [goesDown, hhere], by simp [hhere], by rw [if_neg hempty, if_pos hhere]⟩
  rw [if_neg hempty, if_neg hhere]
  by_cases hup : segment = ['.', '.']
  · exact .inr (.inl ⟨hup, if_pos hup⟩)
  · exact .inr (.inr ⟨by simp [goesDown, hempty, hhere, hup], hup, if_neg hup⟩)

theorem exists_prefix_cons {P : Segments → Prop} {way : Segments} (hnil : ¬ P []) :
    (∃ part, part <+: segment :: way ∧ P part) ↔ ∃ part, part <+: way ∧ P (segment :: part) := by
  constructor
  · rintro ⟨part, hpart, h⟩
    rcases List.prefix_cons_iff.mp hpart with rfl | ⟨rest, rfl, hrest⟩
    · exact absurd h hnil
    · exact ⟨rest, hrest, h⟩
  · rintro ⟨part, hpart, h⟩
    exact ⟨segment :: part, List.cons_prefix_cons.mpr ⟨rfl, hpart⟩, h⟩

/-- **A way has no end** if and only if some first part of it leads up past the root. -/
theorem foldlM_step?_eq_none_iff (way : Segments) : ∀ place : Segments,
    way.foldlM step? place = none ↔
      ∃ part, part <+: way ∧ place.length + part.countP goesDown < part.count ['.', '.'] := by
  induction way with
  | nil => intro place; simp
  | cons segment way ih =>
    intro place
    rw [List.foldlM_cons, exists_prefix_cons (by simp)]
    rcases step?_cases place segment with ⟨hdown, hup, hstep⟩ | ⟨rfl, hstep⟩ | ⟨hdown, hup, hstep⟩
    · rw [hstep]
      show way.foldlM step? place = none ↔ _
      rw [ih place]
      simp only [List.countP_cons_of_neg (by simpa using hdown), List.count_cons_of_ne hup]
    · have hdown : goesDown ['.', '.'] = false := by decide
      simp only [List.countP_cons_of_neg (by simpa using hdown), List.count_cons_self]
      cases place with
      | nil =>
        -- the way climbs right here
        rw [hstep]
        exact iff_of_true rfl ⟨[], List.nil_prefix, by simp⟩
      | cons inner outer =>
        rw [hstep]
        show way.foldlM step? outer = none ↔ _
        rw [ih outer]
        simp only [List.length_cons]
        refine exists_congr fun part => and_congr_right fun _ => ?_
        omega
    · rw [hstep]
      show way.foldlM step? (segment :: place) = none ↔ _
      rw [ih (segment :: place)]
      simp only [List.countP_cons_of_pos hdown, List.count_cons_of_ne hup, List.length_cons]
      refine exists_congr fun part => and_congr_right fun _ => ?_
      omega

/-- A step leads to a place that is given by proper names. -/
theorem step?_proper (hplace : ∀ n ∈ place, IsProper n) (hslash : '/' ∉ segment)
    (h : step? place segment = some next) : ∀ n ∈ next, IsProper n := by
  rcases step?_cases place segment with ⟨_, _, hstep⟩ | ⟨_, hstep⟩ | ⟨hdown, _, hstep⟩
  · rw [hstep] at h
    exact Option.some.inj h ▸ hplace
  · rw [hstep] at h
    cases place with
    | nil => exact absurd h (by simp)
    | cons inner outer => exact Option.some.inj h ▸ fun n hn => hplace n (List.mem_cons_of_mem _ hn)
  · rw [hstep] at h
    obtain rfl := Option.some.inj h
    simp only [goesDown, Bool.and_eq_true, bne_iff_ne, ne_eq] at hdown
    obtain ⟨⟨hempty, hhere⟩, hup⟩ := hdown
    intro n hn
    rcases List.mem_cons.mp hn with rfl | hn
    · exact ⟨hempty, hhere, hup, hslash⟩
    · exact hplace n hn

/-- The end of a way is given by proper names. -/
theorem foldlM_step?_proper (way : Segments) : ∀ {place : Segments}, (∀ n ∈ place, IsProper n) →
    (∀ s ∈ way, '/' ∉ s) → way.foldlM step? place = some next → ∀ n ∈ next, IsProper n := by
  induction way with
  | nil =>
    intro place hplace _ h
    exact Option.some.inj h ▸ hplace
  | cons segment way ih =>
    intro place hplace hslash h
    rw [List.foldlM_cons] at h
    obtain ⟨mid, hmid, h⟩ := Option.bind_eq_some_iff.mp h
    exact ih (step?_proper hplace (hslash segment List.mem_cons_self) hmid)
      (fun s hs => hslash s (List.mem_cons_of_mem _ hs)) h

/-- Proper names lead down. -/
theorem foldlM_step?_names (names : Segments) (h : ∀ n ∈ names, IsProper n) :
    ∀ place : Segments, names.foldlM step? place = some (names.reverse ++ place) := by
  induction names with
  | nil => intro place; rfl
  | cons n rest ih =>
    intro place
    have hn := h n List.mem_cons_self
    have hstep : step? place n = some (n :: place) := by
      unfold step?
      rw [if_neg hn.nonempty, if_neg hn.notHere, if_neg hn.notUp]
    rw [List.foldlM_cons, hstep]
    show rest.foldlM step? (n :: place) = _
    rw [ih fun m hm => h m (List.mem_cons_of_mem _ hm), List.reverse_cons, List.append_assoc,
      List.singleton_append]

/-- The segments that go up a number of times; a `.` stands for staying in the directory. -/
def ascent (count : Nat) : Segments :=
  if count = 0 then [['.']] else List.replicate count ['.', '.']

theorem ascent_ne_nil (count : Nat) : ascent count ≠ [] := by
  unfold ascent
  split_ifs with hzero
  · simp
  · simp [hzero]

/-- Each step up leaves one directory, until the root is reached. -/
theorem foldlM_step?_ups (count : Nat) : ∀ place : Segments,
    (List.replicate count ['.', '.']).foldlM step? place
      = if count ≤ place.length then some (place.drop count) else none := by
  induction count with
  | zero => intro place; simp
  | succ count ih =>
    intro place
    rw [List.replicate_succ, List.foldlM_cons]
    cases place with
    | nil => rfl
    | cons inner outer =>
      show (List.replicate count ['.', '.']).foldlM step? outer = _
      rw [ih outer]
      simp only [List.length_cons, List.drop_succ_cons, Nat.add_le_add_iff_right]

theorem foldlM_step?_ascent (count : Nat) (place : Segments) :
    (ascent count).foldlM step? place
      = if count ≤ place.length then some (place.drop count) else none := by
  unfold ascent
  split_ifs with hzero hroot hroot
  · subst hzero
    rfl
  · omega
  · rw [foldlM_step?_ups, if_pos hroot]
  · rw [foldlM_step?_ups, if_neg hroot]

/-- **Up and down again**: a way out of some directories and into others ends in what is left of the ones
before the others, unless it goes up more often than there are directories. -/
theorem fold?_ascent {directories rest : Segments} (count : Nat) (hdirectories : ∀ n ∈ directories, IsProper n)
    (hrest : ∀ n ∈ rest, IsProper n) :
    fold? (directories ++ (ascent count ++ rest))
      = if count ≤ directories.length then some (directories.take (directories.length - count) ++ rest)
        else none := by
  unfold fold?
  rw [List.foldlM_append, foldlM_step?_names _ hdirectories, List.append_nil]
  show Option.map List.reverse ((ascent count ++ rest).foldlM step? directories.reverse) = _
  rw [List.foldlM_append, foldlM_step?_ascent, List.length_reverse]
  split_ifs with hroot
  · show Option.map List.reverse (rest.foldlM step? (directories.reverse.drop count)) = _
    rw [foldlM_step?_names _ hrest, Option.map_some, List.reverse_append, List.reverse_reverse,
      List.drop_reverse, List.reverse_reverse]
  · rfl

variable {importer specifier : String} {names : Segments}

theorem target?_eq_none_iff :
    target? importer specifier = none
      ↔ Climbs (directory importer ++ Path.segments specifier.toList) := by
  rw [target?, fold?, Option.map_eq_none_iff, foldlM_step?_eq_none_iff]
  simp only [List.length_nil, Nat.zero_add]
  rfl

/-- The segments of a directory and of a specifier are told apart by slashes. -/
theorem target?_proper (h : target? importer specifier = some names) : ∀ n ∈ names, IsProper n := by
  obtain ⟨place, hplace, rfl⟩ := Option.map_eq_some_iff.mp h
  refine fun n hn => foldlM_step?_proper _ (by simp) (fun s hs => ?_) hplace n (List.mem_reverse.mp hn)
  rcases List.mem_append.mp hs with hs | hs
  · exact Path.noSlash_of_mem_segments _ s (List.mem_of_mem_dropLast hs)
  · exact Path.noSlash_of_mem_segments _ s hs

/-! ## §3. Spellings. -/

theorem extension_shape : ∀ e ∈ extensions, 2 ≤ e.toList.length ∧ '/' ∉ e.toList := by decide

theorem entryFile_shape : ∀ e ∈ entryFiles, 3 ≤ e.toList.length ∧ '/' ∉ e.toList := by decide

theorem compiled_shape : ∀ c ∈ compiled, c.1.toList ≠ [] ∧ '/' ∉ c.1.toList
    ∧ ∀ e ∈ c.2, 3 ≤ e.toList.length ∧ '/' ∉ e.toList := by decide

/-- The path and the path with an extension come first, and the files in a directory last. -/
theorem spellings_of_leads (h : Path.Leads names) :
    ∃ sources, spellings names
      = joinSegments names :: extensions.map (joinSegments names ++ ·.toList)
        ++ (sources ++ entryFiles.map fun name => joinSegments (names ++ [name.toList])) := by
  obtain ⟨sources, hspellings⟩ : ∃ sources, spellings names
      = (if (joinSegments names).isEmpty then []
          else joinSegments names :: extensions.map (joinSegments names ++ ·.toList))
        ++ sources ++ entryFiles.map fun name => joinSegments (names ++ [name.toList]) := ⟨_, rfl⟩
  rw [if_neg (by simpa using h.joinSegments_ne_nil), List.append_assoc] at hspellings
  exact ⟨sources, hspellings⟩

/-- An extension is put after the last name. -/
theorem leads_of_extended (h : Path.Leads names) {e : String} (he : e ∈ extensions) :
    ∃ more, Path.Leads more ∧ joinSegments names ++ e.toList = joinSegments more := by
  obtain ⟨front, last, rfl⟩ := (List.eq_nil_or_concat' names).resolve_left h.nonempty
  obtain ⟨hlength, hslash⟩ := extension_shape e he
  have hlast : IsProper last := h.each last (by simp)
  have hproper : IsProper (last ++ e.toList) := by
    have hone := List.length_pos_iff.mpr hlast.nonempty
    refine .of_length ?_ (by simp [hlast.noSlash, hslash])
    rw [List.length_append]
    omega
  have hfront : ∀ n ∈ front, IsProper n := fun n hn => h.each n (List.mem_append_left _ hn)
  exact ⟨_, Path.leads_concat hfront hproper, Path.joinSegments_extend ..⟩

/-- The end of compiled output is cut off the last name, and the end of a source is long enough for a name by
itself. -/
theorem leads_of_source (h : ∀ n ∈ names, IsProper n) {c : String × List String} (hc : c ∈ compiled)
    {other : String} (hother : other ∈ c.2) (hsuffix : c.1.toList <:+ joinSegments names) :
    ∃ more, Path.Leads more
      ∧ (joinSegments names).take ((joinSegments names).length - c.1.toList.length) ++ other.toList
        = joinSegments more := by
  obtain ⟨hempty, hslash, hothers⟩ := compiled_shape c hc
  obtain ⟨hlength, hslash'⟩ := hothers other hother
  rcases List.eq_nil_or_concat' names with rfl | ⟨front, last, rfl⟩
  · exact absurd (List.suffix_nil.mp hsuffix) hempty
  obtain ⟨stem, rfl⟩ := Path.suffix_last hslash hsuffix
  have hstem : '/' ∉ stem := fun hmem =>
    (h (stem ++ c.1.toList) (by simp)).noSlash (List.mem_append_left _ hmem)
  have hproper : IsProper (stem ++ other.toList) := by
    refine .of_length ?_ (by simp [hstem, hslash'])
    rw [List.length_append]
    omega
  have hfront : ∀ n ∈ front, IsProper n := fun n hn => h n (List.mem_append_left _ hn)
  refine ⟨_, Path.leads_concat hfront hproper, ?_⟩
  rw [← Path.joinSegments_extend, ← Path.joinSegments_extend, List.take_left' (by simp)]

/-- **What names may stand for** is made of names: a path with something after it, a path with another
end, or a file in a directory. -/
theorem leads_of_mem_spellings (h : ∀ n ∈ names, IsProper n) {p : List Char} (hp : p ∈ spellings names) :
    ∃ more, Path.Leads more ∧ p = joinSegments more := by
  unfold spellings at hp
  simp only [List.mem_append] at hp
  rcases hp with (hbare | hsource) | hentry
  · by_cases hempty : names = []
    · subst hempty
      exact absurd hbare (by simp [joinSegments])
    have hleads : Path.Leads names := ⟨hempty, h⟩
    rw [if_neg (by simpa using hleads.joinSegments_ne_nil)] at hbare
    rcases List.mem_cons.mp hbare with rfl | hbare
    · exact ⟨names, hleads, rfl⟩
    · obtain ⟨e, he, rfl⟩ := List.mem_map.mp hbare
      exact leads_of_extended hleads he
  · obtain ⟨c, hc, hsource⟩ := List.mem_flatMap.mp hsource
    split_ifs at hsource with hsuffix
    · obtain ⟨other, hother, rfl⟩ := List.mem_map.mp hsource
      exact leads_of_source h hc hother (List.isSuffixOf_iff_suffix.mp hsuffix)
    · exact absurd hsource (by simp)
  · obtain ⟨e, he, rfl⟩ := List.mem_map.mp hentry
    obtain ⟨hlength, hslash⟩ := entryFile_shape e he
    exact ⟨_, Path.leads_concat h (.of_length hlength hslash), rfl⟩

/-! ## §4. Candidates. -/

/-- The path that an import folds to. -/
def folded (importer specifier : String) : Option (List Char) :=
  (target? importer specifier).map joinSegments

/-- **The candidates** are the spellings of the folded names, each once; none of these is empty. -/
theorem candidates_of_target (h : target? importer specifier = some names) :
    candidates importer specifier = (spellings names).eraseDups.map String.ofList := by
  unfold candidates
  rw [h]
  show ((spellings names).filter (!·.isEmpty)).eraseDups.map String.ofList = _
  rw [List.filter_eq_self.mpr]
  intro p hp
  obtain ⟨more, hmore, rfl⟩ := leads_of_mem_spellings (target?_proper h) hp
  simpa using hmore.joinSegments_ne_nil

theorem mem_candidates (h : target? importer specifier = some names) {p : List Char} :
    String.ofList p ∈ candidates importer specifier ↔ p ∈ spellings names := by
  rw [candidates_of_target h, List.mem_map_of_injective (fun _ _ => String.ofList_inj.mp), List.mem_eraseDups]

/-- An entry file of the folded directory is always among the candidates. -/
theorem entry_mem_candidates (h : target? importer specifier = some names) {name : String}
    (hname : name ∈ entryFiles) : keyOf (names ++ [name.toList]) ∈ candidates importer specifier := by
  refine (mem_candidates h).mpr (List.mem_append_right _ ?_)
  exact List.mem_map.mpr ⟨name, hname, rfl⟩

theorem candidates_eq_nil_iff :
    candidates importer specifier = [] ↔ target? importer specifier = none := by
  cases htarget : target? importer specifier with
  | none =>
    unfold candidates
    rw [htarget]
    simp
  | some names =>
    have hentry := entry_mem_candidates htarget (show "mod.rs" ∈ entryFiles by decide)
    exact iff_of_false (List.ne_nil_of_mem hentry) (by simp)

theorem nodup_candidates (importer specifier : String) : (candidates importer specifier).Nodup := by
  cases htarget : target? importer specifier with
  | none =>
    rw [candidates_eq_nil_iff.mpr htarget]
    exact List.nodup_nil
  | some names =>
    rw [candidates_of_target htarget]
    exact (nodup_eraseDups _).map fun _ _ => String.ofList_inj.mp

/-- Every candidate is made of proper names. -/
theorem leads_of_mem_candidates {c : String} (hc : c ∈ candidates importer specifier) :
    ∃ more, Path.Leads more ∧ c = keyOf more := by
  cases htarget : target? importer specifier with
  | none => exact absurd hc (by simp [candidates_eq_nil_iff.mpr htarget])
  | some names =>
    rw [← String.ofList_toList (s := c), mem_candidates htarget] at hc
    obtain ⟨more, hmore, hpath⟩ := leads_of_mem_spellings (target?_proper htarget) hc
    exact ⟨more, hmore, by rw [keyOf, ← hpath, String.ofList_toList]⟩

/-- The folded path comes first, as it is. -/
theorem candidates_head? (h : target? importer specifier = some names) (hnames : names ≠ []) :
    (candidates importer specifier).head? = some (keyOf names) := by
  have hleads : Path.Leads names := ⟨hnames, target?_proper h⟩
  obtain ⟨sources, hspellings⟩ := spellings_of_leads hleads
  rw [candidates_of_target h, hspellings]
  simp only [List.cons_append, List.eraseDups_cons, List.map_cons, List.head?_cons]
  rfl

theorem keyOf_concat (hnames : names ≠ []) (name : String) :
    keyOf (names ++ [name.toList]) = keyOf names ++ "/" ++ name := by
  have hone : joinSegments [name.toList] = name.toList := List.intercalate_singleton ..
  rw [keyOf, keyOf, Path.joinSegments_append hnames (by simp), List.append_cons, String.ofList_append,
    String.ofList_append, hone, String.ofList_toList]

/-- An entry file has a slash behind the path, which no extension has. -/
theorem entry_notMem_bare (hnames : names ≠ []) (name : String) :
    joinSegments (names ++ [name.toList])
      ∉ joinSegments names :: extensions.map (joinSegments names ++ ·.toList) := by
  rw [Path.joinSegments_append hnames (by simp)]
  intro hmem
  rcases List.mem_cons.mp hmem with hsame | hmem
  · exact absurd (List.append_right_eq_self.mp hsame) (by simp)
  · obtain ⟨e, he, hsame⟩ := List.mem_map.mp hmem
    have hslash := (extension_shape e he).2
    rw [List.append_cancel_left hsame] at hslash
    exact hslash List.mem_cons_self

/-- **Files before directories**: the folded path with an extension is tried before the path as a directory. -/
theorem candidates_order (h : target? importer specifier = some names) (hnames : names ≠ [])
    {e name : String} (he : e ∈ extensions) (hname : name ∈ entryFiles) :
    ∃ before after,
      candidates importer specifier = before ++ (keyOf names ++ "/" ++ name) :: after
      ∧ keyOf names ++ e ∈ before := by
  have hextend : keyOf names ++ e = String.ofList (joinSegments names ++ e.toList) := by
    rw [String.ofList_append, String.ofList_toList, keyOf]
  rw [hextend, ← keyOf_concat hnames]
  obtain ⟨sources, hspellings⟩ := spellings_of_leads ⟨hnames, target?_proper h⟩
  set bare := joinSegments names :: extensions.map (joinSegments names ++ ·.toList)
  set entries := entryFiles.map fun name => joinSegments (names ++ [name.toList]) with hentries
  have hextended : joinSegments names ++ e.toList ∈ bare.eraseDups := by
    rw [List.mem_eraseDups]
    exact List.mem_cons_of_mem _ (List.mem_map.mpr ⟨e, he, rfl⟩)
  have hfresh : joinSegments (names ++ [name.toList]) ∉ bare := entry_notMem_bare hnames name
  have hentry : joinSegments (names ++ [name.toList]) ∈ ((sources ++ entries).removeAll bare).eraseDups := by
    rw [List.mem_eraseDups]
    simp only [List.removeAll, List.mem_filter, List.mem_append, hentries, List.mem_map]
    exact ⟨.inr ⟨name, hname, rfl⟩, by simpa using hfresh⟩
  obtain ⟨front, back, hsplit⟩ := List.append_of_mem hentry
  refine ⟨(bare.eraseDups ++ front).map String.ofList, back.map String.ofList, ?_, ?_⟩
  · rw [candidates_of_target h, hspellings, List.eraseDups_append, hsplit, ← List.append_assoc, List.map_append]
    rfl
  · exact List.mem_map_of_mem (List.mem_append_left _ hextended)

/-- A folded path leads from the root to where it was folded from. -/
theorem target?_root (h : ∀ n ∈ names, IsProper n) : target? "" (keyOf names) = some names := by
  show fold? (Path.segments (keyOf names).toList) = some names
  rw [keyOf, String.toList_ofList]
  by_cases hnames : names = []
  · subst hnames
    rfl
  · rw [Path.Leads.segments ⟨hnames, h⟩, fold?, foldlM_step?_names _ h, List.append_nil, Option.map_some,
      List.reverse_reverse]

/-- The candidates are those of the folded path, imported at the root. -/
theorem candidates_of_folded {p : List Char} (h : folded importer specifier = some p) :
    candidates importer specifier = candidates "" (String.ofList p) := by
  obtain ⟨names, htarget, rfl⟩ := Option.map_eq_some_iff.mp h
  rw [candidates_of_target htarget]
  exact (candidates_of_target (target?_root (target?_proper htarget))).symm

/-! ## §5. The way from one file to another. -/

/-- The names with which two ways both begin. -/
def shared : Segments → Segments → Segments
  | a :: one, b :: other => if a = b then a :: shared one other else []
  | _, _ => []

/-- What two ways share is the longest way with which both begin. -/
theorem prefix_shared_iff {front one other : Segments} :
    front <+: shared one other ↔ front <+: one ∧ front <+: other := by
  induction one generalizing front other with
  | nil =>
    simp only [shared, List.prefix_nil]
    exact ⟨fun h => ⟨h, h ▸ List.nil_prefix⟩, (·.1)⟩
  | cons a one ih =>
    cases other with
    | nil =>
      simp only [shared, List.prefix_nil]
      exact ⟨fun h => ⟨h ▸ List.nil_prefix, h⟩, (·.2)⟩
    | cons b other =>
      unfold shared
      cases front with
      | nil => simp
      | cons c front =>
        split_ifs with hab
        · subst hab
          simp only [List.cons_prefix_cons, ih]
          tauto
        · simp only [List.cons_prefix_cons, List.prefix_nil]
          refine iff_of_false (by simp) ?_
          rintro ⟨⟨rfl, -⟩, rfl, -⟩
          exact hab rfl

/-- The specifier for one file in another: `../` for each directory of the importing file that is not one
of the other's, or `./` if there is none, and then the rest of the way to the other. -/
def wayTo (importer target : Segments) : String :=
  let common := (shared importer.dropLast target.dropLast).length
  let left := importer.dropLast.drop common
  String.ofList ((if left = [] then "./".toList else left.flatMap fun _ => "../".toList)
    ++ joinSegments (target.drop common))

theorem joinSegments_ups (left : Segments) {rest : Segments} (hrest : rest ≠ []) :
    joinSegments (List.replicate left.length ['.', '.'] ++ rest)
      = (left.flatMap fun _ => "../".toList) ++ joinSegments rest := by
  induction left with
  | nil => rfl
  | cons _ left ih =>
    rw [List.length_cons, List.replicate_succ, List.cons_append, Path.joinSegments_cons _ (by simp [hrest]), ih]
    rfl

theorem joinSegments_ascent (left : Segments) {rest : Segments} (hrest : rest ≠ []) :
    joinSegments (ascent left.length ++ rest)
      = (if left = [] then "./".toList else left.flatMap fun _ => "../".toList) ++ joinSegments rest := by
  by_cases hleft : left = []
  · subst hleft
    exact Path.joinSegments_cons _ hrest
  · rw [if_neg hleft, ascent, if_neg (by simpa using hleft)]
    exact joinSegments_ups left hrest

/-- The segments of a path that goes up and then down are these ways up and down. -/
theorem segments_ascent {rest : Segments} (count : Nat) (hrest : ∀ n ∈ rest, IsProper n) :
    Path.segments (joinSegments (ascent count ++ rest)) = ascent count ++ rest := by
  refine List.splitOn_intercalate '/' (fun n hn => ?_) ?_
  · rcases List.mem_append.mp hn with hn | hn
    · unfold ascent at hn
      split_ifs at hn
      · obtain rfl := List.mem_singleton.mp hn
        decide
      · obtain rfl := List.eq_of_mem_replicate hn
        decide
    · exact (hrest n hn).noSlash
  · exact List.append_ne_nil_of_left_ne_nil (ascent_ne_nil count) rest

theorem directory_keyOf (h : Path.Leads names) : directory (keyOf names) = names.dropLast := by
  rw [directory, keyOf, String.toList_ofList, h.segments]

/-- **The way from one file to another** folds to the other. -/
theorem target?_wayTo {importer target : Segments} (himporter : Path.Leads importer)
    (htarget : Path.Leads target) :
    target? (keyOf importer) (wayTo importer target) = some target := by
  obtain ⟨hone, hother⟩ := prefix_shared_iff.mp (List.prefix_refl (shared importer.dropLast target.dropLast))
  set common := shared importer.dropLast target.dropLast with hcommon
  obtain ⟨left, hleft⟩ := hone
  obtain ⟨rest, hrest⟩ := hother.trans (List.dropLast_prefix target)
  -- the last name of the target is no directory, so it is in the rest
  have hsome : rest ≠ [] := by
    rintro rfl
    have hlength := hother.length_le
    rw [List.append_nil] at hrest
    rw [List.length_dropLast, hrest] at hlength
    have := List.length_pos_iff.mpr htarget.nonempty
    omega
  have hproper : ∀ n ∈ rest, IsProper n := fun n hn => htarget.each n (by simp [← hrest, hn])
  have hway : (wayTo importer target).toList = joinSegments (ascent left.length ++ rest) := by
    unfold wayTo
    rw [← hcommon, ← hleft, ← hrest]
    simp only [String.toList_ofList, List.drop_left]
    exact (joinSegments_ascent left hsome).symm
  rw [target?, directory_keyOf himporter, hway, segments_ascent _ hproper, fold?_ascent _ ?_ hproper, ← hleft,
    if_pos (by simp)]
  · rw [List.length_append, Nat.add_sub_cancel, List.take_left, hrest]
  · exact fun n hn => himporter.each n (List.mem_of_mem_dropLast hn)

/-! ## §6. Inside the project, and everywhere in it. -/

/-- **The candidates of an import stay inside the project and reach every file.** There are none if and
only if the way climbs above the root. They have no repetitions, each is made of proper names, and they
depend only on the path that the import folds to: they are those of this path, imported at the root. And
the way from one file to another leads to the other first. -/
theorem candidates_confined_and_complete :
    (∀ importer specifier : String,
      (candidates importer specifier = []
        ↔ Climbs (directory importer ++ Path.segments specifier.toList))
      ∧ (candidates importer specifier).Nodup
      ∧ (∀ c ∈ candidates importer specifier, ∃ names, Path.Leads names ∧ c = keyOf names)
      ∧ ∀ p, folded importer specifier = some p →
          candidates importer specifier = candidates "" (String.ofList p))
    ∧ ∀ importer target : Segments, Path.Leads importer → Path.Leads target →
        (candidates (keyOf importer) (wayTo importer target)).head? = some (keyOf target) := by
  refine ⟨fun importer specifier => ⟨?_, ?_, ?_, ?_⟩, fun importer target himporter htarget => ?_⟩
  · exact candidates_eq_nil_iff.trans target?_eq_none_iff
  · exact nodup_candidates importer specifier
  · exact fun c hc => leads_of_mem_candidates hc
  · exact fun p hp => candidates_of_folded hp
  · exact candidates_head? (target?_wayTo himporter htarget) htarget.nonempty

/-- A file of the application imports one of the library beside it. -/
theorem candidates_way_between_directories :
    wayTo ["src".toList, "app".toList, "main.ts".toList] ["src".toList, "lib".toList, "util.ts".toList]
      = "../lib/util.ts"
    ∧ (candidates "src/app/main.ts" "../lib/util.ts").head? = some "src/lib/util.ts" := by
  have hleads : ∀ names : Segments, Path.AreNames names → Path.Leads names := fun _ h => h.leads
  have hway := candidates_confined_and_complete.2
    ["src".toList, "app".toList, "main.ts".toList] ["src".toList, "lib".toList, "util.ts".toList]
    (hleads _ ⟨by decide, by decide⟩) (hleads _ ⟨by decide, by decide⟩)
  exact ⟨by decide, hway⟩

end Resolve

end CodeIndex
