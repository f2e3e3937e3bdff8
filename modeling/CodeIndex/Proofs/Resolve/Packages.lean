import Mathlib
import CodeIndex.Proofs.Resolve.Candidates
import CodeIndex.Source.Reference

/-!
# Modules of a package

A relative module of Python has dots in front of its names: one for the package of the importing file, and
one more for each package further out. It is given as a relative path, which goes up once less than there
are dots and then down along the names (`modulePath_dotted`). Read as an import, this path leads where the
package rules say: to the package or the module of these names, counted from the package that the dots
stand for, and nowhere if there are more dots than packages.

Main results:
  * `modulePath_dotted` — the path of a relative module;
  * `target?_dotted` — the package or module that it leads to;
  * `relative_modules_resolve` — what is tried for it, and in which order.
-/

namespace CodeIndex

open CodeIndex.Path (Segments IsProper joinSegments)

/-- A text without the old character stays as it is. -/
theorem Text.replaceChar_of_notMem {old : Char} {s : List Char} (h : old ∉ s) (new : Char) :
    replaceChar old new s = s := by
  refine (List.map_congr_left fun c hc => ?_).trans (List.map_id s)
  have hne : c ≠ old := fun heq => h (heq ▸ hc)
  simp [hne]

namespace Python

/-! ## §1. Relative modules. -/

/-- A name as it stands in a module, where dots are between the names. -/
structure IsIdentifier (n : List Char) : Prop where
  nonempty : n ≠ []
  noDot : '.' ∉ n
  noSlash : '/' ∉ n

instance (n : List Char) : Decidable (IsIdentifier n) :=
  decidable_of_iff (n ≠ [] ∧ '.' ∉ n ∧ '/' ∉ n)
    ⟨fun ⟨h₁, h₂, h₃⟩ => ⟨h₁, h₂, h₃⟩, fun h => ⟨h.1, h.2, h.3⟩⟩

theorem IsIdentifier.proper {n : List Char} (h : IsIdentifier n) : IsProper n := by
  refine ⟨h.nonempty, ?_, ?_, h.noSlash⟩ <;> rintro rfl <;> exact h.noDot (by decide)

/-- A module with dots in front of names that have dots between them. -/
def dotted (dots : Nat) (names : Segments) : List Char :=
  List.replicate dots '.' ++ ['.'].intercalate names

variable {names : Segments} {dots : Nat}

/-- Between names without dots, slashes take the place of dots. -/
theorem replaceChar_intercalate (h : ∀ n ∈ names, '.' ∉ n) :
    Text.replaceChar '.' '/' (['.'].intercalate names) = joinSegments names := by
  induction names with
  | nil => rfl
  | cons n rest ih =>
    have hn := Text.replaceChar_of_notMem (h n List.mem_cons_self) '/'
    have hrest := ih fun m hm => h m (List.mem_cons_of_mem _ hm)
    by_cases hempty : rest = []
    · subst hempty
      simpa [joinSegments, List.intercalate_singleton] using hn
    · rw [Path.joinSegments_cons _ hempty, List.intercalate_cons_of_ne_nil hempty, ← hrest]
      unfold Text.replaceChar at hn ⊢
      rw [List.map_append, List.map_append, hn, List.append_assoc]
      rfl

/-- No name starts with a dot, so the dots in front end where the names begin. -/
theorem takeWhile_intercalate (h : ∀ n ∈ names, IsIdentifier n) :
    (['.'].intercalate names).takeWhile (· == '.') = [] := by
  cases names with
  | nil => rfl
  | cons n rest =>
    have hn := h n List.mem_cons_self
    obtain ⟨c, more, hc⟩ := List.exists_cons_of_ne_nil hn.nonempty
    have hdot : c ≠ '.' := fun heq => hn.noDot (by simp [hc, heq])
    have hstart : ∃ after, ['.'].intercalate (n :: rest) = c :: after := by
      by_cases hempty : rest = []
      · subst hempty
        exact ⟨more, by rw [List.intercalate_singleton, hc]⟩
      · exact ⟨_, by rw [List.intercalate_cons_of_ne_nil hempty, hc]; rfl⟩
    obtain ⟨after, hafter⟩ := hstart
    rw [hafter, List.takeWhile_cons_of_neg (by simpa using hdot)]

theorem takeWhile_dotted (dots : Nat) (h : ∀ n ∈ names, IsIdentifier n) :
    (dotted dots names).takeWhile (· == '.') = List.replicate dots '.' := by
  unfold dotted
  rw [List.takeWhile_append_of_pos (by simp), takeWhile_intercalate h, List.append_nil]

/-- **The path of a relative module** goes up once less than there are dots, and then down. -/
theorem modulePath_dotted (hdots : 1 ≤ dots) (h : ∀ n ∈ names, IsIdentifier n) :
    modulePath (dotted dots names) = joinSegments (Resolve.ascent (dots - 1) ++ names) := by
  have hcount : ((dotted dots names).takeWhile (· == '.')).length = dots := by
    rw [takeWhile_dotted dots h, List.length_replicate]
  have hrest : (dotted dots names).drop dots = ['.'].intercalate names := List.drop_left' (by simp)
  have hbase : (if dots = 1 then ['.'] else ['/'].intercalate (List.replicate (dots - 1) ['.', '.']))
      = joinSegments (Resolve.ascent (dots - 1)) := by
    unfold Resolve.ascent
    split_ifs with hone hzero hzero
    · rfl
    · omega
    · omega
    · rfl
  unfold modulePath
  simp only [hcount]
  rw [if_neg (by omega), hrest, replaceChar_intercalate fun n hn => (h n hn).noDot, hbase]
  by_cases hnames : names = []
  · subst hnames
    rw [List.append_nil]
    exact if_pos rfl
  · have hleads : Path.Leads names := ⟨hnames, fun n hn => (h n hn).proper⟩
    rw [if_neg (by simpa using hleads.joinSegments_ne_nil),
      Path.joinSegments_append (Resolve.ascent_ne_nil _) hnames]

/-- A module without a dot in front stays as it is. -/
theorem modulePath_absolute {name : List Char} (h : name.head? ≠ some '.') : modulePath name = name := by
  have hdots : name.takeWhile (· == '.') = [] := by
    cases name with
    | nil => rfl
    | cons c rest => exact List.takeWhile_cons_of_neg (by simpa using h)
  unfold modulePath
  rw [hdots]
  rfl

end Python

/-! ## §2. Relative imports. -/

/-- A path has a given first segment if it is that segment or goes on behind it with a slash. -/
theorem Path.segments_head?_iff {p first : List Char} (hfirst : '/' ∉ first) :
    (segments p).head? = some first ↔ p = first ∨ first ++ ['/'] <+: p := by
  have halone : segments first = [first] := by
    have hsplit := List.splitOn_intercalate '/' (show ∀ s ∈ [first], '/' ∉ s by simpa using hfirst) (by simp)
    rwa [List.intercalate_singleton] at hsplit
  constructor
  · intro h
    obtain ⟨rest, hrest⟩ := List.head?_eq_some_iff.mp h
    rw [← joinSegments_segments p, hrest]
    by_cases hempty : rest = []
    · subst hempty
      exact .inl (List.intercalate_singleton ..)
    · rw [joinSegments_cons _ hempty, List.append_cons]
      exact .inr (List.prefix_append _ _)
  · rintro (rfl | ⟨more, rfl⟩)
    · rw [halone]
      rfl
    · rw [List.append_assoc, List.singleton_append, segments_append, halone]
      rfl

/-- **An import is relative** if and only if the first segment of its source stays or goes up. -/
theorem Import.isRelative_iff (i : Import) :
    i.isRelative = true ↔ (Path.segments i.source.toList).head? = some ['.']
      ∨ (Path.segments i.source.toList).head? = some ['.', '.'] := by
  rw [Path.segments_head?_iff (by decide), Path.segments_head?_iff (by decide)]
  have hhere : i.source = "." ↔ i.source.toList = ['.'] := String.toList_inj.symm
  have hup : i.source = ".." ↔ i.source.toList = ['.', '.'] := String.toList_inj.symm
  simp only [isRelative, Bool.or_eq_true, List.isPrefixOf_iff_prefix, beq_iff_eq, hhere, hup]
  show ((['.', '/'] <+: _ ∨ ['.', '.', '/'] <+: _) ∨ _) ∨ _ ↔ _
  tauto

namespace Python

open Resolve (ascent directory target? candidates)

variable {importer : String} {names : Segments} {dots : Nat}

theorem isRelative_modulePath (hdots : 1 ≤ dots) (h : ∀ n ∈ names, IsIdentifier n) (imported : List String) :
    Import.isRelative ⟨String.ofList (modulePath (dotted dots names)), imported⟩ = true := by
  rw [Import.isRelative_iff]
  simp only [String.toList_ofList]
  rw [modulePath_dotted hdots h, Resolve.segments_ascent _ fun n hn => (h n hn).proper]
  unfold ascent
  split_ifs with hzero
  · exact .inl rfl
  · obtain ⟨count, hcount⟩ := Nat.exists_eq_succ_of_ne_zero hzero
    rw [hcount]
    exact .inr rfl

/-- What does not start with a dot is the name of a package. -/
theorem not_isRelative_absolute {name : List Char} (h : name.head? ≠ some '.') (imported : List String) :
    Import.isRelative ⟨String.ofList (modulePath name), imported⟩ = false := by
  rw [modulePath_absolute h, Bool.eq_false_iff, ne_eq, Import.isRelative_iff,
    Path.segments_head?_iff (by decide), Path.segments_head?_iff (by decide)]
  simp only [String.toList_ofList]
  rintro ((rfl | ⟨more, rfl⟩) | (rfl | ⟨more, rfl⟩)) <;> exact h rfl

theorem head?_dotted_zero (h : ∀ n ∈ names, IsIdentifier n) : (dotted 0 names).head? ≠ some '.' := by
  have hdots := takeWhile_dotted 0 h
  intro hhead
  obtain ⟨rest, hrest⟩ := List.head?_eq_some_iff.mp hhead
  rw [hrest, List.takeWhile_cons_of_pos (by decide)] at hdots
  exact absurd hdots (by simp)

/-- **What a relative module means**: the names, counted from the package that the dots stand for. -/
theorem target?_dotted (hplace : ∀ n ∈ directory importer, IsProper n) (hdots : 1 ≤ dots)
    (h : ∀ n ∈ names, IsIdentifier n) :
    target? importer (String.ofList (modulePath (dotted dots names)))
      = if dots - 1 ≤ (directory importer).length
        then some ((directory importer).take ((directory importer).length - (dots - 1)) ++ names)
        else none := by
  have hnames : ∀ n ∈ names, IsProper n := fun n hn => (h n hn).proper
  rw [target?, String.toList_ofList, modulePath_dotted hdots h, Resolve.segments_ascent _ hnames,
    Resolve.fold?_ascent _ hplace hnames]

/-- **Relative modules resolve by the rules of packages.** A module without dots in front is not relative.
One with dots is, and it leads nowhere if and only if the dots are more than one more than there are
directories. Otherwise it means the names below the directory that the dots stand for: the package of that
name is tried, and unless this is the root, the path itself comes first and the module before the package. -/
theorem relative_modules_resolve (importer : String) (names : Segments) (dots : Nat) (imported : List String)
    (hplace : ∀ n ∈ directory importer, IsProper n) (hnames : ∀ n ∈ names, IsIdentifier n) :
    let source := String.ofList (modulePath (dotted dots names))
    let outer := (directory importer).take ((directory importer).length - (dots - 1))
    let base := outer ++ names
    (dots = 0 → Import.isRelative ⟨source, imported⟩ = false)
    ∧ (1 ≤ dots → Import.isRelative ⟨source, imported⟩ = true
      ∧ (candidates importer source = [] ↔ (directory importer).length < dots - 1)
      ∧ (dots - 1 ≤ (directory importer).length →
        (base = [] → "__init__.py" ∈ candidates importer source)
        ∧ (base ≠ [] → (candidates importer source).head? = some (keyOf base)
          ∧ ∃ before after,
            candidates importer source = before ++ (keyOf base ++ "/__init__.py") :: after
            ∧ keyOf base ++ ".py" ∈ before))) := by
  intro source outer base
  have hmodules : ".py" ∈ Resolve.extensions := by decide
  have hpackage : "__init__.py" ∈ Resolve.entryFiles := by decide
  refine ⟨?_, fun hdots => ⟨isRelative_modulePath hdots hnames imported, ?_, fun hinside => ?_⟩⟩
  · rintro rfl
    exact not_isRelative_absolute (head?_dotted_zero hnames) imported
  · rw [Resolve.candidates_eq_nil_iff, target?_dotted hplace hdots hnames]
    split_ifs with hinside
    · exact iff_of_false (by simp) (by omega)
    · exact iff_of_true rfl (by omega)
  · have htarget : target? importer source = some base := by
      rw [target?_dotted hplace hdots hnames, if_pos hinside]
    have hentry := Resolve.entry_mem_candidates htarget hpackage
    refine ⟨fun hroot => by rwa [hroot] at hentry, fun hbase => ?_⟩
    obtain ⟨before, after, hsplit, hmodule⟩ := Resolve.candidates_order htarget hbase hmodules hpackage
    rw [String.append_assoc] at hsplit
    exact ⟨Resolve.candidates_head? htarget hbase, before, after, hsplit, hmodule⟩

/-- In `app/web/views.py`, `from ..core.models import …` is about the models of the application. -/
theorem relative_module_of_outer_package :
    String.ofList (modulePath "..core.models".toList) = "../core/models"
    ∧ Import.isRelative ⟨"../core/models", ["User"]⟩ = true
    ∧ candidates "app/web/views.py" "../core/models" ≠ []
    ∧ (candidates "app/web/views.py" "../core/models").head? = some "app/core/models"
    ∧ ∃ before after, candidates "app/web/views.py" "../core/models"
        = before ++ "app/core/models/__init__.py" :: after ∧ "app/core/models.py" ∈ before := by
  have hplace : ∀ n ∈ directory "app/web/views.py", IsProper n := by
    have hnames : ∀ n ∈ directory "app/web/views.py", Path.IsName n := by decide
    exact fun n hn => (hnames n hn).proper
  have hpath : String.ofList (modulePath "..core.models".toList) = "../core/models" := by decide
  obtain ⟨hrelative, hempty, hinside⟩ := (relative_modules_resolve "app/web/views.py"
    ["core".toList, "models".toList] 2 ["User"] hplace (by decide)).2 (by decide)
  obtain ⟨hfirst, horder⟩ := (hinside (by decide)).2 (by decide)
  have hmodule : dotted 2 ["core".toList, "models".toList] = "..core.models".toList := by decide
  rw [hmodule, hpath] at hrelative hempty hfirst horder
  exact ⟨hpath, hrelative, fun h => absurd (hempty.mp h) (by decide), hfirst, horder⟩

end Python

end CodeIndex
