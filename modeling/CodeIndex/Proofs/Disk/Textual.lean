import Mathlib
import CodeIndex.Proofs.Disk.Writing
import CodeIndex.Proofs.Resolve.Candidates

/-!
# Where a path leads by its text

A name leads into a directory, and `..` leads out of it again. So the text of a path and the working directory
tell a place, without a look at the disk. If the path leads anywhere on a disk then it leads to this place, since
no entry of a disk stands for another one.

A path that is put behind another one goes on from the place of that one, unless it starts at the root. It stays
below that place if no first part of it leads out more often than in.

Main results:
  * `Disk.follow_eq`, `Disk.Places.eq_placeOf` — what a disk has at the end of a path is at the place of its text;
  * `Path.placeOf_under` — the place of a path that is put behind another;
  * `Path.foldl_enter_of_fold?` — a way that does not climb ends below the place where it starts.
-/

namespace CodeIndex

namespace Path

/-! ## §1. Places. -/

/-- The place that is one segment further, whatever stands there. -/
def enter (place : Segments) (segment : List Char) : Segments :=
  if segment = [] then place
  else if segment = ['.'] then place
  else if segment = ['.', '.'] then place.dropLast
  else place ++ [segment]

/-- The place that a path leads to by its text; `here` is the working directory. -/
def placeOf (here : Segments) (path : String) : Segments :=
  (segments path.toList).foldl enter (if isAbsolute path.toList then [] else here)

theorem enter_empty (place : Segments) : enter place [] = place := if_pos rfl

theorem enter_here (place : Segments) : enter place ['.'] = place := rfl

theorem enter_proper {n : List Char} (h : IsProper n) (place : Segments) : enter place n = place ++ [n] := by
  unfold enter
  rw [if_neg h.nonempty, if_neg h.notHere, if_neg h.notUp]

/-! ## §2. Paths behind others. -/

theorem isAbsolute_join {p : List Char} (h : isAbsolute p = false) (base : List Char) :
    isAbsolute (join base p) = isAbsolute base := by
  unfold join
  rw [h, if_neg Bool.false_ne_true]
  cases base with
  | nil => exact h
  | cons c base =>
    rw [if_neg (by simp)]
    split <;> rfl

theorem foldl_enter_join {p : List Char} (h : isAbsolute p = false) (base : List Char) (start : Segments) :
    (segments (join base p)).foldl enter start
      = (segments p).foldl enter ((segments base).foldl enter start) := by
  unfold join
  rw [h, if_neg Bool.false_ne_true]
  by_cases hempty : base = []
  · subst hempty
    rfl
  · rw [if_neg (by simpa using hempty)]
    by_cases hslash : base.getLast? = some '/'
    · -- the slash between the two is the last character of the first
      have hfront : base = base.dropLast ++ ['/'] := (List.dropLast_append_getLast? '/' hslash).symm
      have hwhole : base ++ p = base.dropLast ++ '/' :: p := by
        conv_lhs => rw [hfront]
        rw [List.append_assoc, List.singleton_append]
      have hbase : segments base = segments base.dropLast ++ [[]] := by
        conv_lhs => rw [hfront]
        exact segments_append base.dropLast []
      rw [if_pos (by simp [hslash]), hwhole, segments_append, hbase, List.foldl_append, List.foldl_append,
        List.foldl_cons, List.foldl_nil, enter_empty]
    · rw [if_neg (by simpa using hslash), segments_append, List.foldl_append]

/-- **A path behind another** goes on from the place of that one. -/
theorem placeOf_under {p : String} (h : isAbsolute p.toList = false) (here : Segments) (base : String) :
    placeOf here (under base p) = (segments p.toList).foldl enter (placeOf here base) := by
  unfold placeOf under
  rw [String.toList_ofList, isAbsolute_join h, foldl_enter_join h]

/-- One that starts at the root does not. -/
theorem placeOf_under_absolute {p : String} (h : isAbsolute p.toList = true) (here : Segments) (base : String) :
    placeOf here (under base p) = (segments p.toList).foldl enter [] := by
  unfold placeOf under join
  rw [String.toList_ofList, h, if_pos rfl, h, if_pos rfl]

/-- A segment leads on below the base, as long as it does not lead out of what was entered. `place` and `next` are
what was entered, innermost first. -/
theorem enter_of_step? {segment : List Char} {place next : Segments}
    (h : Resolve.step? place segment = some next) (base : Segments) :
    enter (base ++ place.reverse) segment = base ++ next.reverse := by
  unfold Resolve.step? at h
  unfold enter
  split_ifs at h ⊢ with hempty hhere hup
  · rw [Option.some.inj h]
  · rw [Option.some.inj h]
  · cases place with
    | nil => cases h
    | cons inner outer =>
      rw [← Option.some.inj h, List.reverse_cons, ← List.append_assoc, List.dropLast_concat]
  · rw [← Option.some.inj h, List.reverse_cons, List.append_assoc]

theorem foldl_enter_of_foldlM {way place next : Segments}
    (h : way.foldlM Resolve.step? place = some next) (base : Segments) :
    way.foldl enter (base ++ place.reverse) = base ++ next.reverse := by
  induction way generalizing place with
  | nil =>
    rw [Option.some.inj h]
    rfl
  | cons segment way ih =>
    rw [List.foldlM_cons] at h
    obtain ⟨mid, hmid, hrest⟩ := Option.bind_eq_some_iff.mp h
    rw [List.foldl_cons, enter_of_step? hmid, ih hrest]

/-- **A way that does not climb** ends below the place where it starts. -/
theorem foldl_enter_of_fold? {way names : Segments} (h : Resolve.fold? way = some names) (base : Segments) :
    way.foldl enter base = base ++ names := by
  unfold Resolve.fold? at h
  obtain ⟨next, hnext, rfl⟩ := Option.map_eq_some_iff.mp h
  have hall := foldl_enter_of_foldlM hnext base
  rwa [List.reverse_nil, List.append_nil] at hall

end Path

namespace Disk

variable {d : Disk}

/-! ## §3. On a disk. -/

/-- **Following segments** leads to the place that they tell. -/
theorem follow_eq {start q : Location} {ss : Path.Segments} (h : d.follow start ss = .ok q) :
    q = ss.foldl Path.enter start := by
  induction ss generalizing start with
  | nil => exact (Except.ok.inj h).symm
  | cons s rest ih =>
    have hstep := checkStep_of_follow h
    simp only [follow, hstep] at h
    rw [List.foldl_cons]
    unfold Path.enter
    split_ifs at h ⊢ with hempty hhere hup hlong
    · exact ih h
    · exact ih h
    · exact ih h
    · cases hentry : d.at? (start ++ [s]) with
      | none =>
        rw [hentry] at h
        cases h
      | some e =>
        rw [hentry] at h
        exact ih h

/-- **The place for a file** at a path is the one that the text of the path tells. -/
theorem Places.eq_placeOf {path : String} {place : Location} (h : d.Places path place) :
    place = Path.placeOf d.here path := by
  obtain ⟨directory, name, hplace, hfollow, hname, -⟩ := h.step
  obtain ⟨hbody, hempty, hhere, hup⟩ := lastName_eq_some hname
  have hdirectory := follow_eq hfollow
  have hsegments : Path.segments path.toList = (body path).dropLast ++ [name] := by
    rw [← body_of_notSlashed h.notSlashed]
    exact hbody
  have hlast (q : Location) : Path.enter q name = q ++ [name] := by
    unfold Path.enter
    rw [if_neg hempty, if_neg hhere, if_neg hup]
  rw [List.foldl_append, List.foldl_cons, List.foldl_nil, Path.enter_here] at hdirectory
  unfold Path.placeOf
  rw [hsegments, List.foldl_append, List.foldl_cons, List.foldl_nil, hlast, hplace, hdirectory]
  rfl

end Disk

end CodeIndex
