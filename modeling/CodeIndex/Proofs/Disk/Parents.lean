import Mathlib
import CodeIndex.Proofs.Disk.Writing
import CodeIndex.Proofs.Selection.Keys
import CodeIndex.Proofs.Text.Decoding

/-!
# Directories above a file

The path above a file's path is a first part of it, and leads to the directory that the file is in. So once a
file can be put where its path leads, the directories above it are there, and making them changes nothing.

Main results:
  * `parent?_of_segments` — the path above another, by the segments of both;
  * `makeDirectories_of_isDirectory` — a directory that is there is not made again;
  * `Places.makeParent` — nor are those above a place for a file.
-/

namespace CodeIndex

namespace Path

/-! ## §1. The path above. -/

theorem joinSegments_prefix {front ss : Segments} (h : front <+: ss) :
    joinSegments front <+: joinSegments ss := by
  obtain ⟨back, rfl⟩ := h
  by_cases hfront : front = []
  · rw [hfront]
    exact List.nil_prefix
  · by_cases hback : back = []
    · rw [hback, List.append_nil]
    · rw [joinSegments_append hfront hback]
      exact List.prefix_append _ _

theorem segments_joinSegments {front : Segments} (hfront : front ≠ []) {p : List Char}
    (hmem : ∀ s ∈ front, s ∈ segments p) : segments (joinSegments front) = front :=
  List.splitOn_intercalate '/' (fun s hs => noSlash_of_mem_segments p s (hmem s hs)) hfront

theorem segments_slash (p : List Char) : segments ('/' :: p) = [] :: segments p := segments_append [] p

theorem dropVoidEnd_concat {front : Segments} {name : List Char} (h : isVoid name = false) :
    dropVoidEnd (front ++ [name]) = front ++ [name] := by
  unfold dropVoidEnd
  rw [List.reverse_append, List.reverse_singleton, List.singleton_append,
    List.dropWhile_cons_of_neg (by simp [h]), List.reverse_cons, List.reverse_reverse]

theorem parent?_of_headBody {p : List Char} {head : Head} {front : Segments} {name : List Char}
    (h : headBody p = (head, front ++ [name])) (hname : isVoid name = false) :
    parent? p = some (head.rejoin (dropVoidEnd front)) := by
  unfold parent?
  rw [h]
  simp only [dropVoidEnd_concat hname]
  split
  next heq => exact absurd heq (by simp)
  next => rw [List.dropLast_concat]

theorem rejoin_here (ss : Segments) : Head.here.rejoin ss = joinSegments (['.'] :: ss) := by
  cases ss with
  | nil => rfl
  | cons s ss =>
    unfold joinSegments
    rw [List.intercalate_cons_of_ne_nil (List.cons_ne_nil _ _)]
    rfl

theorem first_of_isAbsolute {p : List Char} (h : isAbsolute p = true) :
    ∃ rest, p = '/' :: rest ∧ segments p = [] :: segments rest := by
  cases p with
  | nil => exact absurd h (by decide)
  | cons c rest =>
    obtain rfl : c = '/' := by simpa [isAbsolute] using h
    exact ⟨rest, rfl, segments_slash rest⟩

/-- The path above one whose last segment is a name: the void segments before the name are left out. -/
theorem parent?_eq {p : List Char} {front : Segments} {name : List Char} (h : segments p = front ++ [name])
    (hname : isVoid name = false) :
    (∃ more, front = [] :: more ∧ isAbsolute p = true ∧
        parent? p = some ('/' :: joinSegments (dropVoidEnd more))) ∨
      ∃ kept, kept <+: front ∧ isAbsolute p = false ∧ parent? p = some (joinSegments kept) := by
  have hne : name ≠ [] := by
    rintro rfl
    exact absurd hname (by decide)
  have hdot : name ≠ ['.'] := by
    rintro rfl
    exact absurd hname (by decide)
  cases habsolute : isAbsolute p with
  | true =>
    left
    obtain ⟨rest, -, hrest⟩ := first_of_isAbsolute habsolute
    rw [h] at hrest
    cases front with
    | nil => exact absurd (List.cons.inj hrest).1 hne
    | cons first more =>
      obtain rfl : first = [] := (List.cons.inj hrest).1
      have hhead : headBody p = (.root, more ++ [name]) := by
        unfold headBody
        rw [h, List.cons_append]
        simp only [habsolute, if_true]
      exact ⟨more, rfl, rfl, parent?_of_headBody hhead hname⟩
  | false =>
    right
    by_cases hhere : ∃ more, front = ['.'] :: more
    · obtain ⟨more, rfl⟩ := hhere
      have hhead : headBody p = (.here, more ++ [name]) := by
        unfold headBody
        rw [h, List.cons_append]
        simp only [habsolute, Bool.false_eq_true, if_false, if_true]
      refine ⟨['.'] :: dropVoidEnd more, List.cons_prefix_cons.mpr ⟨rfl, dropVoidEnd_starts more⟩, rfl, ?_⟩
      rw [parent?_of_headBody hhead hname, rejoin_here]
    · have hhead : headBody p = (.none, front ++ [name]) := by
        unfold headBody
        rw [h]
        cases front with
        | nil => simp only [List.nil_append, habsolute, Bool.false_eq_true, if_false, if_neg hdot]
        | cons first more =>
          have hfirst : first ≠ ['.'] := by
            rintro rfl
            exact hhere ⟨more, rfl⟩
          simp only [List.cons_append, habsolute, Bool.false_eq_true, if_false, if_neg hfirst]
      exact ⟨dropVoidEnd front, dropVoidEnd_starts front, rfl, parent?_of_headBody hhead hname⟩

/-- **The path above** is a first part of the path, and so are its segments, but for an empty one at the end. -/
theorem parent?_of_segments {p : List Char} {front : Segments} {name : List Char}
    (h : segments p = front ++ [name]) (hname : isVoid name = false) :
    ∃ above, parent? p = some above ∧ above <+: p ∧
      (above = [] ∨ ∃ kept, kept <+: front ∧ (segments above = kept ∨ segments above = kept ++ [[]])) := by
  have hmem : ∀ s ∈ front, s ∈ segments p := fun s hs => by
    rw [h]
    exact List.mem_append_left _ hs
  rcases parent?_eq h hname with ⟨more, rfl, habsolute, hparent⟩ | ⟨kept, hkept, -, hparent⟩
  · refine ⟨_, hparent, ?_, .inr ?_⟩
    · obtain ⟨rest, rfl, hrest⟩ := first_of_isAbsolute habsolute
      rw [hrest, List.cons_append] at h
      have hwhole := joinSegments_prefix ((dropVoidEnd_starts more).trans (List.prefix_append more [name]))
      rw [← (List.cons.inj h).2, joinSegments_segments] at hwhole
      exact List.cons_prefix_cons.mpr ⟨rfl, hwhole⟩
    · have hkept : [] :: dropVoidEnd more <+: [] :: more :=
        List.cons_prefix_cons.mpr ⟨rfl, dropVoidEnd_starts more⟩
      rw [segments_slash]
      by_cases hempty : dropVoidEnd more = []
      · refine ⟨[[]], List.cons_prefix_cons.mpr ⟨rfl, List.nil_prefix⟩, .inr ?_⟩
        rw [hempty]
        rfl
      · refine ⟨_, hkept, .inl ?_⟩
        rw [segments_joinSegments hempty fun s hs => hmem s (hkept.subset (List.mem_cons_of_mem _ hs))]
  · refine ⟨_, hparent, ?_, ?_⟩
    · have hwhole := joinSegments_prefix (hkept.trans (List.prefix_append front [name]))
      rwa [← h, joinSegments_segments] at hwhole
    · by_cases hempty : kept = []
      · exact .inl (by rw [hempty]; rfl)
      · exact .inr ⟨kept, hkept, .inl (segments_joinSegments hempty fun s hs => hmem s (hkept.subset hs))⟩

end Path

namespace Disk

variable {d : Disk}

/-! ## §2. Directories that are there. -/

/-- A path all of whose segments are empty starts at the root. -/
theorem origin_of_body_eq_nil {path : String} (hvalid : checkPath path.toList = .ok ()) (h : body path = []) :
    d.origin path.toList = [] := by
  have hall : ∀ s ∈ Path.segments path.toList, s = [] := by
    simpa using List.rdropWhile_eq_nil_iff.mp h
  have hne : path.toList ≠ [] := fun hempty => by
    rw [hempty] at hvalid
    cases hvalid
  obtain ⟨first, rest, hsegments⟩ := List.exists_cons_of_ne_nil (List.splitOn_ne_nil '/' path.toList)
  have habsolute : Path.isAbsolute path.toList = true := by
    by_contra hrelative
    refine Path.segments_first hne (Bool.not_eq_true _ ▸ hrelative) hsegments (hall first ?_)
    rw [show Path.segments path.toList = first :: rest from hsegments]
    exact List.mem_cons_self
  exact if_pos habsolute

/-- The last segment of a path that leads somewhere is looked for in a directory that can be searched. -/
theorem follow_dropLast {path : String} {place : Location} (hvalid : checkPath path.toList = .ok ())
    (h : d.follow (d.origin path.toList) (Path.segments path.toList) = .ok place) :
    ∃ directory rest, d.follow (d.origin path.toList) ((body path).dropLast ++ [['.']]) = .ok directory ∧
      Path.segments path.toList = (body path).dropLast ++ rest ∧ d.follow directory rest = .ok place := by
  obtain ⟨voids, hvoids⟩ : body path <+: Path.segments path.toList := List.rdropWhile_prefix _ _
  by_cases hbody : body path = []
  · -- there is no last segment, and all the empty ones are followed at the root
    refine ⟨[], Path.segments path.toList, ?_, ?_, ?_⟩
    · rw [hbody, origin_of_body_eq_nil hvalid hbody]
      exact follow_end rfl
    · rw [hbody, List.dropLast_nil, List.nil_append]
    · rwa [origin_of_body_eq_nil hvalid hbody] at h
  · -- the last segment of the body is none of the empty ones at the end
    have hlast : (body path).getLast hbody ≠ [] := fun hvoid =>
      List.rdropWhile_last_not (· == []) (Path.segments path.toList) hbody (beq_iff_eq.mpr hvoid)
    have hsegments : Path.segments path.toList = (body path).dropLast ++ (body path).getLast hbody :: voids := by
      rw [← List.singleton_append, ← List.append_assoc, List.dropLast_append_getLast, hvoids]
    rw [hsegments, follow_append] at h
    obtain ⟨directory, hdirectory, h⟩ := bind_eq_ok h
    refine ⟨directory, _, ?_, hsegments, h⟩
    rw [follow_append, hdirectory]
    exact follow_end (at?_of_follow hlast h)

theorem makeDirectory_of_isDirectory {path : String} (h : d.isDirectory path = true) :
    d.makeDirectory path = .error .alreadyExists := by
  obtain ⟨e, hentry, -⟩ := isDirectory_eq_true h
  obtain ⟨place, hlocate, -⟩ := entry_eq_ok hentry
  obtain ⟨_, hvalid, hfollow⟩ := bind_eq_ok hlocate
  obtain ⟨directory, rest, hdirectory, hsegments, hrest⟩ := follow_dropLast hvalid hfollow
  have ht : d.target path = .ok ⟨directory, lastName path, endsSlashed path⟩ :=
    target_eq_ok_iff.mpr ⟨hvalid, hdirectory, rfl, rfl⟩
  unfold makeDirectory
  rw [ht]
  cases hname : lastName path with
  | none => rfl
  | some name =>
    -- the name is followed on the way to the place, so there is something
    obtain ⟨hbody, hempty, hhere, hup⟩ := lastName_eq_some hname
    have hnext : ∃ more, rest = name :: more := by
      obtain ⟨more, hmore⟩ : body path <+: Path.segments path.toList := List.rdropWhile_prefix _ _
      rw [hsegments, hbody, List.dropLast_concat, List.append_assoc] at hmore
      exact ⟨more, (List.append_cancel_left hmore).symm⟩
    obtain ⟨more, rfl⟩ := hnext
    have hstep := checkStep_of_follow hrest
    simp only [follow, hstep, hempty, hhere, hup, if_false] at hrest
    split_ifs at hrest with hfits
    cases hentry : d.at? (directory ++ [name]) with
    | none =>
      rw [hentry] at hrest
      cases hrest
    | some e =>
      simp only [bind, Except.bind, checkName_eq_ok_iff.mpr (Nat.not_lt.mp hfits), hentry]
      rfl

/-- **A directory** that is there is not made again. -/
theorem makeDirectories_of_isDirectory {path : String} (h : d.isDirectory path = true) :
    d.makeDirectories path = ⟨d, .ok ()⟩ := by
  unfold makeDirectories makeDirectoriesFrom
  rw [makeDirectory_of_isDirectory h]
  simp [h]

/-- A first part of a path is a path, if there is anything in it. -/
theorem checkPath_of_prefix {p above : List Char} (h : checkPath p = .ok ()) (habove : above <+: p)
    (hne : above ≠ []) : checkPath above = .ok () := by
  obtain ⟨more, rfl⟩ := habove
  unfold checkPath at h ⊢
  split_ifs at h with hnul hempty hlong
  rw [if_neg, if_neg, if_neg]
  · rw [Text.byteLength_append] at hlong
    omega
  · simpa using hne
  · intro hmem
    exact hnul (by simp at hmem ⊢; exact .inl hmem)

/-- **The directories above** a place for a file are there. -/
theorem Places.makeParent {path : String} {place : Location} (h : d.Places path place) :
    d.makeParent path = ⟨d, .ok ()⟩ := by
  obtain ⟨directory, name, -, hfollow, hname, -⟩ := h.step
  obtain ⟨hbody, hempty, hhere, hup⟩ := lastName_eq_some hname
  have hvoid : Path.isVoid name = false := by simp [Path.isVoid, Path.Component.ofSegment?, hempty, hhere, hup]
  rw [body_of_notSlashed h.notSlashed] at hbody hfollow
  obtain ⟨above, hparent, hprefix, hsegments⟩ := Path.parent?_of_segments hbody hvoid
  unfold Disk.makeParent
  rw [hparent]
  simp only
  by_cases hnothing : above = []
  · rw [hnothing]
    rfl
  · apply makeDirectories_of_isDirectory
    obtain ⟨kept, hkept, hsegments⟩ := hsegments.resolve_left hnothing
    -- the way to the file goes through the directory above it
    obtain ⟨more, hmore⟩ := hkept
    rw [← hmore, List.append_assoc, follow_append] at hfollow
    obtain ⟨q, hq, hrest⟩ := bind_eq_ok hfollow
    have hstands := follow_start (List.append_ne_nil_of_right_ne_nil _ (List.cons_ne_nil _ _)) hrest
    have horigin : d.origin above = d.origin path.toList := by
      obtain ⟨rest, hrest⟩ := hprefix
      unfold Disk.origin Path.isAbsolute
      rw [← hrest, List.head?_append_of_ne_nil _ hnothing]
    have hlocate : d.locate (String.ofList above) = .ok q := by
      unfold Disk.locate
      rw [String.toList_ofList, checkPath_of_prefix h.valid hprefix hnothing, horigin]
      show d.follow _ _ = _
      rcases hsegments with hsegments | hsegments
      · rw [hsegments, hq]
      · rw [hsegments, follow_append, hq]
        exact follow_slash hstands
    obtain ⟨e, he⟩ := hstands.exists
    rw [HasDirectory, he] at hstands
    unfold isDirectory Disk.entry
    rw [hlocate]
    simp only [bind, Except.bind, he]
    exact hstands

end Disk

end CodeIndex
