import Mathlib
import CodeIndex.Project.Watch
import CodeIndex.Proofs.Selection.Discovery

/-!
# Keys of paths below the root

A watcher reports paths, and the index knows keys. The key of a path below the root is what follows the
components of the root, without the segments that stand for nothing at both ends. If there is no backslash in
the path then nothing else is done to it, so that the key does not start at the root of the file system or
with a dot: it is its own key, and the path can be put together again from the root and the key.

Main results:
  * `IsBelow.relative_relative` — the key of such a path is its own key;
  * `IsBelow.samePath` — such paths have one key only if they have the same components.
-/

namespace CodeIndex

namespace Path

/-! ## §1. What follows a component. -/

theorem located_cut (ss : Segments) :
    ∀ {front back : List (Component × Segments)} {c : Component} {rest : Segments},
      located ss = front ++ (c, rest) :: back → back = located rest ∧ rest <:+ ss := by
  induction ss with
  | nil => intro front back c rest h; exact absurd h (by simp [located])
  | cons s ss ih =>
    intro front back c rest h
    cases hs : Component.ofSegment? s with
    | none =>
      simp only [located, hs] at h
      obtain ⟨hback, hsuffix⟩ := ih h
      exact ⟨hback, hsuffix.trans (List.suffix_cons s ss)⟩
    | some found =>
      simp only [located, hs] at h
      cases front with
      | nil =>
        obtain ⟨⟨-, rfl⟩, rfl⟩ : (found = c ∧ ss = rest) ∧ located ss = back := by simpa using h
        exact ⟨rfl, List.suffix_cons s ss⟩
      | cons first front =>
        injection h with _ h
        obtain ⟨hback, hsuffix⟩ := ih h
        exact ⟨hback, hsuffix.trans (List.suffix_cons s ss)⟩

/-- After a component come those among the segments after it. -/
theorem components_cut {p : List Char} {front back : List (Component × Segments)} {c : Component}
    {rest : Segments} (h : components p = front ++ (c, rest) :: back) :
    back = located rest ∧ rest <:+ segments p := by
  rw [components_eq] at h
  cases hsegments : segments p with
  | nil => rw [hsegments] at h; exact absurd h (by simp [componentsAmong])
  | cons first ss =>
    -- a first component and those among the segments after it
    have hheaded : ∀ head : Component, (head, ss) :: located ss = front ++ (c, rest) :: back →
        back = located rest ∧ rest <:+ first :: ss := by
      intro head heq
      cases front with
      | nil =>
        obtain ⟨⟨-, rfl⟩, rfl⟩ : (head = c ∧ ss = rest) ∧ located ss = back := by simpa using heq
        exact ⟨rfl, List.suffix_cons first ss⟩
      | cons _ front =>
        injection heq with _ heq
        obtain ⟨hback, hsuffix⟩ := located_cut ss heq
        exact ⟨hback, hsuffix.trans (List.suffix_cons first ss)⟩
    rw [hsegments] at h
    unfold componentsAmong at h
    simp only at h
    split at h
    · exact hheaded _ h
    · split at h
      · exact hheaded _ h
      · exact located_cut (first :: ss) h

/-! ## §2. Void segments. -/

theorem located_dropWhile (ss : Segments) : located (ss.dropWhile isVoid) = located ss := by
  induction ss with
  | nil => rfl
  | cons s ss ih =>
    cases hs : Component.ofSegment? s with
    | none => rw [List.dropWhile_cons_of_pos (by simp [isVoid, hs]), ih]; simp only [located, hs]
    | some c => rw [List.dropWhile_cons_of_neg (by simp [isVoid, hs])]

theorem located_voids {ss : Segments} (h : ∀ s ∈ ss, isVoid s = true) : located ss = [] := by
  rw [← located_dropWhile, List.dropWhile_eq_nil_iff.mpr h]
  rfl

/-- Only void segments are taken away at the end. -/
theorem exists_voids (ss : Segments) :
    ∃ voids, ss = dropVoidEnd ss ++ voids ∧ ∀ s ∈ voids, isVoid s = true := by
  refine ⟨(ss.reverse.takeWhile isVoid).reverse, ?_, fun s hs =>
    List.mem_takeWhile_imp (List.mem_reverse.mp hs)⟩
  unfold dropVoidEnd
  rw [← List.reverse_append, List.takeWhile_append_dropWhile, List.reverse_reverse]

/-- Void segments at the end are no components. -/
theorem located_dropVoidEnd (ss : Segments) :
    (located (dropVoidEnd ss)).map (·.1) = (located ss).map (·.1) := by
  obtain ⟨voids, hsplit, hvoids⟩ := exists_voids ss
  have hlocated := congrArg located hsplit
  rw [located_append, located_voids hvoids, List.append_nil] at hlocated
  rw [hlocated, List.map_map]
  rfl

/-- Segments without the void ones at both ends. -/
def trimVoids (ss : Segments) : Segments := dropVoidEnd (ss.dropWhile isVoid)

theorem located_trimVoids (ss : Segments) : (located (trimVoids ss)).map (·.1) = (located ss).map (·.1) := by
  unfold trimVoids
  rw [located_dropVoidEnd, located_dropWhile]

theorem dropVoidEnd_starts (ss : Segments) : dropVoidEnd ss <+: ss := by
  unfold dropVoidEnd
  rw [← List.reverse_suffix, List.reverse_reverse]
  exact List.dropWhile_suffix _

theorem mem_of_mem_trimVoids {ss : Segments} {s : List Char} (h : s ∈ trimVoids ss) : s ∈ ss :=
  (List.dropWhile_suffix isVoid).subset ((dropVoidEnd_starts _).subset h)

/-- The first segment that is left is not void. -/
theorem trimVoids_first {ss : Segments} {s : List Char} {rest : Segments} (h : trimVoids ss = s :: rest) :
    isVoid s = false := by
  -- what is left starts as the segments do once the void ones in front are gone
  obtain ⟨more, hmore⟩ := dropVoidEnd_starts (ss.dropWhile isVoid)
  rw [show dropVoidEnd (ss.dropWhile isVoid) = s :: rest from h, List.cons_append] at hmore
  by_contra hvoid
  have hhead := List.head?_dropWhile_not isVoid ss
  rw [← hmore] at hhead
  simp only [List.head?_cons] at hhead
  exact hvoid (by simpa using hhead)

/-! ## §3. What a key keeps. -/

theorem mem_joinSegments_of_mem {c : Char} {s : List Char} {ss : Segments} (hs : s ∈ ss) (hc : c ∈ s) :
    c ∈ joinSegments ss := by
  induction ss with
  | nil => exact absurd hs (by simp)
  | cons first rest ih =>
    unfold joinSegments at ih ⊢
    by_cases hrest : rest = []
    · subst hrest
      obtain rfl : s = first := by simpa using hs
      rw [List.intercalate_singleton]
      exact hc
    · rw [List.intercalate_cons_of_ne_nil hrest]
      rcases List.mem_cons.mp hs with rfl | hs
      · exact List.mem_append_left _ (List.mem_append_left _ hc)
      · exact List.mem_append_right _ (ih hs)

theorem joinSegments_segments (p : List Char) : joinSegments (segments p) = p := List.intercalate_splitOn '/'

theorem mem_of_mem_segment {p s : List Char} {c : Char} (hs : s ∈ segments p) (hc : c ∈ s) : c ∈ p := by
  rw [← joinSegments_segments p]
  exact mem_joinSegments_of_mem hs hc

theorem noSlash_of_mem_segments (p : List Char) : ∀ s ∈ segments p, '/' ∉ s := by
  unfold segments
  induction p with
  | nil => simp
  | cons c p ih =>
    intro s hs
    rw [List.splitOn_cons_eq_if_modifyHead] at hs
    split at hs
    · rcases List.mem_cons.mp hs with rfl | hs
      · simp
      · exact ih s hs
    next hc =>
      cases hsplit : p.splitOn '/' with
      | nil => exact absurd hsplit (List.splitOn_ne_nil _ _)
      | cons first rest =>
        rw [hsplit] at ih hs
        rw [List.modifyHead_cons] at hs
        rcases List.mem_cons.mp hs with rfl | hs
        · intro hslash
          rcases List.mem_cons.mp hslash with hslash | hslash
          · exact hc (by simp [← hslash])
          · exact ih first List.mem_cons_self hslash
        · exact ih s (List.mem_cons_of_mem _ hs)

/-- What is left of a path below an absolute one: the segments after the components of that one, without the void
ones at both ends. -/
theorem strip?_eq_some {base p t : List Char} (hbase : isAbsolute base = true) (h : strip? base p = some t) :
    ∃ rest, t = joinSegments (trimVoids rest) ∧ rest <:+ segments p
      ∧ (components p).map (·.1) = (components base).map (·.1) ++ (located rest).map (·.1) := by
  unfold strip? at h
  simp only at h
  split at h
  next hprefix =>
    rw [List.isPrefixOf_iff_prefix] at hprefix
    generalize hfront : (components base).map (·.1) = front at hprefix h
    have htake : ((components p).take front.length).map (·.1) = front := by
      rw [List.map_take]
      exact (List.prefix_iff_eq_take.mp hprefix).symm
    have hne : front ≠ [] := by
      rw [← hfront, components_eq, hbase]
      cases hsegments : segments base with
      | nil => exact absurd hsegments (List.splitOn_ne_nil _ _)
      | cons first rest => simp [componentsAmong]
    -- an absolute path has a component, and the path is cut after the last one that the two share
    rcases List.eq_nil_or_concat ((components p).take front.length) with hnil | ⟨before, ⟨c, rest⟩, hlast⟩
    · rw [hnil] at htake
      exact absurd htake.symm hne
    · rw [List.concat_eq_append] at hlast
      rw [hlast, List.getLast?_concat] at h
      have hsplit : components p = before ++ (c, rest) :: (components p).drop front.length := by
        conv_lhs => rw [← List.take_append_drop front.length (components p), hlast]
        simp
      obtain ⟨hback, hsuffix⟩ := components_cut hsplit
      refine ⟨rest, (Option.some.inj h).symm, hsuffix, ?_⟩
      rw [← hback]
      conv_lhs => rw [← List.take_append_drop front.length (components p), List.map_append, htake]
  next => exact absurd h (by simp)

/-- A path below a root that is written without backslashes. -/
def IsBelow (root path : String) : Prop :=
  (strip? root.toList path.toList).isSome = true ∧ '\\' ∉ path.toList

instance (root path : String) : Decidable (IsBelow root path) := inferInstanceAs (Decidable (_ ∧ _))

/-- What is left of a path is a key as it is, if there is no backslash in it. -/
theorem key_of_trimmed {t : List Char} {rest : Segments} (hrest : ∀ s ∈ rest, '/' ∉ s ∧ '\\' ∉ s)
    (ht : t = joinSegments (trimVoids rest)) :
    dropHere (slashed t) = t ∧ isAbsolute t = false
      ∧ (located (segments t)).map (·.1) = (located rest).map (·.1) := by
  have hmem : ∀ s ∈ trimVoids rest, '/' ∉ s ∧ '\\' ∉ s := fun s hs => hrest s (mem_of_mem_trimVoids hs)
  have hslashed : slashed t = t := by
    refine slashed_of_noBackslash fun hbackslash => ?_
    rcases mem_joinSegments _ (ht ▸ hbackslash) with hslash | ⟨s, hs, hbackslash⟩
    · exact absurd hslash (by decide)
    · exact (hmem s hs).2 hbackslash
  rw [hslashed, ← located_trimVoids rest]
  cases hcase : trimVoids rest with
  | nil =>
    rw [hcase] at ht
    obtain rfl : t = [] := ht.trans List.intercalate_nil
    exact ⟨rfl, rfl, rfl⟩
  | cons first others =>
    -- the first segment is not void, so it is neither empty nor a dot
    have hvoid := trimVoids_first hcase
    have hsegments : segments t = first :: others := by
      rw [ht, ← hcase]
      exact List.splitOn_intercalate '/' (fun s hs => (hmem s hs).1) (by simp [hcase])
    refine ⟨dropHere_of_first hsegments ?_, isAbsolute_of_first hsegments ?_, by rw [hsegments]⟩
    · rintro rfl
      exact absurd hvoid (by decide)
    · rintro rfl
      exact absurd hvoid (by decide)

/-- There is no backslash in a segment of a path without backslashes. -/
theorem plain_of_mem_segments {p : List Char} (hp : '\\' ∉ p) : ∀ s ∈ segments p, '/' ∉ s ∧ '\\' ∉ s :=
  fun s hs => ⟨noSlash_of_mem_segments p s hs, fun hbackslash => hp (mem_of_mem_segment hs hbackslash)⟩

theorem root_notMem_located (ss : Segments) : .root ∉ (located ss).map (·.1) := by
  induction ss with
  | nil => simp [located]
  | cons s ss ih =>
    cases hs : Component.ofSegment? s with
    | none => simpa only [located, hs] using ih
    | some c =>
      have hc : c ≠ .root := by
        rintro rfl
        unfold Component.ofSegment? at hs
        split_ifs at hs <;> cases hs
      simp only [located, hs, List.map_cons, List.mem_cons, not_or]
      exact ⟨hc.symm, ih⟩

/-- A path that does not start at the root of the file system is not below one that does. -/
theorem strip?_of_relative {base p : List Char} (hbase : isAbsolute base = true) (hp : isAbsolute p = false) :
    strip? base p = none := by
  -- only the first component can be the root of the file system
  have hroot : .root ∉ (components p).map (·.1) := by
    rw [components_eq, hp]
    cases segments p with
    | nil => simp [componentsAmong]
    | cons first rest =>
      simp only [componentsAmong, Bool.false_eq_true, if_false]
      split
      · simpa using root_notMem_located rest
      · exact root_notMem_located (first :: rest)
  have hfirst : ∃ more, (components base).map (·.1) = .root :: more := by
    rw [components_eq, hbase]
    cases hsegments : segments base with
    | nil => exact absurd hsegments (List.splitOn_ne_nil _ _)
    | cons first rest => exact ⟨_, rfl⟩
  obtain ⟨more, hmore⟩ := hfirst
  unfold strip?
  simp only
  rw [if_neg]
  rw [List.isPrefixOf_iff_prefix, hmore]
  rintro ⟨after, heq⟩
  exact hroot (by rw [← heq]; simp)

variable {root path path' : String}

/-- The key of a path is what is left of it, and its own key, if there is no backslash in that. -/
theorem relative_of_trimmed (hroot : isAbsolute root.toList = true) {rest : Segments}
    (hrest : ∀ s ∈ rest, '/' ∉ s ∧ '\\' ∉ s)
    (hstrip : strip? root.toList path.toList = some (joinSegments (trimVoids rest))) :
    relative root path = String.ofList (joinSegments (trimVoids rest))
      ∧ relative root (relative root path) = relative root path := by
  obtain ⟨hkey, hrelative, -⟩ := key_of_trimmed hrest rfl
  have hpath : relative root path = String.ofList (joinSegments (trimVoids rest)) := by
    unfold relative
    rw [hstrip, Option.getD_some, hkey]
  refine ⟨hpath, ?_⟩
  rw [hpath]
  unfold relative
  rw [String.toList_ofList, strip?_of_relative hroot hrelative, Option.getD_none, hkey]

/-- **The key of a path below the root** is its own key. -/
theorem IsBelow.relative_relative (hroot : isAbsolute root.toList = true) (h : IsBelow root path) :
    relative root (relative root path) = relative root path := by
  obtain ⟨t, ht⟩ := Option.isSome_iff_exists.mp h.1
  obtain ⟨rest, rfl, hrest, -⟩ := strip?_eq_some hroot ht
  exact (relative_of_trimmed hroot (fun s hs => plain_of_mem_segments h.2 s (hrest.subset hs)) ht).2

/-- **Paths below the root with one key** have the same components. -/
theorem IsBelow.samePath (hroot : isAbsolute root.toList = true) (h : IsBelow root path)
    (h' : IsBelow root path') (hkey : relative root path = relative root path') :
    samePath path path' = true := by
  obtain ⟨t, ht⟩ := Option.isSome_iff_exists.mp h.1
  obtain ⟨t', ht'⟩ := Option.isSome_iff_exists.mp h'.1
  obtain ⟨rest, htrimmed, hrest, hall⟩ := strip?_eq_some hroot ht
  obtain ⟨rest', htrimmed', hrest', hall'⟩ := strip?_eq_some hroot ht'
  obtain ⟨hkeep, -, hsegments⟩ :=
    key_of_trimmed (fun s hs => plain_of_mem_segments h.2 s (hrest.subset hs)) htrimmed
  obtain ⟨hkeep', -, hsegments'⟩ :=
    key_of_trimmed (fun s hs => plain_of_mem_segments h'.2 s (hrest'.subset hs)) htrimmed'
  unfold relative at hkey
  rw [ht, ht', Option.getD_some, Option.getD_some, hkeep, hkeep'] at hkey
  obtain rfl : t = t' := String.ofList_injective hkey
  unfold CodeIndex.samePath
  rw [beq_iff_eq, hall, hall', ← hsegments, ← hsegments']

end Path

end CodeIndex
