import Mathlib
import CodeIndex.Proofs.Index.Pass

/-!
# Keys and the files they stand for

A file is known by its key alone once it has a row, so the key must lead back to the place at which
the file was found. It does if the names on the way are proper ones without a backslash (`IsName`),
since a key has slashes in the place of backslashes. Then the key is the names with slashes between
them, it leads from the root through these names, and whether a file is selected depends on its key.

Main results:
  * `relative_pathBelow` — the key of a file is made of the names that lead to it;
  * `entry_below` — what a key leads to stands below the root at these names, in open directories;
  * `Eligible.of_selected`, `Eligible.selected` — a file is selected if its key is eligible and leads to
    a regular file, and only then.
-/

namespace CodeIndex

namespace Path

/-! ## §1. Names and segments. -/

/-- A name that an entry of a directory has. -/
structure IsProper (n : List Char) : Prop where
  nonempty : n ≠ []
  notHere : n ≠ ['.']
  notUp : n ≠ ['.', '.']
  noSlash : '/' ∉ n

/-- A name that an entry of a directory has, and that a key keeps as it is. -/
structure IsName (n : List Char) : Prop where
  nonempty : n ≠ []
  notHere : n ≠ ['.']
  notUp : n ≠ ['.', '.']
  noSlash : '/' ∉ n
  noBackslash : '\\' ∉ n

theorem IsName.proper {n : List Char} (h : IsName n) : IsProper n :=
  ⟨h.nonempty, h.notHere, h.notUp, h.noSlash⟩

instance (n : List Char) : Decidable (IsName n) :=
  decidable_of_iff (n ≠ [] ∧ n ≠ ['.'] ∧ n ≠ ['.', '.'] ∧ '/' ∉ n ∧ '\\' ∉ n)
    ⟨fun ⟨h₁, h₂, h₃, h₄, h₅⟩ => ⟨h₁, h₂, h₃, h₄, h₅⟩, fun h => ⟨h.1, h.2, h.3, h.4, h.5⟩⟩

/-- Names that lead from a directory to an entry below it. -/
structure Leads (names : List (List Char)) : Prop where
  nonempty : names ≠ []
  each : ∀ n ∈ names, IsProper n

/-- Such names that a key keeps as they are. -/
structure AreNames (names : List (List Char)) : Prop where
  nonempty : names ≠ []
  each : ∀ n ∈ names, IsName n

variable {names : List (List Char)}

theorem AreNames.leads (h : AreNames names) : Leads names :=
  ⟨h.nonempty, fun n hn => (h.each n hn).proper⟩

theorem IsProper.ofSegment? {n : List Char} (h : IsProper n) : Component.ofSegment? n = some (.name n) := by
  unfold Component.ofSegment?
  rw [if_neg h.nonempty, if_neg h.notHere, if_neg h.notUp]

theorem IsProper.notVoid {n : List Char} (h : IsProper n) : isVoid n = false := by
  unfold isVoid
  rw [h.ofSegment?]
  rfl

theorem Leads.segments (h : Leads names) : segments (joinSegments names) = names :=
  List.splitOn_intercalate '/' (fun n hn => (h.each n hn).noSlash) h.nonempty

theorem segments_append (p rest : List Char) : segments (p ++ '/' :: rest) = segments p ++ segments rest :=
  List.splitOn_append_cons_self p rest

theorem joinSegments_append {front more : Segments} (hfront : front ≠ []) (hmore : more ≠ []) :
    joinSegments (front ++ more) = joinSegments front ++ '/' :: joinSegments more := by
  induction front with
  | nil => exact absurd rfl hfront
  | cons s rest ih =>
    unfold joinSegments at ih ⊢
    cases rest with
    | nil =>
      rw [List.singleton_append, List.intercalate_cons_of_ne_nil hmore, List.intercalate_singleton]
      simp
    | cons t rest =>
      rw [List.cons_append, List.intercalate_cons_of_ne_nil (by simp), List.intercalate_cons_of_ne_nil (by simp),
        ih (by simp)]
      simp

/-- A path that starts with a slash or is empty is one whose first segment is empty. -/
theorem segments_first {p first : List Char} {rest : Segments} (hp : p ≠ [])
    (hrelative : isAbsolute p = false) (h : segments p = first :: rest) : first ≠ [] := by
  cases p with
  | nil => exact absurd rfl hp
  | cons c p =>
    have hc : (c == '/') = false := by simpa [isAbsolute] using hrelative
    unfold segments at h
    rw [List.splitOn_cons_eq_if_modifyHead, hc, if_neg (by simp)] at h
    cases hsplit : p.splitOn '/' with
    | nil => exact absurd hsplit (List.splitOn_ne_nil _ _)
    | cons s ss =>
      rw [hsplit, List.modifyHead_cons] at h
      injection h with h
      rw [← h]
      simp

/-- A leading slash makes the first segment empty. -/
theorem isAbsolute_of_first {p first : List Char} {rest : Segments} (h : segments p = first :: rest)
    (hfirst : first ≠ []) : isAbsolute p = false := by
  by_contra habsolute
  obtain ⟨more, rfl⟩ : ∃ more, p = '/' :: more := by
    cases p with
    | nil => exact absurd rfl habsolute
    | cons c more => exact ⟨more, by simpa [isAbsolute] using habsolute⟩
  have hsplit := segments_append [] more
  have hempty : segments [] = [[]] := by decide
  rw [List.nil_append, h, hempty] at hsplit
  exact hfirst (List.cons.inj hsplit).1

/-- A leading dot is dropped only if it is the first segment. -/
theorem dropHere_of_first {p first : List Char} {rest : Segments} (h : segments p = first :: rest)
    (hfirst : first ≠ ['.']) : dropHere p = p := by
  unfold dropHere
  split
  next _ more =>
    have hsplit := segments_append ['.'] more
    have hdot : segments ['.'] = [['.']] := by decide
    rw [List.singleton_append, h, hdot] at hsplit
    exact absurd (List.cons.inj hsplit).1 hfirst
  next => rfl

theorem slashed_of_noBackslash {p : List Char} (h : '\\' ∉ p) : slashed p = p := by
  unfold slashed
  refine (List.map_congr_left fun c hc => ?_).trans (List.map_id _)
  have hne : c ≠ '\\' := by
    rintro rfl
    exact h hc
  simp [hne]

theorem Leads.relative (h : Leads names) : isAbsolute (joinSegments names) = false := by
  obtain ⟨first, rest, hnames⟩ := List.exists_cons_of_ne_nil h.nonempty
  exact isAbsolute_of_first (h.segments.trans hnames) (h.each first (by simp [hnames])).nonempty

/-- The segments of a path are put after those of a base, but for an empty segment at its end. -/
theorem segments_joined {base p : List Char} (hbase : base ≠ []) (hp : isAbsolute p = false) :
    ∃ front, front ≠ [] ∧ (segments base = front ∨ segments base = front ++ [[]])
      ∧ segments (join base p) = front ++ segments p ∧ isAbsolute (join base p) = isAbsolute base := by
  unfold join
  rw [hp, if_neg (by simp), if_neg (by simpa using hbase)]
  by_cases hlast : base.getLast? = some '/'
  · -- the slash at the end of the base stands between the two
    rw [if_pos (by simpa using hlast)]
    obtain ⟨front, rfl⟩ := List.getLast?_eq_some_iff.mp hlast
    refine ⟨segments front, List.splitOn_ne_nil _ _, .inr (segments_append front []), ?_, ?_⟩
    · rw [List.append_assoc, List.singleton_append, segments_append]
    · unfold isAbsolute
      rw [List.head?_append_of_ne_nil _ hbase]
  · rw [if_neg (by simpa using hlast)]
    refine ⟨segments base, List.splitOn_ne_nil _ _, .inl rfl, segments_append base p, ?_⟩
    unfold isAbsolute
    rw [List.head?_append_of_ne_nil _ hbase]

/-- Names are put after the segments of a base, but for an empty segment at its end. -/
theorem segments_join {base : List Char} (hbase : base ≠ []) (h : Leads names) :
    ∃ front, front ≠ [] ∧ (segments base = front ∨ segments base = front ++ [[]])
      ∧ segments (join base (joinSegments names)) = front ++ names
      ∧ isAbsolute (join base (joinSegments names)) = isAbsolute base := by
  obtain ⟨front, hfront, hsegments, hjoined, habsolute⟩ := segments_joined hbase h.relative
  exact ⟨front, hfront, hsegments, hjoined.trans (by rw [h.segments]), habsolute⟩

/-! ## §2. Keys. -/

/-- The components among segments, given whether they start at the root of the file system. -/
def componentsAmong (absolute : Bool) : Segments → List (Component × Segments)
  | [] => []
  | first :: rest =>
    if absolute then (.root, rest) :: located rest
    else if first = ['.'] then (.here, rest) :: located rest
    else located (first :: rest)

theorem components_eq (p : List Char) : components p = componentsAmong (isAbsolute p) (segments p) := by
  unfold components componentsAmong
  cases segments p <;> rfl

theorem located_append (front more : Segments) :
    located (front ++ more) = (located front).map (fun c => (c.1, c.2 ++ more)) ++ located more := by
  induction front with
  | nil => rfl
  | cons s rest ih =>
    rw [List.cons_append]
    cases hs : Component.ofSegment? s with
    | none => simp only [located, hs, ih]
    | some c => simp only [located, hs, ih, List.map_cons, List.cons_append]

theorem componentsAmong_append (absolute : Bool) {front : Segments} (hfront : front ≠ [])
    (more : Segments) :
    componentsAmong absolute (front ++ more)
      = (componentsAmong absolute front).map (fun c => (c.1, c.2 ++ more)) ++ located more := by
  cases front with
  | nil => exact absurd rfl hfront
  | cons first rest =>
    simp only [List.cons_append, componentsAmong]
    split
    · rw [located_append]; rfl
    · split
      · rw [located_append]; rfl
      · exact located_append (first :: rest) more

/-- What follows the last component stands for nothing. -/
theorem void_after_last (ss : Segments) :
    ∀ {first c : Component} {rest : Segments},
      ((first, ss) :: located ss).getLast? = some (c, rest) → ∀ s ∈ rest, isVoid s = true := by
  induction ss with
  | nil =>
    intro first c rest h
    simp only [located, List.getLast?_singleton, Option.some.injEq, Prod.mk.injEq] at h
    rw [← h.2]
    simp
  | cons s ss ih =>
    intro first c rest h
    cases hs : Component.ofSegment? s with
    | some found =>
      simp only [located, hs] at h
      rw [List.getLast?_cons_cons] at h
      exact ih h
    | none =>
      simp only [located, hs] at h
      -- a void segment is passed over: the last component is found in the rest, or is the first
      cases hlocated : located ss with
      | nil =>
        rw [hlocated] at h
        simp only [List.getLast?_singleton, Option.some.injEq, Prod.mk.injEq] at h
        have hss := @ih first first ss (by rw [hlocated]; rfl)
        rw [← h.2]
        intro t ht
        rcases List.mem_cons.mp ht with rfl | ht
        · simp [isVoid, hs]
        · exact hss t ht
      | cons next more =>
        rw [hlocated, List.getLast?_cons_cons] at h
        refine @ih first c rest ?_
        rw [hlocated, List.getLast?_cons_cons]
        exact h

/-- The components of a path that is not empty: a first one, and those among the segments after it. -/
theorem componentsAmong_cons {p : List Char} (hp : p ≠ []) {front : Segments} (hfront : front ≠ [])
    (h : segments p = front ∨ segments p = front ++ [[]]) :
    ∃ first rest, componentsAmong (isAbsolute p) front = (first, rest) :: located rest := by
  cases front with
  | nil => exact absurd rfl hfront
  | cons s rest =>
    have hs : isAbsolute p = false → s ≠ [] := by
      intro hrelative
      rcases h with h | h
      · exact segments_first hp hrelative h
      · exact segments_first hp hrelative h
    unfold componentsAmong
    cases habsolute : isAbsolute p with
    | true => exact ⟨.root, rest, rfl⟩
    | false =>
      by_cases hhere : s = ['.']
      · exact ⟨.here, rest, by simp [hhere]⟩
      · have hsome : ∃ c, Component.ofSegment? s = some c := by
          unfold Component.ofSegment?
          rw [if_neg (hs habsolute), if_neg hhere]
          split <;> exact ⟨_, rfl⟩
        obtain ⟨c, hc⟩ := hsome
        exact ⟨c, rest, by simp [hhere, located, hc]⟩

theorem Leads.dropVoids (h : Leads names) {voids : Segments} (hvoids : ∀ s ∈ voids, isVoid s = true) :
    dropVoidEnd ((voids ++ names).dropWhile isVoid) = names := by
  have hfront : (voids ++ names).dropWhile isVoid = names := by
    rw [List.dropWhile_append_of_pos hvoids]
    cases hnames : names with
    | nil => rfl
    | cons n rest =>
      refine List.dropWhile_cons_of_neg ?_
      rw [(h.each n (by rw [hnames]; exact List.mem_cons_self)).notVoid]
      simp
  unfold dropVoidEnd
  rw [hfront]
  cases hreverse : names.reverse with
  | nil => rw [List.reverse_eq_nil_iff.mp hreverse]; rfl
  | cons n rest =>
    have hn : n ∈ names := by rw [← List.mem_reverse, hreverse]; exact List.mem_cons_self
    rw [List.dropWhile_cons_of_neg (by rw [(h.each n hn).notVoid]; simp), ← hreverse,
      List.reverse_reverse]

/-- An empty segment at the end of a path is no component. -/
theorem components_of_segments {p : List Char} {front : Segments} (hfront : front ≠ [])
    (h : segments p = front ∨ segments p = front ++ [[]]) :
    (components p).map (·.1) = (componentsAmong (isAbsolute p) front).map (·.1) := by
  rw [components_eq]
  rcases h with h | h
  · rw [h]
  · rw [h, componentsAmong_append _ hfront]
    simp [located, Component.ofSegment?, Function.comp_def]

/-- What is left of a path below a base is the names that lead to it. -/
theorem strip?_join {base : List Char} (hbase : base ≠ []) (h : Leads names) :
    strip? base (join base (joinSegments names)) = some (joinSegments names) := by
  obtain ⟨front, hfront, hsegments, hjoined, habsolute⟩ := segments_join hbase h
  obtain ⟨first, rest, hfirst⟩ := componentsAmong_cons hbase hfront hsegments
  have hall : components (join base (joinSegments names))
      = (componentsAmong (isAbsolute base) front).map (fun c => (c.1, c.2 ++ names))
        ++ located names := by
    rw [components_eq, habsolute, hjoined, componentsAmong_append _ hfront]
  unfold strip?
  simp only
  rw [components_of_segments hfront hsegments, hall]
  rw [if_pos (by
    rw [List.isPrefixOf_iff_prefix, List.map_append, List.map_map]
    exact List.prefix_append _ _)]
  rw [List.take_left' (by simp), hfirst]
  -- after the last component of the base come its void segments, and then the names
  obtain ⟨last, hlast⟩ : ∃ last, ((first, rest) :: located rest).getLast? = some last :=
    ⟨_, List.getLast?_eq_some_getLast (by simp)⟩
  rw [List.getLast?_map, hlast, Option.map_some]
  simp only
  rw [h.dropVoids (void_after_last rest hlast)]

theorem mem_joinSegments {c : Char} (ss : Segments) :
    c ∈ joinSegments ss → c = '/' ∨ ∃ s ∈ ss, c ∈ s := by
  induction ss with
  | nil => intro h; exact absurd h (by simp [joinSegments, List.intercalate_nil])
  | cons s rest ih =>
    intro h
    by_cases hrest : rest = []
    · rw [hrest, joinSegments, List.intercalate_singleton] at h
      exact .inr ⟨s, List.mem_cons_self, h⟩
    · rw [joinSegments, List.intercalate_cons_of_ne_nil hrest] at h
      rcases List.mem_append.mp h with h | h
      · rcases List.mem_append.mp h with h | h
        · exact .inr ⟨s, List.mem_cons_self, h⟩
        · exact .inl (List.mem_singleton.mp h)
      · rcases ih h with h | ⟨t, ht, h⟩
        · exact .inl h
        · exact .inr ⟨t, List.mem_cons_of_mem _ ht, h⟩

theorem AreNames.slashed (h : AreNames names) : slashed (joinSegments names) = joinSegments names := by
  refine slashed_of_noBackslash fun hmem => ?_
  rcases mem_joinSegments names hmem with hslash | ⟨n, hn, hmem⟩
  · exact absurd hslash (by decide)
  · exact (h.each n hn).noBackslash hmem

theorem AreNames.dropHere (h : AreNames names) : dropHere (joinSegments names) = joinSegments names := by
  obtain ⟨first, rest, hnames⟩ := List.exists_cons_of_ne_nil h.nonempty
  exact dropHere_of_first (h.leads.segments.trans hnames) (h.each first (by simp [hnames])).notHere

end Path

variable {names : List (List Char)}

/-- The key of the file that names lead to. -/
def keyOf (names : List (List Char)) : String := String.ofList (Path.joinSegments names)

theorem under_keyOf (root : String) (names : List (List Char)) :
    Path.under root (keyOf names) = Walk.pathBelow root names := by
  unfold Path.under keyOf Walk.pathBelow
  rw [String.toList_ofList]

/-- The key of a file is what a key keeps of the names that lead to it. -/
theorem relative_of_leads {root : String} (hroot : root ≠ "") (h : Path.Leads names) :
    Path.relative root (Walk.pathBelow root names)
      = String.ofList (Path.dropHere (Path.slashed (Path.joinSegments names))) := by
  have hbase : root.toList ≠ [] := by simpa using hroot
  unfold Path.relative Walk.pathBelow
  rw [String.toList_ofList, Path.strip?_join hbase h, Option.getD_some]

/-- **The key of a file** is made of the names that lead to it from the root. -/
theorem relative_pathBelow {root : String} (hroot : root ≠ "") (h : Path.AreNames names) :
    Path.relative root (Walk.pathBelow root names) = keyOf names := by
  rw [relative_of_leads hroot h.leads, h.slashed, h.dropHere]
  rfl

/-! ## §3. Following names. -/

namespace Disk

variable {d : Disk}

theorem follow_append (front more : Path.Segments) :
    ∀ place, d.follow place (front ++ more) = (d.follow place front).bind fun q => d.follow q more := by
  induction front with
  | nil => intro place; rfl
  | cons s rest ih =>
    intro place
    simp only [List.cons_append, follow]
    split
    · rfl
    · split
      · exact ih place
      · split
        · exact ih place
        · split
          · exact ih place.dropLast
          · split
            · rfl
            · split
              · exact ih (place ++ [s])
              · rfl

theorem checkStep_eq_ok {place : Location} {s : List Char} (hs : s ≠ []) :
    d.checkStep place s = .ok () ↔ d.at? place = some .directory := by
  unfold checkStep
  split
  next hplace => simp [hplace]
  next hplace => simp [hplace, hs]
  next hother _ => exact ⟨fun h => absurd h (by simp), fun h => absurd h hother⟩

theorem checkStep_of_follow {place q : Location} {s : List Char} {rest : Path.Segments}
    (h : d.follow place (s :: rest) = .ok q) : d.checkStep place s = .ok () := by
  simp only [follow] at h
  split at h
  · exact absurd h (by simp)
  next hstep => exact hstep

/-- A segment that is not empty is followed from a directory that is not closed. -/
theorem at?_of_follow {place q : Location} {s : List Char} {rest : Path.Segments} (hs : s ≠ [])
    (h : d.follow place (s :: rest) = .ok q) : d.at? place = some .directory :=
  (checkStep_eq_ok hs).mp (checkStep_of_follow h)

/-- An empty segment at the end leads nowhere else. -/
theorem follow_empty {place q : Location} (h : d.follow place [[]] = .ok q) : q = place := by
  simp only [follow] at h
  split at h
  · exact absurd h (by simp)
  · simpa using h.symm

theorem follow_names {start place : Location} (h : ∀ n ∈ names, Path.IsName n) :
    d.follow start names = .ok place → place = start ++ names := by
  induction names generalizing start with
  | nil => intro hfollow; simpa [follow] using hfollow.symm
  | cons n rest ih =>
    intro hfollow
    have hn := h n List.mem_cons_self
    -- a name is none of the segments that stay in a place or go up
    simp only [follow] at hfollow
    split at hfollow
    · exact absurd hfollow (by simp)
    · rw [if_neg hn.nonempty, if_neg hn.notHere, if_neg hn.notUp] at hfollow
      split at hfollow
      · exact absurd hfollow (by simp)
      · split at hfollow
        · rw [ih (fun m hm => h m (List.mem_cons_of_mem _ hm)) hfollow, List.append_assoc,
            List.singleton_append]
        · exact absurd hfollow (by simp)

theorem locate_eq_ok {path : String} {place : Location} (h : d.locate path = .ok place) :
    path ≠ "" ∧ d.follow (d.origin path.toList) (Path.segments path.toList) = .ok place := by
  unfold locate at h
  cases hcheck : checkPath path.toList with
  | error e => rw [hcheck] at h; exact absurd h (by simp [bind, Except.bind])
  | ok _ =>
    rw [hcheck] at h
    refine ⟨?_, h⟩
    rintro rfl
    exact absurd hcheck (by simp [checkPath])

theorem entry_eq_ok {path : String} {e : Entry} (h : d.entry path = .ok e) :
    ∃ place, d.locate path = .ok place ∧ d.at? place = some e := by
  unfold entry at h
  cases hplace : d.locate path with
  | error e => rw [hplace] at h; exact absurd h (by simp [bind, Except.bind])
  | ok place =>
    rw [hplace] at h
    simp only [bind, Except.bind] at h
    cases hat : d.at? place with
    | none => rw [hat] at h; exact absurd h (by simp [throw, throwThe, MonadExceptOf.throw])
    | some found =>
      rw [hat] at h
      exact ⟨place, rfl, congrArg some (Except.ok.inj h) ▸ hat⟩

theorem isDirectory_eq_true {path : String} (h : d.isDirectory path = true) :
    ∃ e, d.entry path = .ok e ∧ e.isDirectory = true := by
  unfold isDirectory at h
  split at h
  next e he => exact ⟨e, he, h⟩
  next => exact absurd h Bool.false_ne_true

/-- The names of a key are followed from the root. -/
theorem follow_below {root : String} {start place : Location} (hstart : d.locate root = .ok start)
    (h : Path.Leads names) (hlocate : d.locate (Walk.pathBelow root names) = .ok place) :
    d.follow start names = .ok place := by
  obtain ⟨hroot, hfollow⟩ := locate_eq_ok hstart
  have hbase : root.toList ≠ [] := by simpa using hroot
  obtain ⟨front, -, hsegments, hjoined, habsolute⟩ := Path.segments_join hbase h
  -- the root is found on the way
  have hfront : d.follow (d.origin root.toList) front = .ok start := by
    rcases hsegments with hsegments | hsegments
    · rw [← hsegments]; exact hfollow
    · rw [hsegments, follow_append] at hfollow
      cases hmid : d.follow (d.origin root.toList) front with
      | error e => rw [hmid] at hfollow; exact absurd hfollow (by simp [Except.bind])
      | ok q => rw [hmid] at hfollow; rw [follow_empty hfollow]
  have hplace := (locate_eq_ok hlocate).2
  unfold Walk.pathBelow at hplace
  rw [String.toList_ofList, hjoined, origin, habsolute, follow_append] at hplace
  rw [origin] at hfront
  rwa [hfront] at hplace

/-- No directory on a way that can be followed is closed. -/
theorem isOpen_of_follow {start place : Location} (h : ∀ n ∈ names, Path.IsName n)
    (hfollow : d.follow start names = .ok place) : Walk.isOpen d start names = true := by
  refine List.all_eq_true.mpr fun above habove => ?_
  obtain ⟨i, hi, rfl⟩ := List.mem_map.mp habove
  rw [List.mem_range] at hi
  -- the way goes on from the directory by a name, so that it can be searched
  have hdrop : names.drop (i + 1) ≠ [] := by
    rw [ne_eq, List.drop_eq_nil_iff]
    omega
  obtain ⟨n, rest, hrest⟩ := List.exists_cons_of_ne_nil hdrop
  have hn : n ∈ names := List.mem_of_mem_drop (hrest ▸ List.mem_cons_self)
  rw [← List.take_append_drop (i + 1) names, follow_append, hrest] at hfollow
  cases hmid : d.follow start (names.take (i + 1)) with
  | error e => rw [hmid] at hfollow; exact absurd hfollow (by simp [Except.bind])
  | ok q =>
    rw [hmid] at hfollow
    rw [← follow_names (fun m hm => h m (List.mem_of_mem_take hm)) hmid,
      at?_of_follow (h n hn).nonempty hfollow]

/-- **What a key leads to** stands below the root at the names of the key, and no directory on the way is
closed. -/
theorem entry_below {root : String} {start : Location} {e : Entry} (hstart : d.locate root = .ok start)
    (h : Path.AreNames names) (hentry : d.entry (Walk.pathBelow root names) = .ok e) :
    (start ++ names, e) ∈ d.entries ∧ Walk.isOpen d start names = true := by
  obtain ⟨place, hlocate, hat⟩ := entry_eq_ok hentry
  have hfollow := follow_below hstart h.leads hlocate
  refine ⟨?_, isOpen_of_follow h.each hfollow⟩
  have hne : start ++ names ≠ [] := by simp [h.nonempty]
  rw [follow_names h.each hfollow, at?, if_neg hne] at hat
  exact mem_of_lookup hat

end Disk

/-! ## §4. Files that are found. -/

namespace Walk

variable {filter : FileFilter} {root : String} {start place : Location} {e : Entry}

/-- A file is found by the names that lead to it, unless a directory on the way is closed or left out, under
the class of its key. -/
theorem found?_eq_some {d : Disk} {f : Discovered} :
    found? d filter root root start (place, e) = some f ↔
      e.isDirectory = false ∧ ∃ names, place = start ++ names ∧ names ≠ []
        ∧ isOpen d start names = true ∧ reaches filter root root names = true
        ∧ f.path = Path.relative root (pathBelow root names)
        ∧ filter.classify? f.path = some f.fileClass := by
  have hbelow : ∀ names, below? start place = some names ↔ place = start ++ names := by
    intro names
    unfold below?
    rw [List.isPrefixOf?_eq_some_iff_append_eq, eq_comm]
  unfold found?
  simp only [Option.bind_eq_bind, Option.bind_eq_some_iff, hbelow]
  obtain ⟨path, c⟩ := f
  cases hfile : e.isDirectory with
  | true => simp
  | false =>
    simp only [true_and, Bool.false_or]
    refine exists_congr fun names => and_congr_right fun _ => ?_
    -- each of the three conditions of the walk, one after another
    by_cases hnames : names = []
    · simp [hnames]
    · cases hopen : isOpen d start names with
      | false => simp
      | true =>
        cases hreaches : reaches filter root root names with
        | false => simp
        | true =>
          rw [if_neg (by simp [hnames]), Option.map_eq_some_iff]
          constructor
          · rintro ⟨found, hclass, heq⟩
            cases heq
            exact ⟨hnames, rfl, rfl, rfl, hclass⟩
          · rintro ⟨-, -, -, rfl, hclass⟩
            exact ⟨c, hclass, rfl⟩

end Walk

/-! ## §5. Eligible keys. -/

/-- All that is below a directory has names. -/
def Disk.NamedBelow (d : Disk) (root : String) : Prop :=
  ∀ start, d.locate root = .ok start →
    ∀ names e, (start ++ names, e) ∈ d.entries → ∀ n ∈ names, Path.IsName n

theorem Disk.NamedBelow.of_entries {d : Disk} {root : String}
    (h : ∀ entry ∈ d.entries, ∀ n ∈ entry.1, Path.IsName n) : d.NamedBelow root := by
  intro start _ names e hmem n hn
  exact h _ hmem n (List.mem_append_right _ hn)

/-- A key under which a file is selected wherever it is a regular file: its names lead through no
directory that is left out, and it has a class. -/
def Indexer.Eligible (x : Indexer) (path : String) (c : FileClass) : Prop :=
  ∃ names, Path.AreNames names ∧ path = keyOf names
    ∧ Walk.reaches x.filter x.root x.root names = true ∧ x.filter.classify? path = some c

namespace Indexer

variable {x : Indexer} {d : Disk} {files : List Discovered}

/-- A pass without additional paths goes by what discovery finds below the root. -/
theorem selected_found (h : x.selected d [] = .ok files) :
    ∃ start, d.locate x.root = .ok start
      ∧ (∀ f ∈ files, ∃ entry ∈ d.entries, Walk.found? d x.filter x.root x.root start entry = some f)
      ∧ ∀ entry ∈ d.entries, ∀ f, Walk.found? d x.filter x.root x.root start entry = some f →
        f.path ∈ files.map (·.path) := by
  unfold selected discover at h
  cases hstart : d.locate x.root with
  | error e => rw [hstart] at h; exact absurd h (by simp [bind, Except.bind])
  | ok start =>
    rw [hstart] at h
    simp only at h
    split at h
    · simp only [bind, Except.bind, pure, Except.pure, List.mapM_nil, List.flatten_nil,
        List.append_nil, Except.ok.injEq] at h
      obtain ⟨-, hmem, hpaths⟩ := eraseDupsBy_paths (sortDiscovered
        (sortDiscovered (d.entries.filterMap (Walk.found? d x.filter x.root x.root start))))
      rw [h] at hmem hpaths
      -- sorting neither adds nor drops a file
      have hsorted : ∀ f, f ∈ sortDiscovered (sortDiscovered
          (d.entries.filterMap (Walk.found? d x.filter x.root x.root start)))
          ↔ ∃ entry ∈ d.entries, Walk.found? d x.filter x.root x.root start entry = some f := by
        intro f
        unfold sortDiscovered
        rw [List.mem_mergeSort, List.mem_mergeSort, List.mem_filterMap]
      exact ⟨start, rfl, fun f hf => (hsorted f).mp (hmem f hf),
        fun entry hentry f hfound => hpaths f ((hsorted f).mpr ⟨entry, hentry, hfound⟩)⟩
    all_goals exact absurd h (by simp [bind, Except.bind])

/-- A selected file has an eligible key. -/
theorem Eligible.of_selected (hnamed : d.NamedBelow x.root) (h : x.selected d [] = .ok files)
    {f : Discovered} (hf : f ∈ files) : x.Eligible f.path f.fileClass := by
  obtain ⟨start, hstart, hfound, -⟩ := selected_found h
  obtain ⟨⟨place, e⟩, hentry, hsome⟩ := hfound f hf
  obtain ⟨-, names, hplace, hne, -, hreaches, hpath, hclass⟩ := Walk.found?_eq_some.mp hsome
  -- it was found at names below the root, so these are names of the disk
  have hnames : Path.AreNames names :=
    ⟨hne, hnamed start hstart names e (hplace ▸ hentry)⟩
  rw [relative_pathBelow (Disk.locate_eq_ok hstart).1 hnames] at hpath
  exact ⟨names, hnames, hpath, hreaches, hclass⟩

/-- **An eligible key that leads to a regular file is selected.** -/
theorem Eligible.selected {path : String} {c : FileClass} (h : x.Eligible path c)
    (hselected : x.selected d [] = .ok files) (hfile : d.isFile (x.place path) = true) :
    path ∈ files.map (·.path) := by
  obtain ⟨names, hnames, rfl, hreaches, hclass⟩ := h
  obtain ⟨start, hstart, -, hall⟩ := selected_found hselected
  unfold place at hfile
  rw [under_keyOf] at hfile
  unfold Disk.isFile at hfile
  cases hentry : d.entry (Walk.pathBelow x.root names) with
  | error e => rw [hentry] at hfile; exact absurd hfile (by simp)
  | ok e =>
    rw [hentry] at hfile
    obtain ⟨hmem, hopen⟩ := Disk.entry_below hstart hnames hentry
    refine hall _ hmem ⟨keyOf names, c⟩ (Walk.found?_eq_some.mpr ⟨by simpa using hfile, names, rfl,
      hnames.nonempty, hopen, hreaches, ?_, hclass⟩)
    rw [relative_pathBelow (Disk.locate_eq_ok hstart).1 hnames]

end Indexer

end CodeIndex
