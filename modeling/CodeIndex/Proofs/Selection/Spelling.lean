import Mathlib
import CodeIndex.Proofs.Selection.Keys

/-!
# Spellings of a file

A path is a spelling of a file in the project if there is nothing in it but the names that lead to the file,
the components of the root in front of them or nothing, and segments that stand for nothing.

Below the root the key is what follows the root, as it is written from the first name to the last. Without
the root it is the whole path, as it is written but for one leading `./`. So the names with slashes between
them are the key only of spellings in which nothing stands between the names, and without the root in front
nothing around them either. All spellings with the root in front have keys that are their own keys. So have
those without it, unless they start with a dot and go on with a segment that stands for nothing.

Main results:
  * `Spells.relative_eq_iff` — the spellings that have the names as their key;
  * `Spells.relative_relative` — the spellings with a key that is its own key;
  * `Spells.under` — a spelling without the root gets the root in front of it.
-/

namespace CodeIndex

namespace Path

/-! ## §1. Names among void segments. -/

/-- Names stand one after another at the end of segments, but for void ones behind them. -/
def EndsIn (ss : Segments) (names : List (List Char)) : Prop :=
  ∃ before after, ss = before ++ names ++ after ∧ ∀ s ∈ after, isVoid s = true

theorem dropVoidEnd_append_voids (ss : Segments) {voids : Segments} (h : ∀ s ∈ voids, isVoid s = true) :
    dropVoidEnd (ss ++ voids) = dropVoidEnd ss := by
  unfold dropVoidEnd
  rw [List.reverse_append, List.dropWhile_append_of_pos fun s hs => h s (List.mem_reverse.mp hs)]

/-- Where no component is, all segments are void. -/
theorem voids_of_located {ss : Segments} (h : (located ss).map (·.1) = []) : ∀ s ∈ ss, isVoid s = true := by
  induction ss with
  | nil => simp
  | cons s rest ih =>
    cases hs : Component.ofSegment? s with
    | none =>
      simp only [located, hs] at h
      exact List.forall_mem_cons.mpr ⟨by simp [isVoid, hs], ih h⟩
    | some c => simp [located, hs] at h

variable {names : List (List Char)}

/-- What has no component more than what follows it is void. -/
theorem voids_of_append {more ss : Segments}
    (h : (located (more ++ ss)).map (·.1) = (located ss).map (·.1)) : ∀ s ∈ more, isVoid s = true := by
  rw [located_append, List.map_append, List.map_map, List.append_left_eq_self] at h
  exact voids_of_located h

/-- What is around names is taken away if it is void. -/
theorem Leads.trimVoids_eq (h : Leads names) {before after : Segments} (hbefore : ∀ s ∈ before, isVoid s = true)
    (hafter : ∀ s ∈ after, isVoid s = true) : trimVoids (before ++ names ++ after) = names := by
  have hnames := h.dropVoids hbefore
  have hsome : (before ++ names).dropWhile isVoid ≠ [] := fun hnone =>
    h.nonempty (hnames.symm.trans (by rw [hnone]; rfl))
  rw [trimVoids, List.dropWhile_append, if_neg (by simpa using hsome), dropVoidEnd_append_voids _ hafter, hnames]

theorem Leads.located_eq (h : Leads names) : (located names).map (·.1) = names.map .name := by
  have heach := h.each
  clear h
  induction names with
  | nil => rfl
  | cons n rest ih =>
    simp only [located, (heach n List.mem_cons_self).ofSegment?, List.map_cons]
    rw [ih fun m hm => heach m (List.mem_cons_of_mem _ hm)]

/-- Of segments with these names and void ones, the names are left if and only if nothing stands between
them. In front of these segments there may be others, which do not matter. -/
theorem Leads.trimVoids_iff (h : Leads names) {front rest : Segments}
    (hrest : (located rest).map (·.1) = names.map .name) :
    trimVoids rest = names ↔ EndsIn (front ++ rest) names := by
  constructor
  · intro htrim
    obtain ⟨after, hafter, hvoids⟩ := exists_voids (rest.dropWhile isVoid)
    -- what was taken away in front of the names goes with what stands before the segments
    refine ⟨front ++ rest.takeWhile isVoid, after, ?_, hvoids⟩
    rw [← htrim, trimVoids, List.append_assoc, ← hafter, List.append_assoc, List.takeWhile_append_dropWhile]
  · rintro ⟨before, after, hsplit, hafter⟩
    have hnames : (located (names ++ after)).map (·.1) = names.map .name := by
      rw [located_append, located_voids hafter, List.append_nil, List.map_map]
      exact h.located_eq
    have hsuffix : names ++ after <:+ front ++ rest := ⟨before, by rw [hsplit, List.append_assoc]⟩
    -- both have the names as their components, so they differ by void segments
    rcases List.suffix_or_suffix_of_suffix (List.suffix_append front rest) hsuffix with
      ⟨more, hmore⟩ | ⟨more, hmore⟩
    · have hsame : (located (more ++ rest)).map (·.1) = (located rest).map (·.1) := by
        rw [hmore, hnames, hrest]
      have hvoid := voids_of_append hsame
      cases more with
      | nil =>
        rw [List.nil_append] at hmore
        have htrim := h.trimVoids_eq (List.forall_mem_nil _) hafter
        rwa [List.nil_append, ← hmore] at htrim
      | cons s more =>
        -- the first of the names is not void
        obtain ⟨first, others, rfl⟩ := List.exists_cons_of_ne_nil h.nonempty
        obtain rfl : s = first := (List.cons.inj hmore).1
        have hfirst := (h.each s List.mem_cons_self).notVoid
        exact absurd (hvoid s List.mem_cons_self) (by simp [hfirst])
    · have hsame : (located (more ++ (names ++ after))).map (·.1) = (located (names ++ after)).map (·.1) := by
        rw [hmore, hnames, hrest]
      have hvoid := voids_of_append hsame
      rw [← hmore, ← List.append_assoc]
      exact h.trimVoids_eq hvoid hafter

/-! ## §2. Spellings. -/

/-- A path that leads to a file below a root through names. -/
inductive Spells (root : String) (names : List (List Char)) (path : String) : Prop where
  /-- The root is in front of the names. -/
  | below (h : (components path.toList).map (·.1) = (components root.toList).map (·.1) ++ names.map .name)
  /-- The names stand alone. -/
  | alone (hrelative : isAbsolute path.toList = false)
    (h : (located (segments path.toList)).map (·.1) = names.map .name)

/-- A path that leads to a file in a way that its key tells. -/
inductive SpellsPlainly (root : String) (names : List (List Char)) (path : String) : Prop where
  /-- The root is in front of the names, and nothing stands between these. -/
  | below (h : (components path.toList).map (·.1) = (components root.toList).map (·.1) ++ names.map .name)
    (hends : EndsIn (segments path.toList) names)
  | key (h : path = keyOf names)
  /-- A dot is in front of the key. -/
  | here (h : path = "./" ++ keyOf names)

/-! ## §3. Keys of spellings. -/

/-- Among segments with these names, each one is a name or void. -/
theorem void_or_mem {ss : Segments} (h : (located ss).map (·.1) = names.map .name) :
    ∀ s ∈ ss, isVoid s = true ∨ s ∈ names := by
  induction ss generalizing names with
  | nil => simp
  | cons s rest ih =>
    cases hs : Component.ofSegment? s with
    | none =>
      simp only [located, hs] at h
      exact List.forall_mem_cons.mpr ⟨.inl (by simp [isVoid, hs]), ih h⟩
    | some c =>
      simp only [located, hs, List.map_cons] at h
      obtain ⟨n, others, rfl⟩ : ∃ n others, names = n :: others := by
        cases names with
        | nil => exact absurd h (by simp)
        | cons n others => exact ⟨n, others, rfl⟩
      obtain ⟨rfl, hrest⟩ := List.cons.inj h
      have hname : s = n := by
        unfold Component.ofSegment? at hs
        split_ifs at hs
        · cases hs
        · exact Component.name.inj (Option.some.inj hs)
      refine List.forall_mem_cons.mpr ⟨.inr (by simp [hname]), fun t ht => ?_⟩
      exact (ih hrest t ht).imp_right (List.mem_cons_of_mem n)

/-- There is no slash and no backslash among them. -/
theorem AreNames.plain (h : AreNames names) {ss : Segments} (hss : (located ss).map (·.1) = names.map .name) :
    ∀ s ∈ ss, '/' ∉ s ∧ '\\' ∉ s := by
  intro s hs
  rcases void_or_mem hss s hs with hvoid | hname
  · unfold isVoid Component.ofSegment? at hvoid
    split_ifs at hvoid with hempty hhere
    · simp [hempty]
    · simp [hhere]
    · cases hvoid
    · cases hvoid
  · exact ⟨(h.each s hname).noSlash, (h.each s hname).noBackslash⟩

theorem noBackslash_of_segments {p : List Char} (h : ∀ s ∈ segments p, '/' ∉ s ∧ '\\' ∉ s) : '\\' ∉ p := by
  intro hbackslash
  rw [← joinSegments_segments p] at hbackslash
  rcases mem_joinSegments _ hbackslash with hslash | ⟨s, hs, hmem⟩
  · exact absurd hslash (by decide)
  · exact (h s hs).2 hmem

theorem joinSegments_injective {ss : Segments} (hss : ss ≠ []) (hplain : ∀ s ∈ ss, '/' ∉ s) (h : Leads names) :
    joinSegments ss = joinSegments names ↔ ss = names := by
  refine ⟨fun heq => ?_, congrArg joinSegments⟩
  rw [← h.segments, ← heq]
  exact (List.splitOn_intercalate '/' hplain hss).symm

variable {root path : String}

theorem dropHere_cases (p : List Char) : dropHere p = p ∨ p = '.' :: '/' :: dropHere p := by
  unfold dropHere
  split
  next rest => exact .inr rfl
  next => exact .inl rfl

/-- Nothing more is dropped, unless a void segment follows the leading dot. -/
theorem dropHere_dropHere {p : List Char} (hrelative : isAbsolute p = false)
    (hdot : ∀ s rest, segments p = ['.'] :: s :: rest → isVoid s = false) :
    isAbsolute (dropHere p) = false ∧ dropHere (dropHere p) = dropHere p := by
  rcases dropHere_cases p with hkept | hdropped
  · rw [hkept, hkept]
    exact ⟨hrelative, rfl⟩
  · obtain ⟨s, rest, hsegments⟩ := List.exists_cons_of_ne_nil (List.splitOn_ne_nil '/' (dropHere p))
    have hvoid := hdot s rest (by
      rw [hdropped]
      exact (segments_append ['.'] (dropHere p)).trans (congrArg _ hsegments))
    refine ⟨isAbsolute_of_first hsegments ?_, dropHere_of_first hsegments ?_⟩
    · rintro rfl
      exact absurd hvoid (by decide)
    · rintro rfl
      exact absurd hvoid (by decide)

/-- Of a path that does not start at the root of the file system, one leading dot is dropped. -/
theorem relative_of_alone (hroot : isAbsolute root.toList = true) {p : List Char} (hp : isAbsolute p = false)
    (hplain : '\\' ∉ p) : relative root (String.ofList p) = String.ofList (dropHere p) := by
  unfold relative
  rw [String.toList_ofList, strip?_of_relative hroot hp, Option.getD_none, slashed_of_noBackslash hplain]

/-- What is left of a spelling with the root in front of it. -/
theorem strip?_of_below (hroot : isAbsolute root.toList = true)
    (h : (components path.toList).map (·.1) = (components root.toList).map (·.1) ++ names.map .name) :
    ∃ front rest, segments path.toList = front ++ rest ∧ (located rest).map (·.1) = names.map .name
      ∧ strip? root.toList path.toList = some (joinSegments (trimVoids rest)) := by
  obtain ⟨t, ht⟩ : ∃ t, strip? root.toList path.toList = some t := by
    unfold strip?
    simp only
    rw [if_pos (by rw [List.isPrefixOf_iff_prefix, h]; exact List.prefix_append _ _)]
    split <;> exact ⟨_, rfl⟩
  obtain ⟨rest, rfl, ⟨front, hfront⟩, hcomponents⟩ := strip?_eq_some hroot ht
  exact ⟨front, rest, hfront.symm, List.append_cancel_left (hcomponents.symm.trans h), ht⟩

/-- The key of a spelling with the root in front of it is what is left, and it is its own key. -/
theorem relative_of_below (hroot : isAbsolute root.toList = true) (hnames : AreNames names)
    (h : (components path.toList).map (·.1) = (components root.toList).map (·.1) ++ names.map .name) :
    ∃ front rest, segments path.toList = front ++ rest ∧ (located rest).map (·.1) = names.map .name
      ∧ relative root path = String.ofList (joinSegments (trimVoids rest))
      ∧ relative root (relative root path) = relative root path := by
  obtain ⟨front, rest, hsegments, hrest, hstrip⟩ := strip?_of_below hroot h
  exact ⟨front, rest, hsegments, hrest, relative_of_trimmed hroot (hnames.plain hrest) hstrip⟩

/-- **A plain spelling** has the names as its key. -/
theorem SpellsPlainly.relative_eq (hroot : isAbsolute root.toList = true) (hnames : AreNames names)
    (h : SpellsPlainly root names path) : relative root path = keyOf names := by
  have hplain : '\\' ∉ joinSegments names :=
    noBackslash_of_segments (by rw [hnames.leads.segments]; exact hnames.plain hnames.leads.located_eq)
  cases h with
  | below h hends =>
    obtain ⟨front, rest, hsegments, hrest, hkey, -⟩ := relative_of_below hroot hnames h
    rw [hkey, (hnames.leads.trimVoids_iff hrest).mpr (hsegments ▸ hends)]
    rfl
  | key h =>
    rw [h]
    exact (relative_of_alone hroot hnames.leads.relative hplain).trans (by rw [hnames.dropHere]; rfl)
  | here h =>
    have hpath : path = String.ofList ('.' :: '/' :: joinSegments names) := by
      rw [h, keyOf, ← String.toList_inj]
      simp
    rw [hpath]
    exact relative_of_alone hroot rfl (by simpa using hplain)

/-- **The spellings with the names as their key** are the plain ones. -/
theorem Spells.relative_eq_iff (hroot : isAbsolute root.toList = true) (hnames : AreNames names)
    (h : Spells root names path) : relative root path = keyOf names ↔ SpellsPlainly root names path := by
  refine ⟨fun hkey => ?_, fun hplain => hplain.relative_eq hroot hnames⟩
  cases h with
  | below h =>
    obtain ⟨front, rest, hsegments, hrest, hpath, -⟩ := relative_of_below hroot hnames h
    have hsome : trimVoids rest ≠ [] := by
      intro hnone
      have hlocated := (located_trimVoids rest).trans hrest
      rw [hnone] at hlocated
      exact hnames.nonempty (List.map_eq_nil_iff.mp hlocated.symm)
    have hall : trimVoids rest = names := by
      refine (joinSegments_injective hsome (fun s hs => ?_) hnames.leads).mp
        (String.ofList_injective (hpath.symm.trans hkey))
      exact (hnames.plain hrest s (mem_of_mem_trimVoids hs)).1
    exact .below h (hsegments ▸ (hnames.leads.trimVoids_iff hrest).mp hall)
  | alone hrelative h =>
    have hpath := relative_of_alone hroot hrelative (noBackslash_of_segments (hnames.plain h))
    rw [String.ofList_toList, hkey] at hpath
    have hdropped : dropHere path.toList = joinSegments names := (String.ofList_injective hpath).symm
    rcases dropHere_cases path.toList with hkept | hdot
    · exact .key (by rw [← String.toList_inj, ← hkept, hdropped, keyOf, String.toList_ofList])
    · refine .here ?_
      rw [← String.toList_inj, hdot, hdropped]
      simp [keyOf]

/-- **The key of a spelling is its own key**, unless the spelling starts with a dot and goes on with a void
segment. -/
theorem Spells.relative_relative (hroot : isAbsolute root.toList = true) (hnames : AreNames names)
    (h : Spells root names path)
    (hdot : ∀ s rest, segments path.toList = ['.'] :: s :: rest → isVoid s = false) :
    relative root (relative root path) = relative root path := by
  cases h with
  | below h =>
    obtain ⟨-, -, -, -, -, hown⟩ := relative_of_below hroot hnames h
    exact hown
  | alone hrelative h =>
    have hplain := noBackslash_of_segments (hnames.plain h)
    have hpath := relative_of_alone hroot hrelative hplain
    rw [String.ofList_toList] at hpath
    have hleft : '\\' ∉ dropHere path.toList := by
      rcases dropHere_cases path.toList with hkept | hdropped
      · rwa [hkept]
      · intro hbackslash
        rw [hdropped] at hplain
        exact hplain (List.mem_cons_of_mem _ (List.mem_cons_of_mem _ hbackslash))
    -- nothing is dropped from what is left
    obtain ⟨hstill, hsettled⟩ := dropHere_dropHere hrelative hdot
    rw [hpath, relative_of_alone hroot hstill hleft, hsettled]

/-- A spelling without the root gets the root in front of it. -/
theorem under_spells (hroot : isAbsolute root.toList = true) (hrelative : isAbsolute path.toList = false)
    (h : (located (segments path.toList)).map (·.1) = names.map .name) :
    (components (under root path).toList).map (·.1) = (components root.toList).map (·.1) ++ names.map .name
      ∧ (EndsIn (segments path.toList) names → EndsIn (segments (under root path).toList) names) := by
  have hbase : root.toList ≠ [] := by
    intro hempty
    rw [hempty] at hroot
    exact Bool.noConfusion hroot
  obtain ⟨front, hfront, hsegments, hjoined, habsolute⟩ := segments_joined hbase hrelative
  have hunder : (under root path).toList = join root.toList path.toList := String.toList_ofList
  rw [hunder]
  refine ⟨?_, ?_⟩
  · rw [components_of_segments hfront hsegments, ← h, components_eq, habsolute, hjoined,
      componentsAmong_append _ hfront, List.map_append, List.map_map]
    rfl
  · rintro ⟨before, after, hsplit, hafter⟩
    exact ⟨front ++ before, after, by rw [hjoined, hsplit]; simp, hafter⟩

end Path

end CodeIndex
