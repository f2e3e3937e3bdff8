import Mathlib
import CodeIndex.Disk.Write
import CodeIndex.Proofs.Selection.Discovery

/-!
# Where files are written

A path leads to the place of a file by its last step: to a name in a directory where no directory stands.
Whether it does depends on the directories alone, so a file that is written changes nothing about where
other paths lead. Directories are only ever made where nothing stood.

Main results:
  * `putFile_eq_ok_iff`, `moveFile_eq_ok_iff` — when a file can be put or moved somewhere, and what that does;
  * `Places.of_keeps` — where a path leads depends on the directories alone;
  * `makeParent_grown` — making the directories above a path leaves everything else as it was.
-/

namespace CodeIndex

open Text (Bytes)

namespace Disk

variable {d d' d'' : Disk}

/-! ## §1. Entries. -/

theorem lookup_replaced (entries : List (Location × Entry)) (place q : Location) (e : Entry) :
    (entries.map fun (p, old) => if p == place then (p, e) else (p, old)).lookup q =
      if q = place then (entries.lookup q).map fun _ => e else entries.lookup q := by
  induction entries with
  | nil => split <;> rfl
  | cons entry entries ih =>
    obtain ⟨p, old⟩ := entry
    by_cases hplace : p = place
    · by_cases hq : q = p
      · simp [hplace, hq]
      · have hne : (q == p) = false := by simpa using hq
        simpa [hplace, hne, List.lookup_cons, hplace ▸ hne] using ih
    · by_cases hq : q = p
      · simp [hq, hplace]
      · have hne : (q == p) = false := by simpa using hq
        simpa [hplace, List.lookup_cons, hne] using ih

theorem at?_of_ne_nil {place : Location} (h : place ≠ []) : d.at? place = d.entries.lookup place := if_neg h

theorem at?_put_self {place : Location} (h : place ≠ []) (e : Entry) : (d.put place e).at? place = some e := by
  rw [at?_of_ne_nil h]
  unfold put
  split
  next hany =>
    obtain ⟨entry, hmem, hentry⟩ := List.any_eq_true.mp hany
    have hsome : d.entries.lookup place ≠ none := by
      rw [ne_eq, List.lookup_eq_none_iff]
      intro hnone
      have hne := hnone entry hmem
      simp [eq_of_beq hentry] at hne
    obtain ⟨found, hfound⟩ := Option.ne_none_iff_exists'.mp hsome
    simp only [lookup_replaced, if_true, hfound, Option.map_some]
  next hnone =>
    have hlookup : d.entries.lookup place = none := by
      rw [List.lookup_eq_none_iff]
      intro entry hentry
      simp only [List.any_eq_true, beq_iff_eq, not_exists, not_and] at hnone
      simpa using fun heq => hnone entry hentry heq.symm
    simp [List.lookup_append, hlookup]

theorem at?_put_of_ne {place q : Location} (h : q ≠ place) (e : Entry) : (d.put place e).at? q = d.at? q := by
  unfold at? put
  split
  · rfl
  · split
    · simp only [lookup_replaced, if_neg h]
    · simp only [List.lookup_append]
      rw [show ([(place, e)] : List (Location × Entry)).lookup q = none by simpa using h, Option.or_none]

theorem lookup_kept (entries : List (Location × Entry)) (place q : Location) :
    (entries.filter fun (p, _) => !place.isPrefixOf p).lookup q =
      if place <+: q then none else entries.lookup q := by
  induction entries with
  | nil => split <;> rfl
  | cons entry entries ih =>
    obtain ⟨p, e⟩ := entry
    by_cases hbelow : place <+: p
    · rw [List.filter_cons_of_neg (by simpa using hbelow), ih]
      split
      · rfl
      next hq =>
        have hne : (q == p) = false := by
          simp only [beq_eq_false_iff_ne, ne_eq]
          rintro rfl
          exact hq hbelow
        rw [List.lookup_cons, hne]
    · have hkeep : place.isPrefixOf p = false := by
        rw [← Bool.not_eq_true, List.isPrefixOf_iff_prefix]
        exact hbelow
      rw [List.filter_cons_of_pos (by simp [hkeep]), List.lookup_cons, List.lookup_cons, ih]
      by_cases hq : q = p
      · subst hq
        simp [hbelow]
      · have hne : (q == p) = false := by simpa using hq
        simp [hne]

theorem at?_erase_of_not_below {place q : Location} (h : ¬ place <+: q) : (d.erase place).at? q = d.at? q := by
  unfold at? erase
  simp only [lookup_kept, if_neg h]

theorem at?_erase_below {place q : Location} (hne : place ≠ []) (h : place <+: q) :
    (d.erase place).at? q = none := by
  have hq : q ≠ [] := by
    rintro rfl
    exact hne (List.prefix_nil.mp h)
  rw [at?_of_ne_nil hq]
  simp only [erase, lookup_kept, if_pos h]

/-! ## §2. Trees. -/

/-- A directory stands at a place, closed or not. -/
def HasDirectory (d : Disk) (place : Location) : Prop := (d.at? place).any (·.isDirectory) = true

instance (d : Disk) (place : Location) : Decidable (d.HasDirectory place) :=
  inferInstanceAs (Decidable ((d.at? place).any (·.isDirectory) = true))

theorem hasDirectory_of_at? {place : Location} (h : d.at? place = some .directory) : d.HasDirectory place := by
  unfold HasDirectory
  rw [h]
  rfl

theorem hasDirectory_congr {place : Location} (h : d'.at? place = d.at? place) :
    d'.HasDirectory place ↔ d.HasDirectory place := by
  unfold HasDirectory
  rw [h]

theorem not_hasDirectory_of_file {place : Location} {e : Entry} (h : d.at? place = some e)
    (hfile : e.isDirectory = false) : ¬ d.HasDirectory place := by
  unfold HasDirectory
  rw [h, Option.any_some, hfile]
  exact Bool.false_ne_true

theorem HasDirectory.exists {place : Location} (h : d.HasDirectory place) : ∃ e, d.at? place = some e := by
  unfold HasDirectory at h
  cases hplace : d.at? place with
  | none => rw [hplace] at h; cases h
  | some e => exact ⟨e, rfl⟩

theorem not_hasDirectory_iff {place : Location} :
    ¬ d.HasDirectory place ↔ ∀ e, d.at? place = some e → e.isDirectory = false := by
  unfold HasDirectory
  cases d.at? place with
  | none => simp
  | some e => simp

/-- Whatever stands somewhere stands in a directory. -/
def IsTree (d : Disk) : Prop :=
  ∀ (place : Location) (name : List Char) (e : Entry), d.at? (place ++ [name]) = some e → d.HasDirectory place

theorem isTree_of_entries (h : ∀ entry ∈ d.entries, d.HasDirectory entry.1.dropLast) : d.IsTree := by
  intro place name e he
  rw [at?_of_ne_nil (by simp)] at he
  have hplace := h _ (mem_of_lookup he)
  rwa [List.dropLast_concat] at hplace

theorem IsTree.above (h : d.IsTree) {place more : Location} (hne : more ≠ []) {e : Entry}
    (he : d.at? (place ++ more) = some e) : d.HasDirectory place := by
  induction more using List.reverseRecOn generalizing e with
  | nil => exact absurd rfl hne
  | append_singleton more name ih =>
    rw [← List.append_assoc] at he
    have hmore := h _ _ _ he
    by_cases hempty : more = []
    · rwa [hempty, List.append_nil] at hmore
    · obtain ⟨above, habove⟩ := hmore.exists
      exact ih hempty habove

/-- Nothing stands below a file. -/
theorem IsTree.below_file (h : d.IsTree) {place q : Location} (hfile : ¬ d.HasDirectory place)
    (hbelow : place <+: q) (hne : q ≠ place) : d.at? q = none := by
  obtain ⟨more, rfl⟩ := hbelow
  cases hq : d.at? (place ++ more) with
  | none => rfl
  | some e =>
    have hmore : more ≠ [] := by
      rintro rfl
      exact hne (List.append_nil _)
    exact absurd (h.above hmore hq) hfile

theorem IsTree.put (h : d.IsTree) {directory : Location} {name : List Char} {e : Entry}
    (hdirectory : d.HasDirectory directory) (hplace : ¬ d.HasDirectory (directory ++ [name])) :
    (d.put (directory ++ [name]) e).IsTree := by
  intro place other found hfound
  have hself (p : Location) : p ≠ p ++ [other] := by simp
  by_cases hwhere : place ++ [other] = directory ++ [name]
  · -- the new entry stands where it was put
    obtain ⟨rfl, rfl⟩ := List.append_singleton_inj.mp hwhere
    rwa [hasDirectory_congr (at?_put_of_ne (hself place) e)]
  · rw [at?_put_of_ne hwhere] at hfound
    have habove := h _ _ _ hfound
    by_cases hhere : place = directory ++ [name]
    · rw [hhere] at habove
      exact absurd habove hplace
    · rwa [hasDirectory_congr (at?_put_of_ne hhere e)]

/-! ## §3. Where paths lead. -/

/-- The segments of a path without the empty ones at its end. -/
def body (path : String) : Path.Segments :=
  ((Path.segments path.toList).reverse.dropWhile (· == [])).reverse

/-- The name that a path ends in, if it ends in one. -/
def lastName (path : String) : Option (List Char) :=
  let last := (body path).getLast?.getD []
  if last = [] || last = ['.'] || last = ['.', '.'] then none else some last

/-- A slash stands behind the last segment. -/
def endsSlashed (path : String) : Bool := (body path).length < (Path.segments path.toList).length

/-- A path leads to a place where a file can be put: a name in a directory that can be searched, where no
directory stands. -/
structure Places (d : Disk) (path : String) (place : Location) : Prop where
  valid : checkPath path.toList = .ok ()
  notSlashed : endsSlashed path = false
  step : ∃ directory name, place = directory ++ [name] ∧
    d.follow (d.origin path.toList) ((body path).dropLast ++ [['.']]) = .ok directory ∧
    lastName path = some name ∧ Text.byteLength name ≤ maxName
  free : ¬ d.HasDirectory place

/-- A path leads to a place where a file can be written: no file stands there that is closed. -/
structure Admits (d : Disk) (path : String) (place : Location) : Prop extends d.Places path place where
  opens : ∀ size why, d.at? place ≠ some (.closedFile size why)

/-- Nothing that stands there is closed. -/
theorem Admits.of_nothing {path : String} {place : Location} (h : d.Places path place)
    (hnone : d.at? place = none) : d.Admits path place :=
  ⟨h, fun size why => by simp [hnone]⟩

theorem Places.ne_nil {path : String} {place : Location} (h : d.Places path place) : place ≠ [] := by
  obtain ⟨directory, name, hplace, -⟩ := h.step
  rw [hplace]
  simp

/-- There is one such place at most. -/
theorem Places.unique {path : String} {p q : Location} (hp : d.Places path p) (hq : d.Places path q) : p = q := by
  obtain ⟨directory, name, rfl, hfollow, hname, -⟩ := hp.step
  obtain ⟨directory', name', rfl, hfollow', hname', -⟩ := hq.step
  rw [hfollow] at hfollow'
  rw [hname] at hname'
  rw [Except.ok.inj hfollow', Option.some.inj hname']

theorem checkStep_congr {place : Location} (h : d'.at? place = d.at? place) (segment : List Char) :
    d'.checkStep place segment = d.checkStep place segment := by
  unfold checkStep
  rw [h]

/-- Following more segments starts in a directory. -/
theorem follow_start {start q : Location} {ss : Path.Segments} (hne : ss ≠ [])
    (h : d.follow start ss = .ok q) : d.HasDirectory start := by
  obtain ⟨s, rest, rfl⟩ := List.exists_cons_of_ne_nil hne
  have hstep := checkStep_of_follow h
  unfold checkStep at hstep
  unfold HasDirectory
  split at hstep
  next hstart => rw [hstart]; rfl
  next hstart => rw [hstart]; rfl
  next => cases hstep

/-- A directory in which a step is made can be searched. -/
theorem follow_here {place q : Location} (h : d.follow place [['.']] = .ok q) :
    q = place ∧ d.at? place = some .directory := by
  have hplace := at?_of_follow (List.cons_ne_nil _ _) h
  simp only [follow, checkStep, hplace, List.cons_ne_nil, if_false, if_true] at h
  exact ⟨(Except.ok.inj h).symm, hplace⟩

theorem follow_end {place : Location} (h : d.at? place = some .directory) :
    d.follow place [['.']] = .ok place := by
  simp [follow, checkStep, h]

/-- A slash may stand behind any directory. -/
theorem follow_slash {place : Location} (h : d.HasDirectory place) : d.follow place [[]] = .ok place := by
  obtain ⟨e, he⟩ := h.exists
  rw [HasDirectory, he, Option.any_some] at h
  cases e with
  | directory => simp [follow, checkStep, he]
  | closedDirectory => simp [follow, checkStep, he]
  | file | index | closedFile => cases h

/-- What is followed to its end, and searched, is a directory. -/
theorem follow_directory {start q : Location} {ss : Path.Segments}
    (h : d.follow start (ss ++ [['.']]) = .ok q) : d.follow start ss = .ok q ∧ d.at? q = some .directory := by
  rw [follow_append] at h
  cases hfront : d.follow start ss with
  | error e =>
    rw [hfront] at h
    cases h
  | ok p =>
    rw [hfront] at h
    obtain ⟨rfl, hdirectory⟩ := follow_here (show d.follow p [['.']] = .ok q from h)
    exact ⟨rfl, hdirectory⟩

theorem bind_eq_ok {α β : Type} {x : Except DiskError α} {f : α → Except DiskError β} {b : β}
    (h : x >>= f = .ok b) : ∃ a, x = .ok a ∧ f a = .ok b := by
  cases x with
  | error e => cases h
  | ok a => exact ⟨a, rfl, h⟩

/-- The last step of a path, put together from its parts. -/
theorem target_eq_ok_iff {path : String} {t : Target} :
    d.target path = .ok t ↔ checkPath path.toList = .ok () ∧
      d.follow (d.origin path.toList) ((body path).dropLast ++ [['.']]) = .ok t.directory ∧
      t.name = lastName path ∧ t.slashed = endsSlashed path := by
  constructor
  · intro h
    obtain ⟨_, hvalid, h⟩ := bind_eq_ok h
    obtain ⟨directory, hfollow, h⟩ := bind_eq_ok h
    have ht : (⟨directory, lastName path, endsSlashed path⟩ : Target) = t := Except.ok.inj h
    rw [← ht]
    exact ⟨hvalid, hfollow, rfl, rfl⟩
  · intro h
    obtain ⟨directory, name, slashed⟩ := t
    obtain ⟨hvalid, hfollow, hname, hslashed⟩ := h
    simp only at hfollow hname hslashed
    have htarget : d.target path = (checkPath path.toList).bind fun _ =>
        (d.follow (d.origin path.toList) ((body path).dropLast ++ [['.']])).bind fun directory =>
          .ok ⟨directory, lastName path, endsSlashed path⟩ := rfl
    rw [htarget, hvalid, hname, hslashed, hfollow]
    rfl

theorem checkName_eq_ok_iff {name : List Char} : checkName name = .ok () ↔ Text.byteLength name ≤ maxName := by
  unfold checkName
  split
  next hlong => simp [Nat.not_le.mpr hlong]
  next hshort => simp [Nat.not_lt.mp hshort]

/-- The last step of a path that leads to a place for a file. -/
theorem Places.target {path : String} {place : Location} (h : d.Places path place) :
    ∃ directory name, place = directory ++ [name] ∧ d.target path = .ok ⟨directory, some name, false⟩ ∧
      checkName name = .ok () := by
  obtain ⟨directory, name, hplace, hfollow, hname, hfits⟩ := h.step
  exact ⟨directory, name, hplace, target_eq_ok_iff.mpr ⟨h.valid, hfollow, hname.symm, h.notSlashed.symm⟩,
    checkName_eq_ok_iff.mpr hfits⟩

theorem Places.of_target {path : String} {directory : Location} {name : List Char}
    (ht : d.target path = .ok ⟨directory, some name, false⟩) (hname : checkName name = .ok ())
    (hfree : ¬ d.HasDirectory (directory ++ [name])) : d.Places path (directory ++ [name]) := by
  obtain ⟨hvalid, hfollow, hn, hslashed⟩ := target_eq_ok_iff.mp ht
  exact ⟨hvalid, hslashed.symm, ⟨directory, name, rfl, hfollow, hn.symm, checkName_eq_ok_iff.mp hname⟩, hfree⟩

/-- **Putting a file** succeeds where a path leads to a place to write it, and changes that place. -/
theorem putFile_eq_ok_iff {path : String} {change : Option Entry → Entry} :
    d.putFile path change = .ok d' ↔
      ∃ place, d.Admits path place ∧ d' = d.put place (change (d.at? place)) := by
  constructor
  · intro h
    obtain ⟨⟨directory, name?, slashed⟩, ht, h⟩ := bind_eq_ok h
    cases name? with
    | none => cases h
    | some name =>
      cases slashed with
      | true => cases h
      | false =>
        obtain ⟨_, hname, h⟩ := bind_eq_ok h
        simp only at h
        -- a directory is in the way of a file, closed or not, and a closed file is not written
        split at h
        next => cases h
        next => cases h
        next => cases h
        next hopen hclosed hfile =>
          have hfree : ¬ d.HasDirectory (directory ++ [name]) := by
            rw [not_hasDirectory_iff]
            intro e he
            cases e with
            | directory => exact absurd he hopen
            | closedDirectory why => exact absurd he (hclosed why)
            | file | index | closedFile => rfl
          exact ⟨_, ⟨.of_target ht hname hfree, hfile⟩, (Except.ok.inj h).symm⟩
  · intro h
    obtain ⟨place, hplace, rfl⟩ := h
    obtain ⟨directory, name, rfl, ht, hname⟩ := hplace.target
    have hfree := not_hasDirectory_iff.mp hplace.free
    simp only [putFile, ht, hname, bind, Except.bind, Bool.false_eq_true, if_false]
    cases hold : d.at? (directory ++ [name]) with
    | none => rfl
    | some old =>
      cases old with
      | directory | closedDirectory => exact absurd (hfree _ hold) (by simp [Entry.isDirectory])
      | closedFile size why => exact absurd hold (hplace.opens size why)
      | file content => rfl
      | index store => rfl

/-- So does writing to a file. -/
theorem modifyFile_eq_ok_iff {path : String} {change : Bytes → Bytes} :
    d.modifyFile path change = .ok d' ↔
      ∃ place, d.Admits path place ∧
        d' = d.put place (.file (change (((d.at? place).bind Entry.bytes?).getD []))) :=
  putFile_eq_ok_iff

/-- What is left to do to move a file, once both ends are known. -/
theorem moveFile_of_targets {source destination : String} {above directory : Location}
    {sourceName name : List Char} {slashed : Bool} {file : Entry}
    (hs : d.target source = .ok ⟨above, some sourceName, false⟩)
    (hsourceName : checkName sourceName = .ok ()) (hfile : d.at? (above ++ [sourceName]) = some file)
    (hfree : file.isDirectory = false)
    (ht : d.target destination = .ok ⟨directory, some name, slashed⟩) :
    d.moveFile source destination =
      (checkName name).bind fun _ =>
        if slashed then .error .notADirectory
        else if (d.at? (directory ++ [name])).any (·.isDirectory) then .error .isADirectory
        else if above ++ [sourceName] = directory ++ [name] then .ok d
        else .ok ((d.erase (above ++ [sourceName])).put (directory ++ [name]) file) := by
  unfold moveFile
  simp only [hs, ht, hsourceName, hfile, hfree, bind, Except.bind, Bool.false_eq_true, if_false]
  rfl

/-- **Moving a file** succeeds where a path leads to a place for it, and leaves nothing where it was. -/
theorem moveFile_eq_ok_iff {source destination : String} {origin : Location} {file : Entry}
    (hsource : d.Places source origin) (hfile : d.at? origin = some file) :
    d.moveFile source destination = .ok d' ↔
      ∃ place, d.Places destination place ∧
        d' = if origin = place then d else (d.erase origin).put place file := by
  obtain ⟨above, sourceName, rfl, hs, hsourceName⟩ := hsource.target
  have hnotDirectory := not_hasDirectory_iff.mp hsource.free file hfile
  constructor
  · intro h
    have hparts := h
    obtain ⟨s, hs', hparts⟩ := bind_eq_ok hparts
    obtain ⟨⟨directory, name?, slashed⟩, ht, hparts⟩ := bind_eq_ok hparts
    cases name? with
    | none =>
      rw [← Except.ok.inj (hs.symm.trans hs')] at hparts
      cases hparts
    | some name =>
      rw [moveFile_of_targets hs hsourceName hfile hnotDirectory ht] at h
      obtain ⟨_, hname, h⟩ := bind_eq_ok h
      -- what is left of the checks are those of a place for a file
      cases slashed with
      | true => cases h
      | false =>
        by_cases hfree : (d.at? (directory ++ [name])).any (·.isDirectory) = true
        · rw [if_neg (by simp), if_pos hfree] at h
          cases h
        · rw [if_neg (by simp), if_neg hfree] at h
          refine ⟨directory ++ [name], .of_target ht hname hfree, ?_⟩
          split at h
          next heq => rw [if_pos heq, Except.ok.inj h]
          next hne => rw [if_neg hne, Except.ok.inj h]
  · intro h
    obtain ⟨place, hplace, rfl⟩ := h
    obtain ⟨directory, name, rfl, ht, hname⟩ := hplace.target
    rw [moveFile_of_targets hs hsourceName hfile hnotDirectory ht, hname]
    simp only [Except.bind, Bool.false_eq_true, if_false]
    rw [if_neg (show ¬ (d.at? (directory ++ [name])).any (·.isDirectory) = true from hplace.free)]
    split <;> rfl

/-! ## §4. Directories that are kept. -/

/-- Every directory is one still, and closed if it was. -/
structure Keeps (d d' : Disk) : Prop where
  here : d'.here = d.here
  directories : ∀ place, d.HasDirectory place → d'.at? place = d.at? place

theorem Keeps.refl (d : Disk) : d.Keeps d := ⟨rfl, fun _ _ => rfl⟩

theorem Keeps.hasDirectory (h : d.Keeps d') {place : Location} (hplace : d.HasDirectory place) :
    d'.HasDirectory place :=
  (hasDirectory_congr (h.directories place hplace)).mpr hplace

theorem Keeps.origin (h : d.Keeps d') (path : List Char) : d'.origin path = d.origin path := by
  unfold Disk.origin
  rw [h.here]

/-- The way to a directory leads there still. -/
theorem Keeps.follow (h : d.Keeps d') {start q : Location} {ss : Path.Segments}
    (hfollow : d.follow start (ss ++ [['.']]) = .ok q) : d'.follow start (ss ++ [['.']]) = .ok q := by
  induction ss generalizing start with
  | nil =>
    rw [List.nil_append] at hfollow ⊢
    obtain ⟨rfl, hdirectory⟩ := follow_here hfollow
    exact follow_end ((h.directories _ (hasDirectory_of_at? hdirectory)).trans hdirectory)
  | cons s rest ih =>
    have hstart := follow_start (List.cons_ne_nil _ _) hfollow
    have hstep := checkStep_of_follow hfollow
    rw [List.cons_append] at hfollow ⊢
    simp only [Disk.follow, checkStep_congr (h.directories _ hstart), hstep] at hfollow ⊢
    split_ifs at hfollow ⊢ with h₁ h₂ h₃ h₄
    · exact ih hfollow
    · exact ih hfollow
    · exact ih hfollow
    · -- a name leads to an entry, which is a directory since the way goes on from it
      cases hentry : d.at? (start ++ [s]) with
      | none =>
        rw [hentry] at hfollow
        cases hfollow
      | some e =>
        rw [hentry] at hfollow
        have hnext := follow_start (List.append_ne_nil_of_right_ne_nil _ (List.cons_ne_nil _ _)) hfollow
        rw [h.directories _ hnext, hentry]
        exact ih hfollow

/-- **Where a path leads** depends on the directories, and on none standing at the place. -/
theorem Places.of_keeps {path : String} {place : Location} (hplace : d.Places path place) (h : d.Keeps d')
    (hfree : ¬ d'.HasDirectory place) : d'.Places path place := by
  obtain ⟨directory, name, hwhere, hfollow, hname, hfits⟩ := hplace.step
  refine ⟨hplace.valid, hplace.notSlashed, ⟨directory, name, hwhere, ?_, hname, hfits⟩, hfree⟩
  rw [h.origin]
  exact h.follow hfollow

/-- A file that is put somewhere leaves every directory. -/
theorem keeps_put {place : Location} (hfree : ¬ d.HasDirectory place) (e : Entry) :
    d.Keeps (d.put place e) := by
  refine ⟨?_, ?_⟩
  · unfold put
    split <;> rfl
  · intro q hq
    refine at?_put_of_ne ?_ e
    rintro rfl
    exact hfree hq

theorem put_keeps {place : Location} (hne : place ≠ []) {e : Entry} (hfile : e.isDirectory = false) :
    (d.put place e).Keeps d := by
  refine ⟨?_, ?_⟩
  · unfold put
    split <;> rfl
  · intro q hq
    by_cases heq : q = place
    · rw [HasDirectory, heq, at?_put_self hne, Option.any_some, hfile] at hq
      cases hq
    · exact (at?_put_of_ne heq e).symm

theorem places_iff_of_keeps {path : String} {place : Location} (h : d.Keeps d') (h' : d'.Keeps d) :
    d'.Places path place ↔ d.Places path place := by
  constructor
  · exact fun hplace => hplace.of_keeps h' fun hdirectory => hplace.free (h.hasDirectory hdirectory)
  · exact fun hplace => hplace.of_keeps h fun hdirectory => hplace.free (h'.hasDirectory hdirectory)

/-- A file that is put somewhere changes nothing about where paths lead. -/
theorem Places.places_put_file {path other : String} {place q : Location} (h : d.Places path place)
    (content : Bytes) : (d.put place (.file content)).Places other q ↔ d.Places other q :=
  places_iff_of_keeps (keeps_put h.free _) (put_keeps h.ne_nil rfl)

/-- The file can be written again. -/
theorem Places.put_file {path : String} {place : Location} (h : d.Places path place) (content : Bytes) :
    (d.put place (.file content)).Admits path place := by
  refine ⟨(h.places_put_file content).mpr h, fun size why => ?_⟩
  rw [at?_put_self h.ne_nil]
  simp

theorem Places.put_tree {path : String} {place : Location} (h : d.Places path place) (htree : d.IsTree)
    (e : Entry) : (d.put place e).IsTree := by
  obtain ⟨directory, name, rfl, hfollow, -⟩ := h.step
  exact htree.put (hasDirectory_of_at? (follow_directory hfollow).2) h.free

/-! ## §5. Looking at what was written. -/

theorem lastName_eq_some {path : String} {name : List Char} (h : lastName path = some name) :
    body path = (body path).dropLast ++ [name] ∧ name ≠ [] ∧ name ≠ ['.'] ∧ name ≠ ['.', '.'] := by
  unfold lastName at h
  simp only at h
  split at h
  next => cases h
  next hproper =>
    have hname : (body path).getLast?.getD [] = name := Option.some.inj h
    rw [hname] at hproper
    simp only [Bool.or_eq_true, decide_eq_true_eq, not_or] at hproper
    cases hlast : (body path).getLast? with
    | none =>
      rw [hlast, Option.getD_none] at hname
      exact absurd hname.symm hproper.1.1
    | some last =>
      rw [hlast, Option.getD_some] at hname
      subst hname
      exact ⟨(List.dropLast_append_getLast? last hlast).symm, hproper.1.1, hproper.1.2, hproper.2⟩

theorem body_of_notSlashed {path : String} (h : endsSlashed path = false) :
    body path = Path.segments path.toList := by
  have hfront : body path <+: Path.segments path.toList := List.rdropWhile_prefix _ _
  refine hfront.eq_of_length_le ?_
  unfold endsSlashed at h
  simpa using h

/-- A file is found where its path puts it. -/
theorem Places.locate {path : String} {place : Location} (h : d.Places path place) {e : Entry}
    (he : d.at? place = some e) : d.locate path = .ok place := by
  obtain ⟨directory, name, hplace, hfollow, hname, hfits⟩ := h.step
  obtain ⟨hbody, hempty, hhere, hup⟩ := lastName_eq_some hname
  obtain ⟨hfront, hdirectory⟩ := follow_directory hfollow
  have hlast : d.follow directory [name] = .ok place := by
    simp [follow, checkStep, hdirectory, hempty, hhere, hup, Nat.not_lt.mpr hfits, ← hplace, he]
  unfold Disk.locate
  rw [h.valid, ← body_of_notSlashed h.notSlashed, hbody]
  show d.follow _ _ = _
  rw [follow_append, hfront]
  exact hlast

theorem Places.entry {path : String} {place : Location} (h : d.Places path place) {e : Entry}
    (he : d.at? place = some e) : d.entry path = .ok e := by
  unfold Disk.entry
  simp only [h.locate he, bind, Except.bind, he]
  rfl

theorem Places.read {path : String} {place : Location} (h : d.Places path place) {content : Bytes}
    (he : d.at? place = some (.file content)) : d.read path = .ok content := by
  unfold Disk.read
  rw [h.entry he]
  rfl

/-! ## §6. Directories that are made. -/

/-- Directories were made where nothing stood, and nothing else was changed. -/
structure Grown (d d' : Disk) : Prop where
  here : d'.here = d.here
  each : ∀ place, d'.at? place = d.at? place ∨ d.at? place = none ∧ d'.at? place = some .directory
  tree : d.IsTree → d'.IsTree

theorem Grown.refl (d : Disk) : d.Grown d := ⟨rfl, fun _ => .inl rfl, id⟩

theorem Grown.trans (h : d.Grown d') (h' : d'.Grown d'') : d.Grown d'' := by
  refine ⟨h'.here.trans h.here, ?_, h'.tree ∘ h.tree⟩
  intro place
  rcases h'.each place with hsame' | ⟨hnone', hmade'⟩
  · rw [hsame']
    exact h.each place
  · rcases h.each place with hsame | ⟨hnone, hmade⟩
    · exact .inr ⟨hsame ▸ hnone', hmade'⟩
    · exact .inr ⟨hnone, hmade'⟩

theorem Grown.keeps (h : d.Grown d') : d.Keeps d' := by
  refine ⟨h.here, ?_⟩
  intro place hplace
  rcases h.each place with hsame | ⟨hnone, -⟩
  · exact hsame
  · rw [HasDirectory, hnone] at hplace
    cases hplace

theorem makeDirectory_grown {path : String} (h : d.makeDirectory path = .ok d') : d.Grown d' := by
  obtain ⟨⟨directory, name?, slashed⟩, ht, h⟩ := bind_eq_ok h
  obtain ⟨-, hfollow, -, -⟩ := target_eq_ok_iff.mp ht
  cases name? with
  | none => cases h
  | some name =>
    obtain ⟨_, -, h⟩ := bind_eq_ok h
    simp only at h
    split at h
    next => cases h
    next hnone =>
      rw [← Except.ok.inj h]
      have hfree : ¬ d.HasDirectory (directory ++ [name]) := by simp [HasDirectory, hnone]
      have hdirectory := hasDirectory_of_at? (follow_directory hfollow).2
      refine ⟨(keeps_put hfree _).here, ?_, fun htree => htree.put hdirectory hfree⟩
      intro place
      by_cases hplace : place = directory ++ [name]
      · rw [hplace, at?_put_self (by simp)]
        exact .inr ⟨hnone, rfl⟩
      · exact .inl (at?_put_of_ne hplace _)

theorem makeDirectoriesFrom_grown (fuel : Nat) (d : Disk) (path : String) :
    d.Grown (d.makeDirectoriesFrom fuel path).disk := by
  -- on the fuel: the directories above are made with less of it
  induction fuel generalizing d path with
  | zero => exact .refl d
  | succ fuel ih =>
    unfold makeDirectoriesFrom
    split
    next => exact .refl d
    next =>
      split
      next made hmade => exact makeDirectory_grown hmade
      next =>
        split
        next => exact .refl d
        next above _ =>
          have habove := ih d (String.ofList above)
          split
          next made hresult =>
            rw [hresult] at habove
            split
            next hmade => exact habove.trans (makeDirectory_grown hmade)
            next => exact habove
          next => exact habove
      next => exact .refl d

theorem makeParent_grown (d : Disk) (path : String) : d.Grown (d.makeParent path).disk := by
  unfold makeParent
  split
  · exact makeDirectoriesFrom_grown _ _ _
  · exact .refl d

end Disk

end CodeIndex
