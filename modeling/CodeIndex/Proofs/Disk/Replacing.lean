import Mathlib
import CodeIndex.Proofs.Disk.Writing

/-!
# Replacing a file

A file is replaced by way of another one beside it, which is moved into its place. If both can be put where
their paths lead then the file holds the new content and the other one is gone. A file that stood where the
other one is written is lost then; and if the file cannot be put where its path leads, the other one is left
behind. So it is not true of all files that they are replaced whole or not at all, with no other file changed.

Main results:
  * `replaceFile_replacing` — what becomes of the disk;
  * `replacedAtomically_iff` — when a file is replaced whole or not at all, with no other file changed.
-/

namespace CodeIndex

open Text (Bytes)

namespace Disk

variable {d d' : Disk} {path : String} {content : Bytes}

/-! ## §1. Files. -/

/-- The file at a place. -/
def fileAt? (d : Disk) (place : Location) : Option Entry := (d.at? place).filter (!·.isDirectory)

theorem fileAt?_congr {place : Location} (h : d'.at? place = d.at? place) :
    d'.fileAt? place = d.fileAt? place := by
  unfold fileAt?
  rw [h]

theorem Grown.fileAt? (h : d.Grown d') (place : Location) : d'.fileAt? place = d.fileAt? place := by
  rcases h.each place with hsame | ⟨hnone, hmade⟩
  · exact fileAt?_congr hsame
  · unfold Disk.fileAt?
    rw [hnone, hmade]
    rfl

theorem fileAt?_file {place : Location} (h : d.at? place = some (.file content)) :
    d.fileAt? place = some (.file content) := by
  unfold fileAt?
  rw [h]
  rfl

/-! ## §2. Moving a file. -/

/-- A file that was written is moved: nothing is left where it was, and nothing else is changed. -/
structure Moved (d d' : Disk) (origin place : Location) (content : Bytes) : Prop where
  keeps : d.Keeps d'
  placed : d'.at? place = some (.file content)
  gone : origin ≠ place → d'.at? origin = none
  others : ∀ q, q ≠ origin → q ≠ place → d'.at? q = d.at? q

theorem moved (htree : d.IsTree) {origin place : Location} (horigin : origin ≠ [])
    (hfile : d.at? origin = some (.file content)) (hplace : d.Places path place) :
    d.Moved (if origin = place then d else (d.erase origin).put place (.file content)) origin place content := by
  split
  next heq => exact ⟨.refl d, heq ▸ hfile, fun hne => absurd heq hne, fun q _ _ => rfl⟩
  next hne =>
    have hnotDirectory := not_hasDirectory_of_file hfile rfl
    -- nothing stands below a file, so nothing is taken away with it
    have herase : ∀ q, q ≠ origin → (d.erase origin).at? q = d.at? q := by
      intro q hq
      by_cases hbelow : origin <+: q
      · rw [at?_erase_below horigin hbelow, htree.below_file hnotDirectory hbelow hq]
      · exact at?_erase_of_not_below hbelow
    refine ⟨⟨?_, ?_⟩, at?_put_self hplace.ne_nil _, fun _ => ?_, fun q hq hq' => ?_⟩
    · unfold put
      split <;> rfl
    · intro q hq
      have hqorigin : q ≠ origin := by
        rintro rfl
        exact hnotDirectory hq
      have hqplace : q ≠ place := by
        rintro rfl
        exact hplace.free hq
      rw [at?_put_of_ne hqplace, herase q hqorigin]
    · rw [at?_put_of_ne hne, at?_erase_below horigin (List.prefix_refl _)]
    · rw [at?_put_of_ne hq', herase q hq]

/-! ## §3. What becomes of the disk. -/

/-- The other file, by way of which a file is replaced, can be written at a place. -/
def StandsIn (d : Disk) (path : String) (q : Location) : Prop :=
  (d.makeParent path).result = .ok () ∧ (d.makeParent path).disk.Admits (temporaryPath path) q

/-- The file at a path can be put at a place, once the directories above it are made. -/
def Leads (d : Disk) (path : String) (p : Location) : Prop := (d.makeParent path).disk.Places path p

theorem StandsIn.unique {q r : Location} (hq : d.StandsIn path q) (hr : d.StandsIn path r) : r = q :=
  hr.2.toPlaces.unique hq.2.toPlaces

theorem Leads.unique {p r : Location} (hp : d.Leads path p) (hr : d.Leads path r) : r = p := Places.unique hr hp

theorem standsIn_iff {made : Disk} {q r : Location} (hmade : d.makeParent path = ⟨made, .ok ()⟩)
    (hq : made.Admits (temporaryPath path) q) : d.StandsIn path r ↔ r = q := by
  have hstands : d.StandsIn path q := by
    rw [StandsIn, hmade]
    exact ⟨rfl, hq⟩
  exact ⟨hstands.unique, fun heq => heq ▸ hstands⟩

theorem leads_iff {made : Disk} {p r : Location} (hmade : d.makeParent path = ⟨made, .ok ()⟩)
    (hp : made.Places path p) : d.Leads path r ↔ r = p := by
  have hleads : d.Leads path p := by
    rw [Leads, hmade]
    exact hp
  exact ⟨hleads.unique, fun heq => heq ▸ hleads⟩

/-- What becomes of a disk when a file is replaced. -/
structure Replacing (d : Disk) (path : String) (content : Bytes) (after : Written Unit) : Prop where
  /-- It succeeds if both files can be put where their paths lead. -/
  succeeds : after.result = .ok () ↔ (∃ q, d.StandsIn path q) ∧ ∃ p, d.Leads path p
  /-- Then the file holds the content, and the other one is gone. -/
  replaced : ∀ q p, d.StandsIn path q → d.Leads path p →
    after.disk.locate path = .ok p ∧ after.disk.read path = .ok content ∧ (q ≠ p → after.disk.fileAt? q = none)
  /-- If only the other one can be written, it is left behind. -/
  left : ∀ q, d.StandsIn path q → (∀ p, ¬ d.Leads path p) → after.disk.fileAt? q = some (.file content)
  /-- If it cannot, then no file is changed. -/
  kept : (∀ q, ¬ d.StandsIn path q) → ∀ r, after.disk.fileAt? r = d.fileAt? r
  /-- Files at other places are never changed. -/
  others : ∀ r, ¬ d.StandsIn path r → ¬ d.Leads path r → after.disk.fileAt? r = d.fileAt? r

theorem Replacing.of_refused {after : Disk} {e : DiskError} (hno : ∀ q, ¬ d.StandsIn path q)
    (h : d.Grown after) : d.Replacing path content ⟨after, .error e⟩ where
  succeeds := by
    constructor
    · intro hok
      cases hok
    · intro hboth
      obtain ⟨⟨q, hq⟩, -⟩ := hboth
      exact absurd hq (hno q)
  replaced q p hq _ := absurd hq (hno q)
  left q hq _ := absurd hq (hno q)
  kept _ := h.fileAt?
  others r _ _ := h.fileAt? r

/-- If the other file is written and cannot be moved, it stays where it is. -/
theorem Replacing.of_stuck {made : Disk} {q : Location} {e : DiskError}
    (hmade : d.makeParent path = ⟨made, .ok ()⟩) (hq : made.Admits (temporaryPath path) q)
    (hno : ∀ p, ¬ made.Places path p) :
    d.Replacing path content ⟨made.put q (.file content), .error e⟩ := by
  have hgrown := makeParent_grown d path
  rw [hmade] at hgrown
  have hstands {r : Location} : d.StandsIn path r ↔ r = q := standsIn_iff hmade hq
  have hleads : ∀ p, ¬ d.Leads path p := by
    intro p
    rw [Leads, hmade]
    exact hno p
  refine ⟨⟨?_, ?_⟩, ?_, ?_, ?_, ?_⟩
  · intro hok
    cases hok
  · intro hboth
    obtain ⟨-, p, hp⟩ := hboth
    exact absurd hp (hleads p)
  · exact fun r p _ hp => absurd hp (hleads p)
  · intro r hr _
    rw [hstands.mp hr]
    exact fileAt?_file (at?_put_self hq.ne_nil _)
  · exact fun hnone => absurd (hstands.mpr rfl) (hnone q)
  · intro r hr _
    rw [fileAt?_congr (at?_put_of_ne (mt hstands.mpr hr) _)]
    exact hgrown.fileAt? r

/-- If it is moved then nothing is left where it was. -/
theorem Replacing.of_moved {made after : Disk} {q p : Location} (hmade : d.makeParent path = ⟨made, .ok ()⟩)
    (hq : made.Admits (temporaryPath path) q) (hp : made.Places path p)
    (hmoved : (made.put q (.file content)).Moved after q p content) :
    d.Replacing path content ⟨after, .ok ()⟩ := by
  have hgrown := makeParent_grown d path
  rw [hmade] at hgrown
  have hstands {r : Location} : d.StandsIn path r ↔ r = q := standsIn_iff hmade hq
  have hleads {r : Location} : d.Leads path r ↔ r = p := leads_iff hmade hp
  have hafter : after.Places path p := by
    refine ((hq.places_put_file content).mpr hp).of_keeps hmoved.keeps ?_
    exact not_hasDirectory_of_file hmoved.placed rfl
  refine ⟨⟨fun _ => ⟨⟨q, hstands.mpr rfl⟩, p, hleads.mpr rfl⟩, fun _ => rfl⟩, ?_, ?_, ?_, ?_⟩
  · intro r s hr hs
    rw [hstands.mp hr, hleads.mp hs]
    refine ⟨hafter.locate hmoved.placed, hafter.read hmoved.placed, fun hne => ?_⟩
    unfold fileAt?
    rw [hmoved.gone hne]
    rfl
  · exact fun r _ hnone => absurd (hleads.mpr rfl) (hnone p)
  · exact fun hnone => absurd (hstands.mpr rfl) (hnone q)
  · intro r hr hr'
    have hne := mt hstands.mpr hr
    rw [fileAt?_congr (hmoved.others r hne (mt hleads.mpr hr')), fileAt?_congr (at?_put_of_ne hne _)]
    exact hgrown.fileAt? r

/-- **What becomes of a disk** when a file is replaced. -/
theorem replaceFile_replacing (htree : d.IsTree) : d.Replacing path content (d.replaceFile path content) := by
  have hgrown := makeParent_grown d path
  unfold replaceFile
  split
  next made e hmade =>
    rw [hmade] at hgrown
    refine .of_refused (fun q hq => ?_) hgrown
    rw [StandsIn, hmade] at hq
    cases hq.1
  next made hmade =>
    rw [hmade] at hgrown
    split
    next e hwrite =>
      refine .of_refused (fun q hq => ?_) hgrown
      rw [StandsIn, hmade] at hq
      have hwritten : made.writeFile (temporaryPath path) content = .ok _ :=
        modifyFile_eq_ok_iff.mpr ⟨q, hq.2, rfl⟩
      rw [hwrite] at hwritten
      cases hwritten
    next written hwrite =>
      obtain ⟨q, hq, rfl⟩ := modifyFile_eq_ok_iff.mp hwrite
      have hfile := at?_put_self (d := made) hq.ne_nil (.file content)
      have hstill := hq.put_file content
      have hsame (p : Location) : (made.put q (.file content)).Places path p ↔ made.Places path p :=
        hq.places_put_file content
      split
      next after hmove =>
        obtain ⟨p, hp, rfl⟩ := (moveFile_eq_ok_iff hstill.toPlaces hfile).mp hmove
        have htree' := hq.put_tree (hgrown.tree htree) (.file content)
        exact .of_moved hmade hq ((hsame p).mp hp) (moved htree' hq.ne_nil hfile hp)
      next e hmove =>
        refine .of_stuck hmade hq fun p hp => ?_
        rw [(moveFile_eq_ok_iff hstill.toPlaces hfile).mpr ⟨p, (hsame p).mpr hp, rfl⟩] at hmove
        cases hmove

/-! ## §4. Replacing a file and nothing else. -/

/-- A file is replaced whole or not at all: if that succeeds then its path leads to a file with the content, and
if it fails then the same file is there as before. No other file is made, changed or taken away. -/
def ReplacedAtomically (d : Disk) (path : String) (content : Bytes) : Prop :=
  let after := d.replaceFile path content
  match after.result with
  | .ok () => after.disk.read path = .ok content ∧
      ∃ p, after.disk.locate path = .ok p ∧ ∀ r ≠ p, after.disk.fileAt? r = d.fileAt? r
  | .error _ => ∀ r, after.disk.fileAt? r = d.fileAt? r

theorem replacedAtomically_of_ok (h : (d.replaceFile path content).result = .ok ()) :
    d.ReplacedAtomically path content ↔ (d.replaceFile path content).disk.read path = .ok content ∧
      ∃ p, (d.replaceFile path content).disk.locate path = .ok p ∧
        ∀ r ≠ p, (d.replaceFile path content).disk.fileAt? r = d.fileAt? r := by
  unfold ReplacedAtomically
  simp only [h]

theorem replacedAtomically_of_error (h : (d.replaceFile path content).result ≠ .ok ()) :
    d.ReplacedAtomically path content ↔ ∀ r, (d.replaceFile path content).disk.fileAt? r = d.fileAt? r := by
  unfold ReplacedAtomically
  cases hresult : (d.replaceFile path content).result with
  | ok done => exact absurd hresult h
  | error e => simp only [hresult]

/-- Where the file is replaced, the other one does harm if it is another, and a file stood where it is written. -/
theorem Replacing.atomically_iff_of_leads (h : d.Replacing path content (d.replaceFile path content))
    {q p : Location} (hq : d.StandsIn path q) (hp : d.Leads path p) :
    d.ReplacedAtomically path content ↔ q = p ∨ d.fileAt? q = none := by
  obtain ⟨hlocate, hread, hgone⟩ := h.replaced q p hq hp
  rw [replacedAtomically_of_ok (h.succeeds.mpr ⟨⟨q, hq⟩, p, hp⟩)]
  constructor
  · intro hatomic
    obtain ⟨-, p', hp', hsame⟩ := hatomic
    rw [hlocate] at hp'
    obtain rfl : p = p' := Except.ok.inj hp'
    by_cases hqp : q = p
    · exact .inl hqp
    · exact .inr ((hsame q hqp).symm.trans (hgone hqp))
  · intro hharmless
    refine ⟨hread, p, hlocate, fun r hr => ?_⟩
    by_cases hrq : r = q
    · rw [hrq] at hr ⊢
      rw [hgone hr, hharmless.resolve_left hr]
    · exact h.others r (fun hs => hrq (hq.unique hs)) fun hl => hr (hp.unique hl)

/-- Where it is not replaced, what is left behind does no harm if it was there before. -/
theorem Replacing.atomically_iff_of_not_leads (h : d.Replacing path content (d.replaceFile path content))
    {q : Location} (hq : d.StandsIn path q) (hno : ∀ p, ¬ d.Leads path p) :
    d.ReplacedAtomically path content ↔ d.fileAt? q = some (.file content) := by
  have hleft := h.left q hq hno
  have hfailed : (d.replaceFile path content).result ≠ .ok () := by
    intro hok
    obtain ⟨-, p, hp⟩ := h.succeeds.mp hok
    exact hno p hp
  rw [replacedAtomically_of_error hfailed]
  constructor
  · exact fun hatomic => (hatomic q).symm.trans hleft
  · intro hbefore r
    by_cases hrq : r = q
    · rw [hrq, hleft, hbefore]
    · exact h.others r (fun hs => hrq (hq.unique hs)) (hno r)

/-- **A file is replaced whole or not at all** exactly if the other file does no harm: if the file is replaced
then no file was where the other one is written, or both are one; if it is not then what is left behind was there
before. -/
theorem replacedAtomically_iff (htree : d.IsTree) :
    d.Replacing path content (d.replaceFile path content) ∧
      (d.ReplacedAtomically path content ↔ ∀ q, d.StandsIn path q →
        (∃ p, d.Leads path p ∧ (q = p ∨ d.fileAt? q = none)) ∨
          (∀ p, ¬ d.Leads path p) ∧ d.fileAt? q = some (.file content)) := by
  have hbecomes : d.Replacing path content (d.replaceFile path content) := replaceFile_replacing htree
  refine ⟨hbecomes, ?_⟩
  constructor
  · intro hatomic q hq
    by_cases hleads : ∃ p, d.Leads path p
    · obtain ⟨p, hp⟩ := hleads
      exact .inl ⟨p, hp, (hbecomes.atomically_iff_of_leads hq hp).mp hatomic⟩
    · have hno : ∀ p, ¬ d.Leads path p := fun p hp => hleads ⟨p, hp⟩
      exact .inr ⟨hno, (hbecomes.atomically_iff_of_not_leads hq hno).mp hatomic⟩
  · intro hharmless
    by_cases hstands : ∃ q, d.StandsIn path q
    · obtain ⟨q, hq⟩ := hstands
      rcases hharmless q hq with ⟨p, hp, hqp⟩ | ⟨hno, hbefore⟩
      · exact (hbecomes.atomically_iff_of_leads hq hp).mpr hqp
      · exact (hbecomes.atomically_iff_of_not_leads hq hno).mpr hbefore
    · -- nothing is written
      have hfailed : (d.replaceFile path content).result ≠ .ok () := fun hok => hstands (hbecomes.succeeds.mp hok).1
      exact (replacedAtomically_of_error hfailed).mpr (hbecomes.kept fun q hq => hstands ⟨q, hq⟩)

/-- A file in a directory. -/
def oneFile : Disk := ⟨[(["d".toList], .directory), (["d".toList, "f".toList], .file [])], []⟩

theorem oneFile_tree : oneFile.IsTree := by
  refine isTree_of_entries fun entry hentry => ?_
  fin_cases hentry <;> rfl

/-- Nothing stands in for the file, so that it is replaced with no other file changed. -/
theorem oneFile_replaced :
    oneFile.IsTree ∧ oneFile.Replacing "d/f" [120] (oneFile.replaceFile "d/f" [120]) ∧
      oneFile.ReplacedAtomically "d/f" [120] := by
  obtain ⟨hbecomes, hatomic⟩ := replacedAtomically_iff oneFile_tree
  have hmade : oneFile.makeParent "d/f" = ⟨oneFile, .ok ()⟩ := rfl
  have hfile : oneFile.Leads "d/f" (["d".toList] ++ ["f".toList]) := by
    rw [Leads, hmade]
    exact .of_target rfl rfl (by decide)
  have hother : oneFile.StandsIn "d/f" (["d".toList] ++ ["f.tmp".toList]) := by
    rw [StandsIn, hmade]
    refine ⟨rfl, .of_target rfl rfl (by decide), fun size why => ?_⟩
    rw [show oneFile.at? _ = none from rfl]
    simp
  refine ⟨oneFile_tree, hbecomes, hatomic.mpr fun q hq => .inl ⟨_, hfile, .inr ?_⟩⟩
  rw [hother.unique hq]
  rfl

/-- The directory is not replaced by a file, and the other file is left beside it. -/
theorem directory_leaves_temporary : ¬ oneFile.ReplacedAtomically "d" [120] := by
  have hfailed : (oneFile.replaceFile "d" [120]).result ≠ .ok () := by
    rw [show (oneFile.replaceFile "d" [120]).result = .error .isADirectory from rfl]
    simp
  rw [replacedAtomically_of_error hfailed]
  intro h
  have hbefore : oneFile.fileAt? ["d.tmp".toList] = none := rfl
  have hafter : (oneFile.replaceFile "d" [120]).disk.fileAt? ["d.tmp".toList] = some (.file [120]) := rfl
  rw [h, hbefore] at hafter
  cases hafter

end Disk

end CodeIndex
