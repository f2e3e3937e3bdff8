import Mathlib
import CodeIndex.Source.Parse
import CodeIndex.Text.Utf8

/-!
# The lines of an outline

A line declares one symbol at most, so the lines of the symbols of a file increase strictly, and none of
them is past the last line. There are no more lines than characters, and no more characters than bytes;
so a file that fits the memory has line numbers that fit a signed 64 bit number.

Main results: `parse_lines_increase`, `startLine_le_of_decoded`.
-/

namespace CodeIndex

/-! ## §1. Lines and bytes. -/

theorem length_push_le (c : Char) (r : Text.LinesRead) : (r.push c).lines.length ≤ r.lines.length + 1 := by
  unfold Text.LinesRead.push
  split
  · simp
  · split
    · simp
    · split
      next h => simp [h]
      next line rest h => simp [h]

/-- There are no more lines than characters. -/
theorem length_lines_le (s : List Char) : (Text.lines s).length ≤ s.length := by
  unfold Text.lines
  induction s with
  | nil => simp
  | cons c rest ih =>
    have hpush := length_push_le c (rest.foldr Text.LinesRead.push ⟨[], false⟩)
    rw [List.foldr_cons, List.length_cons]
    omega

theorem length_decodeWith_le (onBad : Option Char) (fuel : Nat) :
    ∀ {bytes : Text.Bytes} {acc content : List Char},
      Text.decodeWith onBad fuel bytes acc = some content → content.length ≤ acc.length + fuel := by
  induction fuel with
  | zero =>
    intro bytes acc content h
    rw [Text.decodeWith, Option.some.injEq] at h
    simp [← h]
  | succ fuel ih =>
    intro bytes acc content h
    cases bytes with
    | nil =>
      rw [Text.decodeWith, Option.some.injEq] at h
      simp [← h]
    | cons b rest =>
      -- a round reads one character, or puts one in the place of what it cannot read
      have hround : ∀ {c : Char} {rest' : Text.Bytes},
          Text.decodeWith onBad fuel rest' (c :: acc) = some content →
          content.length ≤ acc.length + (fuel + 1) := by
        intro c rest' hrest
        have hle := ih hrest
        rw [List.length_cons] at hle
        omega
      rw [Text.decodeWith] at h
      split at h
      · exact hround h
      · split at h
        · exact hround h
        · exact absurd h (by simp)

/-- There are no more characters than bytes. -/
theorem length_decode_le {bytes : Text.Bytes} {content : List Char}
    (h : Text.decode? bytes = some content) : content.length ≤ bytes.length := by
  simpa using length_decodeWith_le none bytes.length h

/-! ## §2. Symbols. -/

/-- The symbols that some lines declare are on these lines, one to a line at most. -/
theorem symbolsFrom_lines (language : Language) (lines : List (List Char)) :
    ∀ (number : Nat) (inside : Bool),
      (∀ s ∈ language.symbolsFrom number inside lines,
        number ≤ s.startLine ∧ s.startLine < number + lines.length)
      ∧ ((language.symbolsFrom number inside lines).map (·.startLine)).Pairwise (· < ·) := by
  induction lines with
  | nil => intro number inside; simp [Language.symbolsFrom]
  | cons line rest ih =>
    intro number inside
    obtain ⟨hbounds, horder⟩ :=
      ih (number + 1) (language.comment inside (Text.trimStart line)).inside
    have hlater : ∀ s ∈ language.symbolsFrom (number + 1)
        (language.comment inside (Text.trimStart line)).inside rest,
        number < s.startLine ∧ s.startLine < number + (rest.length + 1) := by
      intro s hs
      have hs := hbounds s hs
      omega
    unfold Language.symbolsFrom
    simp only [List.length_cons]
    split
    · exact ⟨fun s hs => ⟨(hlater s hs).1.le, (hlater s hs).2⟩, horder⟩
    · split
      next d _ =>
        -- the line itself declares a symbol, before all others
        constructor
        · intro s hs
          rcases List.mem_cons.mp hs with rfl | hs
          · exact ⟨le_rfl, Nat.lt_add_of_pos_right (Nat.succ_pos _)⟩
          · exact ⟨(hlater s hs).1.le, (hlater s hs).2⟩
        · rw [List.map_cons, List.pairwise_cons]
          refine ⟨fun n hn => ?_, horder⟩
          obtain ⟨s, hs, rfl⟩ := List.mem_map.mp hn
          exact (hlater s hs).1
      next => exact ⟨fun s hs => ⟨(hlater s hs).1.le, (hlater s hs).2⟩, horder⟩

/-- **The symbols of a file are in the order of their lines**, one to a line at most. -/
theorem parse_lines_increase (path : String) (content : List Char) :
    ((parse path content).symbols.map (·.startLine)).Pairwise (· < ·) := by
  show (((Language.ofPath path).symbols content).map (·.startLine)).Pairwise (· < ·)
  unfold Language.symbols
  split
  · exact List.Pairwise.nil
  · exact (symbolsFrom_lines _ _ _ _).2

/-- A symbol is on a line of the file. -/
theorem startLine_le_lines {path : String} {content : List Char} {s : Symbol}
    (h : s ∈ (parse path content).symbols) :
    1 ≤ s.startLine ∧ s.startLine ≤ (Text.lines content).length := by
  replace h : s ∈ (Language.ofPath path).symbols content := h
  unfold Language.symbols at h
  split at h
  · exact absurd h (by simp)
  · have hbounds := (symbolsFrom_lines _ _ _ _).1 s h
    omega

/-- So the number of its line does not exceed the size of the file. -/
theorem startLine_le_of_decoded {path : String} {bytes : Text.Bytes} {content : List Char}
    (hdecoded : Text.decode? bytes = some content) {s : Symbol} (h : s ∈ (parse path content).symbols) :
    s.startLine ≤ bytes.length :=
  (startLine_le_lines h).2.trans ((length_lines_le content).trans (length_decode_le hdecoded))

end CodeIndex
