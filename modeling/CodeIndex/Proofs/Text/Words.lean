import Mathlib
import CodeIndex.Text.Blank

/-!
# Trimming and words

Trimming takes the blanks at either end of a text and stops at the first character that is not blank. Words
end at blanks, so blanks at the ends make no difference to them. What is put together from words, with anything
between the first and the last of them, is left as it is by trimming (`IsWord.inked_append`).

Main results:
  * `trim_append_ink` — trimming stops at a character that is not blank;
  * `trim_spaced` — the blanks around a text are what is trimmed away;
  * `head?_words` — the first word of a text;
  * `separated_words` — a text consists of its words and the blanks between them.
-/

namespace CodeIndex.Text

variable {s gap core : List Char} {c : Char}

/-! ## §1. Trimming. -/

theorem allBlank_cons : allBlank (c :: s) = true ↔ isBlank c = true ∧ allBlank s = true := by
  simp [allBlank]

theorem trimStart_blank (h : allBlank gap = true) (s : List Char) : trimStart (gap ++ s) = trimStart s := by
  unfold trimStart dropLeading
  apply List.dropWhile_append_of_pos
  simpa [allBlank] using h

theorem trimEnd_blank (h : allBlank gap = true) (s : List Char) : trimEnd (s ++ gap) = trimEnd s := by
  unfold trimEnd dropTrailing
  rw [List.reverse_append, List.dropWhile_append_of_pos]
  simpa [allBlank] using h

theorem trimStart_ink (h : isBlank c = false) (s : List Char) : trimStart (c :: s) = c :: s := by
  unfold trimStart dropLeading
  rw [List.dropWhile_cons_of_neg (by simp [h])]

theorem trimEnd_ink (h : isBlank c = false) (s : List Char) : trimEnd (s ++ [c]) = s ++ [c] := by
  unfold trimEnd dropTrailing
  rw [List.reverse_append, List.reverse_singleton, List.singleton_append,
    List.dropWhile_cons_of_neg (by simp [h]), List.reverse_cons, List.reverse_reverse]

/-- Trimming the front does not reach past a character that is not blank, -/
theorem trimStart_append_ink (h : isBlank c = false) (before after : List Char) :
    trimStart (before ++ c :: after) = trimStart before ++ c :: after := by
  induction before with
  | nil => exact trimStart_ink h after
  | cons b before ih =>
    by_cases hb : isBlank b = true
    · have hblank : allBlank [b] = true := by simpa [allBlank] using hb
      have hone : ∀ t, trimStart (b :: t) = trimStart t := trimStart_blank hblank
      rw [List.cons_append, hone, hone, ih]
    · rw [Bool.not_eq_true] at hb
      rw [List.cons_append, trimStart_ink hb, trimStart_ink hb, List.cons_append]

/-- and neither does trimming the end. -/
theorem trimEnd_append_ink (h : isBlank c = false) (before after : List Char) :
    trimEnd (before ++ c :: after) = before ++ c :: trimEnd after := by
  induction after using List.reverseRecOn with
  | nil => exact trimEnd_ink h before
  | append_singleton after b ih =>
    have hassoc : before ++ c :: (after ++ [b]) = (before ++ c :: after) ++ [b] := by simp
    by_cases hb : isBlank b = true
    · have hone : ∀ t, trimEnd (t ++ [b]) = trimEnd t := trimEnd_blank (by simpa [allBlank] using hb)
      rw [hassoc, hone, hone, ih]
    · rw [Bool.not_eq_true] at hb
      rw [hassoc, trimEnd_ink hb, trimEnd_ink hb]
      simp

theorem trim_append_ink (h : isBlank c = false) (before after : List Char) :
    trim (before ++ c :: after) = trimStart before ++ c :: trimEnd after := by
  unfold trim
  rw [trimStart_append_ink h, trimEnd_append_ink h]

/-- A text is what is left of it when it is trimmed, with blanks around that. -/
theorem exists_around_trim (s : List Char) :
    ∃ before after, allBlank before = true ∧ allBlank after = true ∧ s = before ++ trim s ++ after := by
  refine ⟨s.takeWhile isBlank, ((trimStart s).reverse.takeWhile isBlank).reverse, ?_, ?_, ?_⟩
  · simp [allBlank]
  · simp [allBlank]
  · have hend : trimStart s = trim s ++ ((trimStart s).reverse.takeWhile isBlank).reverse := by
      unfold trim trimEnd dropTrailing
      rw [← List.reverse_append, List.takeWhile_append_dropWhile, List.reverse_reverse]
    rw [List.append_assoc, ← hend]
    exact List.takeWhile_append_dropWhile.symm

theorem trim_allBlank (h : allBlank s = true) : trim s = [] := by
  have hstart := trimStart_blank h []
  rw [List.append_nil] at hstart
  unfold trim
  rw [hstart]
  rfl

/-- Blanks at the end make no difference to a trimmed text, -/
theorem trim_append_blank (h : allBlank gap = true) (s : List Char) : trim (s ++ gap) = trim s := by
  by_cases hblank : allBlank s = true
  · rw [trim_allBlank hblank]
    apply trim_allBlank
    simp only [allBlank, List.all_append, Bool.and_eq_true] at hblank h ⊢
    exact ⟨hblank, h⟩
  · -- what is trimmed away stands behind the last character that is not blank
    obtain ⟨c, hc, hink⟩ : ∃ c ∈ s, isBlank c = false := by simpa [allBlank] using hblank
    obtain ⟨before, after, rfl⟩ := List.append_of_mem hc
    rw [List.append_assoc, List.cons_append, trim_append_ink hink, trim_append_ink hink, trimEnd_blank h]

/-- and blanks at the front do not either. -/
theorem trim_blank_append (h : allBlank gap = true) (s : List Char) : trim (gap ++ s) = trim s := by
  unfold trim
  rw [trimStart_blank h]

/-- A text that neither begins nor ends with a blank. -/
structure IsInked (s : List Char) : Prop where
  nonempty : s ≠ []
  first : ∀ c ∈ s.head?, isBlank c = false
  last : ∀ c ∈ s.getLast?, isBlank c = false

theorem trim_spaced (h : IsInked core) {before after : List Char} (hbefore : allBlank before = true)
    (hafter : allBlank after = true) : trim (before ++ core ++ after) = core := by
  unfold trim
  obtain ⟨c, rest, rfl⟩ := List.exists_cons_of_ne_nil h.nonempty
  rw [List.append_assoc, trimStart_blank hbefore, List.cons_append, trimStart_ink (h.first c rfl),
    ← List.cons_append, trimEnd_blank hafter, ← List.dropLast_append_getLast h.nonempty]
  exact trimEnd_ink (h.last _ (List.getLast?_eq_getLast_of_ne_nil _)) _

/-! ## §2. Words. -/

/-- A blank ends a word. -/
theorem words_append_blank (h : isBlank c = true) (before after : List Char) :
    words (before ++ c :: after) = words before ++ words after := by
  unfold words
  rw [List.splitOnP_append_cons _ _ h, List.filter_append]

theorem words_blank_append (h : allBlank gap = true) (s : List Char) : words (gap ++ s) = words s := by
  induction gap with
  | nil => rfl
  | cons c gap ih =>
    obtain ⟨hc, hgap⟩ := allBlank_cons.mp h
    have hfirst := words_append_blank hc [] (gap ++ s)
    rw [List.nil_append] at hfirst
    rw [List.cons_append, hfirst, ih hgap]
    rfl

theorem words_append_blanks (h : allBlank gap = true) (s : List Char) : words (s ++ gap) = words s := by
  cases gap with
  | nil => rw [List.append_nil]
  | cons c gap =>
    obtain ⟨hc, hgap⟩ := allBlank_cons.mp h
    have hnone := words_blank_append hgap []
    rw [List.append_nil] at hnone
    rw [words_append_blank hc, hnone]
    exact List.append_nil _

/-- Blanks at the ends are not part of a word. -/
theorem words_trim (s : List Char) : words (trim s) = words s := by
  obtain ⟨before, after, hbefore, hafter, hs⟩ := exists_around_trim s
  conv_rhs => rw [hs]
  rw [words_append_blanks hafter, words_blank_append hbefore]

/-- A word: some characters, none of them blank. -/
structure IsWord (w : List Char) : Prop where
  nonempty : w ≠ []
  ink : ∀ c ∈ w, isBlank c = false

/-- Nothing, or blanks and whatever follows them: what may stand behind a word. -/
def EndsWord (tail : List Char) : Prop := ∀ c ∈ tail.head?, isBlank c = true

theorem words_word_append {w tail : List Char} (hw : IsWord w) (htail : EndsWord tail) :
    words (w ++ tail) = w :: words tail := by
  have halone : words w = [w] := by
    unfold words
    rw [List.splitOnP_eq_singleton hw.ink]
    simp [hw.nonempty]
  cases tail with
  | nil =>
    rw [List.append_nil, halone]
    rfl
  | cons c rest =>
    have hrest := words_append_blank (htail c rfl) [] rest
    rw [List.nil_append] at hrest
    rw [words_append_blank (htail c rfl), halone, hrest]
    rfl

theorem head?_words {w tail : List Char} (hw : IsWord w) (htail : EndsWord tail) :
    (words (w ++ tail)).head? = some w := by
  rw [words_word_append hw htail, List.head?_cons]

/-- A text of words, in their order, with blanks between two of them. -/
inductive Separated : (s : List Char) → (words : List (List Char)) → Prop where
  | blanks {gap : List Char} (blank : allBlank gap = true) : Separated gap []
  | word {gap w tail : List Char} {ws : List (List Char)} (blank : allBlank gap = true) (isWord : IsWord w)
    (ends : EndsWord tail) (more : Separated tail ws) : Separated (gap ++ (w ++ tail)) (w :: ws)

theorem Separated.words_eq {ws : List (List Char)} (h : Separated s ws) : words s = ws := by
  induction h with
  | blanks blank =>
    have hnone := words_blank_append blank []
    rw [List.append_nil] at hnone
    rw [hnone]
    rfl
  | word blank isWord ends _ ih => rw [words_blank_append blank, words_word_append isWord ends, ih]

/-- **The words of a text** are what it consists of, but for the blanks. -/
theorem separated_words (s : List Char) : Separated s (words s) := by
  induction hn : s.length using Nat.strong_induction_on generalizing s with
  | h n ih =>
    have hgap : allBlank (s.takeWhile isBlank) = true := by simp [allBlank]
    cases hrest : s.dropWhile isBlank with
    | nil =>
      have hs : s = s.takeWhile isBlank := by
        conv_lhs => rw [← List.takeWhile_append_dropWhile (p := isBlank) (l := s), hrest, List.append_nil]
      have hblank : Separated s [] := .blanks (hs ▸ hgap)
      rwa [hblank.words_eq]
    | cons c rest =>
      have hc : isBlank c = false := by
        simpa [hrest] using List.head?_dropWhile_not isBlank s
      -- the first word goes on to the next blank
      have hsplit : s = s.takeWhile isBlank
          ++ ((c :: rest.takeWhile (!isBlank ·)) ++ rest.dropWhile (!isBlank ·)) := by
        rw [List.cons_append, List.takeWhile_append_dropWhile, ← hrest, List.takeWhile_append_dropWhile]
      have hword : IsWord (c :: rest.takeWhile (!isBlank ·)) := by
        refine ⟨List.cons_ne_nil _ _, fun b hb => ?_⟩
        rcases List.mem_cons.mp hb with rfl | hb
        · exact hc
        · simpa using List.mem_takeWhile_imp hb
      have hends : EndsWord (rest.dropWhile (!isBlank ·)) := by
        intro b hb
        have hfirst := List.head?_dropWhile_not (!isBlank ·) rest
        rw [hb] at hfirst
        simpa using hfirst
      have hshort : (rest.dropWhile (!isBlank ·)).length < n := by
        have hlength := congrArg List.length hsplit
        simp only [List.length_append, List.length_cons] at hlength
        omega
      have hwhole := Separated.word hgap hword hends (ih _ hshort _ rfl)
      rw [← hsplit] at hwhole
      rwa [hwhole.words_eq]

/-- A character that is not blank stands in a word. -/
theorem mem_iff_mem_words (hc : isBlank c = false) : c ∈ s ↔ ∃ w ∈ words s, c ∈ w := by
  have hgap : ∀ {gap : List Char}, allBlank gap = true → c ∉ gap := by
    intro gap hblank hmem
    rw [List.all_eq_true.mp hblank c hmem] at hc
    cases hc
  have hs := separated_words s
  generalize words s = ws at hs
  induction hs with
  | blanks blank => simp [hgap blank]
  | word blank _ _ _ ih => simp [hgap blank, ih]

theorem words_eq_nil_iff : words s = [] ↔ ∀ c ∈ s, isBlank c = true := by
  constructor
  · intro h
    have hs := separated_words s
    rw [h] at hs
    cases hs with
    | blanks blank => simpa [allBlank] using blank
  · intro h
    exact Separated.words_eq (.blanks (by simpa [allBlank] using h))

theorem IsWord.inked {w : List Char} (h : IsWord w) : IsInked w where
  nonempty := h.nonempty
  first c hc := h.ink c (List.mem_of_mem_head? hc)
  last c hc := h.ink c (List.mem_of_mem_getLast? hc)

/-- What stands between two words does not matter at the ends. -/
theorem IsWord.inked_append {w v : List Char} (hw : IsWord w) (hv : IsWord v) (between : List Char) :
    IsInked (w ++ between ++ v) where
  nonempty := by simp [hw.nonempty]
  first c hc := by
    rw [List.append_assoc, List.head?_append_of_ne_nil _ hw.nonempty] at hc
    exact hw.inked.first c hc
  last c hc := by
    rw [List.getLast?_append_of_ne_nil _ hv.nonempty] at hc
    exact hv.inked.last c hc

end CodeIndex.Text
