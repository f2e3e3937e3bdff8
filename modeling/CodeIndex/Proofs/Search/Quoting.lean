import Mathlib
import CodeIndex.Proofs.Text.Words
import CodeIndex.Search.Expression

/-!
# Queries as expressions

A query is a list of words, and the expression that it becomes must say those words and nothing else, whatever
characters they are made of. How an expression is read is said here by two relations: `Closes` for one string
and `Reads` for a whole expression, in which nothing stands outside the strings but one space between two of
them and, for words that may go on, a star behind each. Both leave no choice, so an expression is read in one way.

The search engine takes an expression to end where a zero character stands, and a query may have one. It stands
in a word then, so that the string of this word is never closed and the engine reads nothing at all.

Main results:
  * `expression_reads_as_words` — an expression is read as the words of its query;
  * `readWords?_expression` — what the search engine reads.
-/

namespace CodeIndex.Search

variable {open? : Bool} {text word rest : List Char}

/-! ## §1. Strings. -/

/-- A text behind an opening quote is the rest of a string: the word that it stands for, and what follows the
closing quote. A quote written twice stands for one, and a quote alone closes the string. -/
inductive Closes : (text word rest : List Char) → Prop where
  | close {rest : List Char} (alone : rest.head? ≠ some '"') : Closes ('"' :: rest) [] rest
  | quote {text word rest : List Char} (more : Closes text word rest) :
    Closes ('"' :: '"' :: text) ('"' :: word) rest
  | plain {c : Char} {text word rest : List Char} (ordinary : c ≠ '"') (more : Closes text word rest) :
    Closes (c :: text) (c :: word) rest

/-- A string can be read in one way only. -/
theorem Closes.unique {word' rest' : List Char} (h : Closes text word rest) (h' : Closes text word' rest') :
    word = word' ∧ rest = rest' := by
  induction h generalizing word' with
  | close alone =>
    cases h' with
    | close => exact ⟨rfl, rfl⟩
    | quote => exact absurd rfl alone
    | plain ordinary => exact absurd rfl ordinary
  | quote _ ih =>
    cases h' with
    | close alone => exact absurd rfl alone
    | quote more =>
      obtain ⟨rfl, rfl⟩ := ih more
      exact ⟨rfl, rfl⟩
    | plain ordinary => exact absurd rfl ordinary
  | plain ordinary _ ih =>
    cases h' with
    | close => exact absurd rfl ordinary
    | quote => exact absurd rfl ordinary
    | plain _ more =>
      obtain ⟨rfl, rfl⟩ := ih more
      exact ⟨rfl, rfl⟩

theorem Closes.length_lt (h : Closes text word rest) : rest.length < text.length := by
  induction h with
  | close => simp
  | quote _ ih => simp only [List.length_cons]; omega
  | plain _ _ ih => simp only [List.length_cons]; omega

/-- The characters of a word, quotes twice. -/
def doubled (word : List Char) : List Char := word.flatMap fun c => if c = '"' then ['"', '"'] else [c]

theorem doubled_cons (c : Char) (word : List Char) :
    doubled (c :: word) = (if c = '"' then ['"', '"'] else [c]) ++ doubled word := List.flatMap_cons

/-- What is written of a word is read as that word. -/
theorem closes_doubled (word : List Char) (h : rest.head? ≠ some '"') :
    Closes (doubled word ++ '"' :: rest) word rest := by
  induction word with
  | nil => exact .close h
  | cons c word ih =>
    rw [doubled_cons]
    by_cases hc : c = '"'
    · rw [if_pos hc, hc]
      exact .quote ih
    · rw [if_neg hc]
      exact .plain hc ih

/-! ## §2. Expressions. -/

/-- What stands behind a string: a star if its word may go on. -/
def mark (open? : Bool) : List Char := if open? then ['*'] else []

/-- A text is read, from its first character to its last, as strings with one space between two of them and a
mark behind each. -/
inductive Reads (open? : Bool) : (text : List Char) → (words : List (List Char)) → Prop where
  | last {text word : List Char} (string : Closes text word (mark open?)) : Reads open? ('"' :: text) [word]
  | next {text word rest : List Char} {words : List (List Char)}
    (string : Closes text word (mark open? ++ ' ' :: rest)) (more : Reads open? rest words) :
    Reads open? ('"' :: text) (word :: words)

/-- An expression can be read in one way only. -/
theorem Reads.unique {words words' : List (List Char)} (h : Reads open? text words)
    (h' : Reads open? text words') : words = words' := by
  induction h generalizing words' with
  | last string =>
    cases h' with
    | last string' => rw [(string.unique string').1]
    | next string' => exact absurd (string.unique string').2 (by simp)
  | next string _ ih =>
    cases h' with
    | last string' => exact absurd (string.unique string').2 (by simp)
    | next string' more' =>
      obtain ⟨rfl, hrest⟩ := string.unique string'
      obtain rfl := (List.cons.inj (List.append_cancel_left hrest)).2
      rw [ih more']

/-- The words of a query, each as it is written, with a space between two of them. -/
def joined (open? : Bool) (words : List (List Char)) : List Char :=
  [' '].intercalate (words.map (writeWord open?))

theorem writeWord_eq (open? : Bool) (word : List Char) :
    writeWord open? word = '"' :: (doubled word ++ '"' :: mark open?) := by
  unfold writeWord quoteWord mark doubled
  cases open? <;> simp

theorem joined_singleton (open? : Bool) (word : List Char) :
    joined open? [word] = '"' :: (doubled word ++ '"' :: mark open?) := by
  unfold joined
  rw [List.map_singleton, List.intercalate_singleton, writeWord_eq]

theorem joined_cons_cons (open? : Bool) (word next : List Char) (words : List (List Char)) :
    joined open? (word :: next :: words)
      = '"' :: (doubled word ++ '"' :: (mark open? ++ ' ' :: joined open? (next :: words))) := by
  unfold joined
  rw [List.map_cons, List.intercalate_cons_of_ne_nil (by simp), writeWord_eq]
  simp

theorem head?_mark (open? : Bool) : (mark open?).head? ≠ some '"' := by cases open? <;> simp [mark]

theorem head?_mark_append (open? : Bool) (rest : List Char) : (mark open? ++ ' ' :: rest).head? ≠ some '"' := by
  cases open? <;> simp [mark]

/-- What is written of some words is read as those words. -/
theorem reads_joined {words : List (List Char)} (h : words ≠ []) : Reads open? (joined open? words) words := by
  induction words with
  | nil => exact absurd rfl h
  | cons word words ih =>
    cases words with
    | nil =>
      rw [joined_singleton]
      exact .last (closes_doubled word (head?_mark open?))
    | cons next words =>
      rw [joined_cons_cons]
      exact .next (closes_doubled word (head?_mark_append open? _)) (ih (List.cons_ne_nil _ _))

theorem expression?_eq_none_iff (open? : Bool) (query : List Char) :
    expression? open? query = none ↔ Text.words query = [] := by
  unfold expression?
  split
  next hnone => exact iff_of_true rfl hnone
  next hsome => exact iff_of_false (Option.some_ne_none _) hsome

theorem expression?_eq_some {query : List Char} (h : expression? open? query = some text) :
    Text.words query ≠ [] ∧ text = joined open? (Text.words query) := by
  unfold expression? at h
  split at h
  next => cases h
  next hsome => exact ⟨hsome, (Option.some.inj h).symm⟩

/-- **An expression** is read as the words of its query, in their order, and in no other way: nothing stands in
it but the strings of those words, their marks, and one space between two of them. The words are what the
query consists of, but for its blanks. Only a query of blanks has no expression. -/
theorem expression_reads_as_words (open? : Bool) (query : List Char) :
    (expression? open? query = none ↔ ∀ c ∈ query, Text.isBlank c = true) ∧
      Text.Separated query (Text.words query) ∧
      ∀ text, expression? open? query = some text →
        ∀ read, Reads open? text read ↔ read = Text.words query := by
  refine ⟨?_, Text.separated_words query, ?_⟩
  · rw [expression?_eq_none_iff, Text.words_eq_nil_iff]
  · intro text htext read
    obtain ⟨hwords, rfl⟩ := expression?_eq_some htext
    have hread : Reads open? (joined open? (Text.words query)) (Text.words query) := reads_joined hwords
    constructor
    · intro h
      exact h.unique hread
    · rintro rfl
      exact hread

/-- A quote inside a word is written twice, and an operator is a word like any other. -/
example : expression? true "a\"b  OR".toList = some "\"a\"\"b\"* \"OR\"*".toList := by decide

/-! ## §3. The search engine. -/

theorem readQuoted_of_closes (h : Closes text word rest) (acc : List Char) :
    readQuoted acc text = some (acc.reverse ++ word, rest) := by
  induction h generalizing acc with
  | @close rest alone =>
    rw [List.append_nil]
    cases rest with
    | nil => rfl
    | cons c rest =>
      have hc : c ≠ '"' := by simpa using alone
      simp [readQuoted, hc]
  | quote _ ih =>
    simp only [readQuoted, if_true, ih, List.reverse_cons, List.append_assoc, List.singleton_append]
  | plain ordinary _ ih => simp [readQuoted, ordinary, ih]

/-- A word that is not closed is not read. -/
theorem readQuoted_doubled (word acc : List Char) : readQuoted acc (doubled word) = none := by
  induction word generalizing acc with
  | nil => rfl
  | cons c word ih =>
    rw [doubled_cons]
    by_cases hc : c = '"'
    · simp [hc, readQuoted, ih]
    · simp [hc, readQuoted, ih]

/-- The engine reads a string and goes on behind its mark. -/
theorem readFrom?_string (h : Closes text word (mark open? ++ rest)) (hrest : rest.head? ≠ some '*')
    (fuel : Nat) :
    readFrom? (fuel + 1) ('"' :: text) = (readFrom? fuel rest).map ((word, open?) :: ·) := by
  have hquoted := readQuoted_of_closes h []
  cases open? with
  | true =>
    have hstar : readQuoted [] text = some (word, '*' :: rest) := hquoted
    simp [readFrom?, hstar]
  | false =>
    have hplain : readQuoted [] text = some (word, rest) := hquoted
    cases rest with
    | nil => simp [readFrom?, hplain]
    | cons c rest =>
      have hc : c ≠ '*' := by simpa using hrest
      simp [readFrom?, hplain, hc]

theorem readFrom?_space (fuel : Nat) (rest : List Char) :
    readFrom? (fuel + 1) (' ' :: rest) = readFrom? fuel rest := by
  simp [readFrom?]

/-- The engine reads an expression in the way that it can be read. -/
theorem readFrom?_of_reads {words : List (List Char)} (h : Reads open? text words) {fuel : Nat}
    (hfuel : text.length < fuel) : readFrom? fuel text = some (words.map (·, open?)) := by
  induction h generalizing fuel with
  | last string =>
    obtain ⟨fuel, rfl⟩ : ∃ n, fuel = n + 2 := ⟨fuel - 2, by rw [List.length_cons] at hfuel; omega⟩
    rw [← List.append_nil (mark open?)] at string
    rw [readFrom?_string string (by simp)]
    rfl
  | next string _ ih =>
    have hlength := string.length_lt
    rw [List.length_append, List.length_cons] at hlength
    rw [List.length_cons] at hfuel
    -- two steps: over the string and over the space behind it
    obtain ⟨fuel, rfl⟩ : ∃ n, fuel = n + 2 := ⟨fuel - 2, by omega⟩
    rw [readFrom?_string string (by simp), readFrom?_space, ih (by omega)]
    rfl

theorem untilZero_append (h : '\x00' ∉ text) (rest : List Char) :
    untilZero (text ++ rest) = text ++ untilZero rest := by
  unfold untilZero
  apply List.takeWhile_append_of_pos
  intro c hc
  simpa using ne_of_mem_of_not_mem hc h

theorem zero_mem_doubled : '\x00' ∈ doubled word ↔ '\x00' ∈ word := by
  unfold doubled
  rw [List.mem_flatMap]
  constructor
  · intro h
    obtain ⟨c, hc, hmem⟩ := h
    split at hmem
    next => simp at hmem
    next => rwa [List.mem_singleton.mp hmem]
  · intro h
    exact ⟨'\x00', h, by simp⟩

theorem zero_notMem_mark (open? : Bool) : '\x00' ∉ mark open? := by cases open? <;> simp [mark]

/-- Only a word brings a zero character into an expression. -/
theorem zero_notMem_joined {words : List (List Char)} (h : ∀ word ∈ words, '\x00' ∉ word) :
    '\x00' ∉ joined open? words := by
  induction words with
  | nil => simp [joined]
  | cons word words ih =>
    have hword : '\x00' ∉ doubled word := mt zero_mem_doubled.mp (h word List.mem_cons_self)
    have hmark := zero_notMem_mark open?
    cases words with
    | nil =>
      rw [joined_singleton]
      simp [hword, hmark]
    | cons next words =>
      have hrest := ih fun w hw => h w (List.mem_cons_of_mem _ hw)
      rw [joined_cons_cons]
      simp [hword, hmark, hrest]

/-- The string of a word with a zero character is cut off before its end. -/
theorem untilZero_doubled (h : '\x00' ∈ word) (rest : List Char) :
    untilZero (doubled word ++ rest) = doubled (untilZero word) := by
  induction word with
  | nil => simp at h
  | cons c word ih =>
    rw [doubled_cons]
    by_cases hzero : c = '\x00'
    · subst hzero
      rfl
    · have hword : '\x00' ∈ word := (List.mem_cons.mp h).resolve_left (Ne.symm hzero)
      have hcut : untilZero (c :: word) = c :: untilZero word := by
        unfold untilZero
        rw [List.takeWhile_cons_of_pos (by simpa using hzero)]
      have hplain : '\x00' ∉ (if c = '"' then ['"', '"'] else [c]) := by
        split
        next => simp
        next => simpa using Ne.symm hzero
      rw [List.append_assoc, untilZero_append hplain, ih hword, hcut, doubled_cons]

/-- So the engine finds no end of that string. -/
theorem readFrom?_cut (h : '\x00' ∈ word) (rest : List Char) (fuel : Nat) :
    readFrom? fuel (untilZero ('"' :: (doubled word ++ rest))) = none := by
  have hcut : untilZero ('"' :: (doubled word ++ rest)) = '"' :: doubled (untilZero word) := by
    show '"' :: untilZero (doubled word ++ rest) = _
    rw [untilZero_doubled h]
  rw [hcut]
  cases fuel with
  | zero => rfl
  | succ fuel => simp [readFrom?, readQuoted_doubled]

theorem readFrom?_untilZero {words : List (List Char)} (h : ∃ word ∈ words, '\x00' ∈ word) (fuel : Nat) :
    readFrom? fuel (untilZero (joined open? words)) = none := by
  induction words generalizing fuel with
  | nil => simp at h
  | cons word words ih =>
    cases words with
    | nil =>
      have hword : '\x00' ∈ word := by simpa using h
      rw [joined_singleton]
      exact readFrom?_cut hword _ fuel
    | cons next words =>
      rw [joined_cons_cons]
      by_cases hword : '\x00' ∈ word
      · exact readFrom?_cut hword _ fuel
      · -- this word is read, and a later one has the character
        have hlater : ∃ w ∈ next :: words, '\x00' ∈ w := by simpa [hword] using h
        have hmore : ∀ n, readFrom? n (untilZero (joined open? (next :: words))) = none := fun n => ih hlater n
        have hfront : '\x00' ∉ '"' :: (doubled word ++ '"' :: (mark open? ++ [' '])) := by
          simp [mt zero_mem_doubled.mp hword, zero_notMem_mark open?]
        have hcut := untilZero_append hfront (joined open? (next :: words))
        simp only [List.cons_append, List.append_assoc, List.nil_append] at hcut
        rw [hcut]
        cases fuel with
        | zero => rfl
        | succ fuel =>
          rw [readFrom?_string (closes_doubled word (head?_mark_append open? _)) (by simp)]
          cases fuel with
          | zero => rfl
          | succ fuel => rw [readFrom?_space, hmore, Option.map_none]

/-- **The search engine** reads the words of a query too, each with whether it may go on, unless there is a zero
character in the query: then it reads nothing. -/
theorem readWords?_expression {query : List Char} (h : expression? open? query = some text) :
    readWords? text =
      if '\x00' ∈ query then none else some ((Text.words query).map (·, open?)) := by
  obtain ⟨hwords, htext⟩ := expression?_eq_some h
  subst htext
  have hink : '\x00' ∈ query ↔ ∃ word ∈ Text.words query, '\x00' ∈ word := Text.mem_iff_mem_words (by decide)
  unfold readWords?
  split
  next hzero => exact readFrom?_untilZero (hink.mp hzero) _
  next hzero =>
    have hclean : '\x00' ∉ joined open? (Text.words query) := by
      apply zero_notMem_joined
      intro word hword hmem
      exact hzero (hink.mpr ⟨word, hword, hmem⟩)
    have hwhole : untilZero (joined open? (Text.words query)) = joined open? (Text.words query) := by
      have happend := untilZero_append hclean []
      rwa [List.append_nil, show untilZero [] = [] from rfl, List.append_nil] at happend
    simp only [hwhole]
    exact readFrom?_of_reads (reads_joined hwords) (Nat.lt_succ_self _)

end CodeIndex.Search
