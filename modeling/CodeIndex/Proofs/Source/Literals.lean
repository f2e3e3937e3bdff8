import Mathlib
import CodeIndex.Proofs.Source.Scanning

/-!
# Braces and literals on a line

A line of code is put together from lexemes: plain characters, braces, texts between quotes and, where
characters are written between apostrophes, such characters. A comment may end it. The braces of a line are
its lexemes that are braces; what stands in a text, in a character or in the comment does not count.

One lexeme breaks this. A character behind a backslash is taken to end at the first apostrophe after the
backslash, but it may be the apostrophe itself. Then the apostrophe that ends it is left over. If the second
character behind that is an apostrophe too, the two are taken for the ends of another character: what stands
between them is passed over, and the look for braces goes on behind it.

Main result: `braces_outside_literals`.
-/

namespace CodeIndex

/-! ## §1. Lexemes. -/

/-- What stands in a text between quotes. -/
inductive TextItem where
  /-- A character that stands for itself. -/
  | plain (c : Char)
  /-- A character behind a backslash. -/
  | escaped (c : Char)
  deriving DecidableEq, Repr

def TextItem.written : TextItem → List Char
  | .plain c => [c]
  | .escaped c => ['\\', c]

/-- A character that stands for itself is neither a backslash nor the quote that ends the text. -/
def TextItem.Fits (quote : Char) : TextItem → Prop
  | .plain c => c ≠ quote ∧ c ≠ '\\'
  | .escaped _ => True

instance (quote : Char) : DecidablePred (TextItem.Fits quote)
  | .plain c => inferInstanceAs (Decidable (c ≠ quote ∧ c ≠ '\\'))
  | .escaped _ => inferInstanceAs (Decidable True)

/-- What a line of code is put together from. -/
inductive Lexeme where
  | plain (c : Char)
  | brace (b : Brace)
  /-- A text between two quotes. -/
  | text (quote : Char) (items : List TextItem)
  /-- A character between apostrophes. -/
  | character (c : Char)
  /-- A character between apostrophes that is written with a backslash: what follows the backslash at once,
  and what follows that. -/
  | escape (first : Char) (more : List Char)
  deriving DecidableEq, Repr

/-- The apostrophe, written as a character between apostrophes. -/
def Lexeme.apostrophe : Lexeme := .escape '\'' []

def Brace.written : Brace → Char
  | .opening => '{'
  | .closing => '}'

def Lexeme.written : Lexeme → List Char
  | .plain c => [c]
  | .brace b => [b.written]
  | .text quote items => quote :: (items.flatMap TextItem.written ++ [quote])
  | .character c => ['\'', c, '\'']
  | .escape first more => '\'' :: '\\' :: first :: (more ++ ['\''])

/-- The brace that a lexeme is. -/
def Lexeme.brace? : Lexeme → Option Brace
  | .brace b => some b
  | _ => none

/-- Characters that are never plain: they begin a literal, an escape or a comment, or are braces. -/
def notPlain : List Char := ['"', '\x60', '\'', '/', '\\', '{', '}']

/-- The quotes that texts stand between. -/
def textQuotes (charLiterals : Bool) : List Char :=
  if charLiterals then ['"', '\x60'] else ['"', '\x60', '\'']

/-- A lexeme that is well formed. Characters between apostrophes are only written where `charLiterals` says so;
the apostrophe among them has nothing but itself behind its backslash. -/
def Lexeme.Fits (charLiterals : Bool) : Lexeme → Prop
  | .plain c => c ∉ notPlain
  | .brace _ => True
  | .text quote items => quote ∈ textQuotes charLiterals ∧ ∀ item ∈ items, item.Fits quote
  | .character c => charLiterals = true ∧ c ≠ '\'' ∧ c ≠ '\\'
  | .escape first more => charLiterals = true ∧ '\'' ∉ more ∧ (first = '\'' → more = [])

instance (charLiterals : Bool) : DecidablePred (Lexeme.Fits charLiterals)
  | .plain c => inferInstanceAs (Decidable (c ∉ notPlain))
  | .brace _ => inferInstanceAs (Decidable True)
  | .text quote items =>
    inferInstanceAs (Decidable (quote ∈ textQuotes charLiterals ∧ ∀ item ∈ items, item.Fits quote))
  | .character c => inferInstanceAs (Decidable (charLiterals = true ∧ c ≠ '\'' ∧ c ≠ '\\'))
  | .escape first more =>
    inferInstanceAs (Decidable (charLiterals = true ∧ '\'' ∉ more ∧ (first = '\'' → more = [])))

/-- The characters of some lexemes. -/
def Lexeme.writtenAll (lexemes : List Lexeme) : List Char := lexemes.flatMap Lexeme.written

open Lexeme (writtenAll)

@[simp]
theorem writtenAll_cons (t : Lexeme) (lexemes : List Lexeme) :
    writtenAll (t :: lexemes) = t.written ++ writtenAll lexemes := List.flatMap_cons

@[simp]
theorem writtenAll_append (before after : List Lexeme) :
    writtenAll (before ++ after) = writtenAll before ++ writtenAll after := List.flatMap_append

/-- The braces among lexemes. -/
def outerBraces (lexemes : List Lexeme) : List Brace := lexemes.filterMap Lexeme.brace?

@[simp]
theorem outerBraces_cons (t : Lexeme) (lexemes : List Lexeme) :
    outerBraces (t :: lexemes) = t.brace?.toList ++ outerBraces lexemes := by
  unfold outerBraces
  cases hbrace : t.brace? with
  | none => rw [List.filterMap_cons_none hbrace, Option.toList_none, List.nil_append]
  | some b => rw [List.filterMap_cons_some hbrace, Option.toList_some, List.singleton_append]

/-- A comment to the end of the line, or none. -/
def EndsLine (comment : List Char) : Prop := comment = [] ∨ ∃ text, comment = '/' :: '/' :: text

/-- A line of well-formed lexemes, and perhaps a comment at its end. -/
structure LexedLine (charLiterals : Bool) where
  lexemes : List Lexeme
  comment : List Char
  fits : ∀ t ∈ lexemes, t.Fits charLiterals
  commented : EndsLine comment

/-- The characters of a line. -/
def LexedLine.chars {charLiterals : Bool} (line : LexedLine charLiterals) : List Char :=
  writtenAll line.lexemes ++ line.comment

/-! ## §2. One lexeme. -/

variable {charLiterals : Bool}

theorem braces_plain {c : Char} (h : c ∉ notPlain) (rest : List Char) :
    braces charLiterals .code (c :: rest) = braces charLiterals .code rest := by
  simp only [notPlain, List.mem_cons, List.not_mem_nil, or_false, not_or] at h
  obtain ⟨hquote, hback, hapostrophe, hslash, -, hopening, hclosing⟩ := h
  rw [braces]
  simp [hquote, hback, hapostrophe, hslash, hopening, hclosing]

theorem braces_brace (b : Brace) (rest : List Char) :
    braces charLiterals .code (b.written :: rest) = b :: braces charLiterals .code rest := by
  cases b <;> simp [braces, Brace.written]

/-- A quote begins a text. -/
theorem braces_quote {quote : Char} (h : quote ∈ textQuotes charLiterals) (rest : List Char) :
    braces charLiterals .code (quote :: rest) = braces charLiterals (.quoted quote) rest := by
  have hquotes : quote = '"' ∨ quote = '\x60' ∨ (quote = '\'' ∧ charLiterals = false) := by
    cases charLiterals <;> simpa [textQuotes] using h
  have hopened : Within.opened charLiterals quote rest = .quoted quote := by
    rcases hquotes with rfl | rfl | ⟨rfl, rfl⟩
    · exact opened_of_ne (by decide) rest
    · exact opened_of_ne (by decide) rest
    · rfl
  rw [braces, hopened]
  rcases hquotes with rfl | rfl | ⟨rfl, -⟩ <;> simp

/-- A text is passed over up to the quote that ends it. -/
theorem braces_items {quote : Char} (hquote : quote ≠ '\\') {items : List TextItem}
    (h : ∀ item ∈ items, item.Fits quote) (rest : List Char) :
    braces charLiterals (.quoted quote) (items.flatMap TextItem.written ++ quote :: rest)
      = braces charLiterals .code rest := by
  induction items with
  | nil =>
    rw [List.flatMap_nil, List.nil_append, braces]
    simp [hquote]
  | cons item items ih =>
    obtain ⟨hitem, hitems⟩ := List.forall_mem_cons.mp h
    rw [List.flatMap_cons, List.append_assoc]
    cases item with
    | plain c =>
      obtain ⟨hends, hback⟩ := hitem
      show braces charLiterals (.quoted quote) (c :: (items.flatMap TextItem.written ++ quote :: rest)) = _
      rw [braces]
      simp only [beq_iff_eq, hends, hback, if_false]
      exact ih hitems
    | escaped c => exact ih hitems

theorem quote_ne_backslash {quote : Char} (h : quote ∈ textQuotes charLiterals) : quote ≠ '\\' := by
  rintro rfl
  cases charLiterals <;> exact absurd h (by decide)

/-- A character between apostrophes is passed over. -/
theorem braces_character {c : Char} (hback : c ≠ '\\') (rest : List Char) :
    braces true .code ('\'' :: c :: '\'' :: rest) = braces true .code rest := by
  rw [braces_apostrophe, if_neg (by simpa using hback), if_pos (by rfl)]
  rfl

/-- A character behind a backslash is passed over if it is not the apostrophe. -/
theorem braces_escape {first : Char} (hfirst : first ≠ '\'') {more : List Char} (hmore : '\'' ∉ more)
    (rest : List Char) :
    braces true .code ('\'' :: '\\' :: first :: (more ++ '\'' :: rest)) = braces true .code rest := by
  -- the first apostrophe behind the backslash is the one that ends the character
  have hclose : (first :: (more ++ '\'' :: rest)).findIdx? (· == '\'') = some (more.length + 1) := by
    have hinside : more.findIdx? (· == '\'') = none := by
      rw [List.findIdx?_eq_none_iff]
      intro c hc
      have hne : c ≠ '\'' := fun heq => hmore (heq ▸ hc)
      simpa using hne
    rw [List.findIdx?_cons, if_neg (by simpa using hfirst), List.findIdx?_append, hinside]
    simp [List.findIdx?_cons]
  rw [braces_apostrophe, if_pos (by rfl), List.drop_one, List.tail_cons, hclose]
  show braces true .code ((more ++ '\'' :: rest).drop (more.length + 1)) = _
  rw [List.drop_length_add_append, List.drop_one, List.tail_cons]

/-- **The apostrophe as a character**: the apostrophe that ends it is read as if it began another one. -/
theorem braces_written_apostrophe {rest : List Char} (hrest : rest.head? ≠ some '\\') :
    braces true .code ('\'' :: '\\' :: '\'' :: '\'' :: rest)
      = if rest[1]? = some '\'' then braces true .code (rest.drop 2) else braces true .code rest := by
  have hleft : braces true .code ('\'' :: '\\' :: '\'' :: '\'' :: rest)
      = braces true .code ('\'' :: rest) := by
    rw [braces_apostrophe]
    rfl
  rw [hleft, braces_apostrophe, if_neg hrest]

/-! ## §3. Lines. -/

/-- Behind each apostrophe that is written as a character, the second character is not another apostrophe. The
lexemes are followed by the rest of the line. -/
def Resumes (lexemes : List Lexeme) (rest : List Char) : Prop :=
  ∀ before after, lexemes = before ++ .apostrophe :: after → (writtenAll after ++ rest)[1]? ≠ some '\''

theorem resumes_cons_iff {t : Lexeme} {lexemes : List Lexeme} {rest : List Char} :
    Resumes (t :: lexemes) rest
      ↔ (t = .apostrophe → (writtenAll lexemes ++ rest)[1]? ≠ some '\'') ∧ Resumes lexemes rest := by
  constructor
  · intro h
    exact ⟨fun ht => h [] lexemes (by rw [ht, List.nil_append]),
      fun before after hsplit => h (t :: before) after (by rw [hsplit, List.cons_append])⟩
  · rintro ⟨ht, hlexemes⟩ before after hsplit
    cases before with
    | nil =>
      obtain ⟨rfl, rfl⟩ := List.cons.inj hsplit
      exact ht rfl
    | cons first before => exact hlexemes before after (List.cons.inj hsplit).2

/-- Where the look for braces does not resume, there is a first apostrophe behind which it does not. -/
theorem exists_first_of_not_resumes {lexemes : List Lexeme} {rest : List Char} (h : ¬ Resumes lexemes rest) :
    ∃ before after, lexemes = before ++ .apostrophe :: after
      ∧ Resumes before (writtenAll (.apostrophe :: after) ++ rest)
      ∧ (writtenAll after ++ rest)[1]? = some '\'' := by
  induction lexemes with
  | nil => exact absurd (fun before after hsplit => absurd hsplit (by simp)) h
  | cons t lexemes ih =>
    by_cases hfirst : t = .apostrophe → (writtenAll lexemes ++ rest)[1]? ≠ some '\''
    · obtain ⟨before, after, rfl, hbefore, hafter⟩ := ih fun hresumes => h (resumes_cons_iff.mpr ⟨hfirst, hresumes⟩)
      refine ⟨t :: before, after, rfl, resumes_cons_iff.mpr ⟨?_, hbefore⟩, hafter⟩
      rwa [writtenAll_append, List.append_assoc] at hfirst
    · obtain ⟨rfl, hafter⟩ := Classical.not_imp.mp hfirst
      exact ⟨[], lexemes, rfl, fun before after hsplit => absurd hsplit (by simp), not_not.mp hafter⟩

/-- No lexeme begins with a backslash. -/
theorem writtenAll_head {lexemes : List Lexeme} (h : ∀ t ∈ lexemes, t.Fits charLiterals) {rest : List Char}
    (hrest : rest.head? ≠ some '\\') : (writtenAll lexemes ++ rest).head? ≠ some '\\' := by
  cases lexemes with
  | nil => exact hrest
  | cons t lexemes =>
    have ht := h t List.mem_cons_self
    rw [writtenAll_cons]
    cases t with
    | plain c =>
      intro hhead
      obtain rfl : c = '\\' := Option.some.inj hhead
      exact ht (by decide)
    | brace b => cases b <;> exact fun hhead => absurd (Option.some.inj hhead) (by decide)
    | text quote items => exact fun hhead => quote_ne_backslash ht.1 (Option.some.inj hhead)
    | character c => exact fun hhead => absurd (Option.some.inj hhead) (by decide)
    | escape first more => exact fun hhead => absurd (Option.some.inj hhead) (by decide)

/-- **A lexeme** adds its brace, if it is one, and the look for braces goes on behind it. -/
theorem braces_lexeme {t : Lexeme} (h : t.Fits charLiterals) {rest : List Char} (hrest : rest.head? ≠ some '\\')
    (hresumes : t = .apostrophe → rest[1]? ≠ some '\'') :
    braces charLiterals .code (t.written ++ rest) = t.brace?.toList ++ braces charLiterals .code rest := by
  cases t with
  | plain c => exact braces_plain h rest
  | brace b => exact braces_brace b rest
  | text quote items =>
    obtain ⟨hquote, hitems⟩ := h
    show braces charLiterals .code (quote :: (items.flatMap TextItem.written ++ [quote] ++ rest)) = _
    rw [braces_quote hquote, List.append_assoc, List.singleton_append,
      braces_items (quote_ne_backslash hquote) hitems]
    rfl
  | character c =>
    obtain ⟨rfl, -, hback⟩ := h
    exact braces_character hback rest
  | escape first more =>
    obtain ⟨rfl, hmore, hwhole⟩ := h
    by_cases hfirst : first = '\''
    · subst hfirst
      obtain rfl := hwhole rfl
      exact (braces_written_apostrophe hrest).trans (if_neg (hresumes rfl))
    · show braces true .code ('\'' :: '\\' :: first :: (more ++ ['\''] ++ rest)) = _
      rw [List.append_assoc, List.singleton_append, braces_escape hfirst hmore]
      rfl

/-- The braces of lexemes are found if the look for them resumes behind each, whatever follows them. -/
theorem braces_writtenAll {lexemes : List Lexeme} (hfits : ∀ t ∈ lexemes, t.Fits charLiterals) {rest : List Char}
    (hrest : rest.head? ≠ some '\\') (hresumes : Resumes lexemes rest) :
    braces charLiterals .code (writtenAll lexemes ++ rest)
      = outerBraces lexemes ++ braces charLiterals .code rest := by
  induction lexemes with
  | nil => rfl
  | cons t lexemes ih =>
    obtain ⟨ht, hlexemes⟩ := List.forall_mem_cons.mp hfits
    obtain ⟨hfirst, hlater⟩ := resumes_cons_iff.mp hresumes
    have hone := braces_lexeme ht (writtenAll_head hlexemes hrest) hfirst
    have hothers := ih hlexemes hlater
    rw [writtenAll_cons, List.append_assoc, hone, hothers, outerBraces_cons, List.append_assoc]

theorem EndsLine.head {comment : List Char} (h : EndsLine comment) : comment.head? ≠ some '\\' := by
  rcases h with rfl | ⟨text, rfl⟩ <;> simp

/-- In a comment that ends the line no brace counts. -/
theorem EndsLine.braces_eq {comment : List Char} (h : EndsLine comment) :
    braces charLiterals .code comment = [] := by
  rcases h with rfl | ⟨text, rfl⟩ <;> rfl

/-- Where nothing is written between apostrophes but texts, the look for braces always resumes. -/
theorem resumes_of_texts {lexemes : List Lexeme} (h : ∀ t ∈ lexemes, t.Fits false) (rest : List Char) :
    Resumes lexemes rest := by
  rintro before after rfl
  exact absurd (h .apostrophe (by simp)).1 (by decide)

/-- **Only braces outside literals count**, on each line of lexemes and a comment. Where apostrophes stand
around texts, this holds of all lines. Where they stand around characters, it holds if behind each apostrophe
written as a character the second character is not another apostrophe. On a line on which it is one, the first
two characters behind the first such apostrophe are passed over, whatever lexemes they belong to, and the look
for braces goes on behind them; so it holds of this line exactly if the braces found from there on are those of
the lexemes after the apostrophe. -/
theorem braces_outside_literals (line : LexedLine charLiterals) :
    (charLiterals = false ∨ Resumes line.lexemes line.comment →
      braces charLiterals .code line.chars = outerBraces line.lexemes)
    ∧ (¬ Resumes line.lexemes line.comment → ∃ before after,
        line.lexemes = before ++ .apostrophe :: after
        ∧ Resumes before (writtenAll (.apostrophe :: after) ++ line.comment)
        ∧ (writtenAll after ++ line.comment)[1]? = some '\''
        ∧ braces charLiterals .code line.chars = outerBraces before
            ++ braces charLiterals .code ((writtenAll after ++ line.comment).drop 2)
        ∧ (braces charLiterals .code line.chars = outerBraces line.lexemes
          ↔ braces charLiterals .code ((writtenAll after ++ line.comment).drop 2) = outerBraces after)) := by
  constructor
  · intro h
    have hresumes : Resumes line.lexemes line.comment := by
      rcases h with rfl | h
      · exact resumes_of_texts line.fits _
      · exact h
    rw [LexedLine.chars, braces_writtenAll line.fits line.commented.head hresumes, line.commented.braces_eq,
      List.append_nil]
  · intro h
    obtain ⟨before, after, hsplit, hresumes, hnext⟩ := exists_first_of_not_resumes h
    have hfits := hsplit ▸ line.fits
    have hbefore : ∀ t ∈ before, t.Fits charLiterals := fun t ht => hfits t (List.mem_append_left _ ht)
    have hafter : ∀ t ∈ after, t.Fits charLiterals := fun t ht => hfits t (by simp [ht])
    obtain rfl : charLiterals = true := (hfits .apostrophe (by simp)).1
    have hchars : line.chars = writtenAll before ++ (writtenAll (.apostrophe :: after) ++ line.comment) := by
      rw [LexedLine.chars, hsplit, writtenAll_append, List.append_assoc]
    have hbraces : braces true .code line.chars = outerBraces before
        ++ braces true .code ((writtenAll after ++ line.comment).drop 2) := by
      rw [hchars, braces_writtenAll hbefore (by simp [Lexeme.apostrophe, Lexeme.written]) hresumes]
      congr 1
      exact (braces_written_apostrophe (writtenAll_head hafter line.commented.head)).trans (if_pos hnext)
    refine ⟨before, after, hsplit, hresumes, hnext, hbraces, ?_⟩
    have houter : outerBraces line.lexemes = outerBraces before ++ outerBraces after := by
      rw [hsplit, outerBraces, List.filterMap_append]
      rfl
    rw [hbraces, houter, List.append_cancel_left_eq]

-- in an arm for the apostrophe, the brace behind it counts as it should
example : braces true .code "'\\'' => \x7b".toList = [.opening] := by decide

/-- In a list of an apostrophe and an opening brace, the brace counts, although it is a character. -/
theorem brace_behind_apostrophe_counts :
    ∃ line : LexedLine true, line.chars = "'\\'','\x7b'".toList ∧ outerBraces line.lexemes = []
      ∧ braces true .code line.chars = [.opening] :=
  ⟨⟨[.apostrophe, .plain ',', .character '{'], [], by decide, .inl rfl⟩, by decide, by decide, by decide⟩

end CodeIndex
