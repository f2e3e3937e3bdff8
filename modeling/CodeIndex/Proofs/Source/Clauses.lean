import Mathlib
import CodeIndex.Proofs.Text.Words
import CodeIndex.Source.Reference

/-!
# Clauses of imports

The clause of an import is put together from three parts, each of which may be missing: a default binding, a
name for the whole module behind a star, and a list of specifiers between braces. A specifier is the name of
something in the module, perhaps with `type` in front and perhaps with another name behind `as`. Between words
there are blanks of any kind, and there may be more of them around commas and braces.

Of each specifier one name is found, and it is the first word of the specifier, or the one after a `type` that
has a space behind it (`itemName_spaced`). So `type` is taken for the name where it has another blank behind
it, and `as` is taken for the name where something called `type` gets another name (`Specifier.found`).

Main result: `clauseNames_text`.
-/

namespace CodeIndex

/-! ## §1. Pieces between commas. -/

namespace Text

variable {s gap : List Char}

/-- The pieces of a text between its commas, trimmed. -/
def pieces (s : List Char) : List (List Char) := (s.splitOn ',').map trim

theorem pieces_of_noComma (h : ',' ∉ s) : pieces s = [trim s] := by
  have hsplit : s.splitOn ',' = [s] := List.splitOnP_eq_singleton fun c hc => by
    have hne : c ≠ ',' := fun heq => h (heq ▸ hc)
    simpa using hne
  rw [pieces, hsplit, List.map_singleton]

theorem pieces_append_comma (before after : List Char) :
    pieces (before ++ ',' :: after) = pieces before ++ pieces after := by
  have hsplit : (before ++ ',' :: after).splitOn ',' = before.splitOn ',' ++ after.splitOn ',' :=
    List.splitOnP_append_cons before after (by simp)
  rw [pieces, hsplit, List.map_append]
  rfl

theorem comma_notMem_blank (h : allBlank gap = true) : ',' ∉ gap := by
  intro hmem
  exact absurd (List.all_eq_true.mp h ',' hmem) (by simp [isBlank])

/-- Blanks at the end belong to the last piece, which is trimmed, -/
theorem pieces_append_blank (h : allBlank gap = true) (s : List Char) : pieces (s ++ gap) = pieces s := by
  have hgap := comma_notMem_blank h
  by_cases hs : ',' ∈ s
  · obtain ⟨back, front, hreverse, hback⟩ := List.eq_append_cons_of_mem (List.mem_reverse.mpr hs)
    have hlast : s = front.reverse ++ ',' :: back.reverse := by
      rw [← List.reverse_reverse s, hreverse]
      simp
    have hnone : ',' ∉ back.reverse := by simpa using hback
    have hnone' : ',' ∉ back.reverse ++ gap := by simp [hback, hgap]
    rw [hlast, List.append_assoc, List.cons_append, pieces_append_comma, pieces_append_comma,
      pieces_of_noComma hnone, pieces_of_noComma hnone', trim_append_blank h]
  · have hnone : ',' ∉ s ++ gap := by simp [hs, hgap]
    rw [pieces_of_noComma hs, pieces_of_noComma hnone, trim_append_blank h]

/-- and those at the front to the first. -/
theorem pieces_blank_append (h : allBlank gap = true) (s : List Char) : pieces (gap ++ s) = pieces s := by
  have hgap := comma_notMem_blank h
  by_cases hs : ',' ∈ s
  · obtain ⟨front, back, rfl, hfront⟩ := List.eq_append_cons_of_mem hs
    have hnone : ',' ∉ gap ++ front := by simp [hfront, hgap]
    rw [← List.append_assoc, pieces_append_comma, pieces_append_comma, pieces_of_noComma hnone,
      pieces_of_noComma hfront, trim_blank_append h]
  · have hnone : ',' ∉ gap ++ s := by simp [hs, hgap]
    rw [pieces_of_noComma hs, pieces_of_noComma hnone, trim_blank_append h]

theorem pieces_trimStart (s : List Char) : pieces (trimStart s) = pieces s := by
  have hblank : allBlank (s.takeWhile isBlank) = true := by simp [allBlank]
  rw [← pieces_blank_append hblank]
  unfold trimStart dropLeading
  rw [List.takeWhile_append_dropWhile]

theorem pieces_trim (s : List Char) : pieces (trim s) = pieces s := by
  obtain ⟨before, after, hbefore, hafter, hs⟩ := exists_around_trim s
  conv_rhs => rw [hs]
  rw [pieces_append_blank hafter, pieces_blank_append hbefore]

theorem pieces_joined {ps : List (List Char)} (h : ∀ p ∈ ps, ',' ∉ p) (hne : ps ≠ []) :
    pieces ([','].intercalate ps) = ps.map trim := by
  rw [pieces, List.splitOn_intercalate ',' h hne]

theorem notMem_joined {mark : Char} (hmark : mark ≠ ',') {ps : List (List Char)} (h : ∀ p ∈ ps, mark ∉ p) :
    mark ∉ [','].intercalate ps := by
  induction ps with
  | nil => simp [List.intercalate_nil]
  | cons p rest ih =>
    obtain ⟨hp, hrest⟩ := List.forall_mem_cons.mp h
    by_cases hnone : rest = []
    · rw [hnone, List.intercalate_singleton]
      exact hp
    · rw [List.intercalate_cons_of_ne_nil hnone]
      simp [hp, hmark, ih hrest]

end Text

/-! ## §2. Clauses. -/

namespace Script

open Text (allBlank isBlank words trim trimStart trimEnd IsWord IsInked EndsWord)

/-- Blanks, or nothing. -/
structure Blanks where
  chars : List Char
  blank : allBlank chars = true

/-- Blanks between two words. -/
structure Gap extends Blanks where
  nonempty : chars ≠ []

/-- A name: a word without the marks that clauses are made of. -/
structure Name where
  chars : List Char
  word : IsWord chars
  plain : ∀ mark ∈ [',', '{', '}', '*'], mark ∉ chars

/-- Something in a clause, with the blanks around it. -/
structure Spaced (α : Type) where
  before : Blanks
  inner : α
  after : Blanks

/-- `as` with another name. -/
structure Renaming where
  before : Gap
  after : Gap
  name : Name

/-- The word that says that only a type is imported. -/
def typeWord : List Char := ['t', 'y', 'p', 'e']

/-- The word that stands between the two names of one thing. -/
def asWord : List Char := ['a', 's']

theorem isWord_typeWord : IsWord typeWord := ⟨by decide, by simp [typeWord, isBlank]⟩

theorem isWord_asWord : IsWord asWord := ⟨by decide, by simp [asWord, isBlank]⟩

/-- The name of something in the module, perhaps behind `type`, and perhaps with another name for it. -/
structure Specifier where
  modifier : Option Gap
  name : Name
  newName : Option Renaming

/-- A list of specifiers, perhaps with a comma behind the last one and blanks behind that. A list without
specifiers has these blanks alone. -/
structure NamedList where
  specifiers : List (Spaced Specifier)
  trailing : Option Blanks

/-- The clause of an import. -/
structure Clause where
  binding : Option (Spaced Name)
  /-- The name behind the star. -/
  module : Option (Spaced Renaming)
  list : Option (Spaced NamedList)

def Spaced.written {α : Type} (write : α → List Char) (x : Spaced α) : List Char :=
  x.before.chars ++ write x.inner ++ x.after.chars

def Renaming.written (r : Renaming) : List Char :=
  r.before.chars ++ asWord ++ r.after.chars ++ r.name.chars

def Specifier.written (s : Specifier) : List Char :=
  (match s.modifier with
    | some gap => typeWord ++ gap.chars
    | none => [])
  ++ s.name.chars
  ++ (match s.newName with
    | some r => r.written
    | none => [])

def NamedList.written (l : NamedList) : List Char :=
  [','].intercalate (l.specifiers.map (Spaced.written Specifier.written) ++ (l.trailing.map Blanks.chars).toList)

/-- What stands in front of the list of specifiers, between commas. -/
def Clause.bindings (c : Clause) : List (List Char) :=
  (c.binding.map (Spaced.written Name.chars)).toList
    ++ (c.module.map (Spaced.written fun r => '*' :: r.written)).toList

/-- The characters of a clause. -/
def Clause.text (c : Clause) : List Char :=
  match c.list with
  | some l => [','].intercalate (c.bindings ++ [l.before.chars]) ++ '{' :: (l.inner.written ++ '}' :: l.after.chars)
  | none => [','].intercalate c.bindings

def Clause.specifiers (c : Clause) : List Specifier :=
  match c.list with
  | some l => l.inner.specifiers.map (·.inner)
  | none => []

/-- The default binding, under the name that it has in a module. -/
def Clause.defaults (c : Clause) : List String := (c.binding.map fun _ => "default").toList

/-- The names that a clause imports, as they are called in the module. -/
def Clause.names (c : Clause) : List String :=
  c.defaults ++ c.specifiers.map fun s => String.ofList s.name.chars

/-! ## §3. One specifier. -/

/-- **The name found in an item**: its first word, or the one after a `type` that has a space behind it. -/
theorem itemName_spaced {before word tail after : List Char} (hbefore : allBlank before = true)
    (hafter : allBlank after = true) (hword : IsWord word) (htail : EndsWord tail)
    (hinked : IsInked (word ++ tail)) :
    itemName (before ++ (word ++ tail) ++ after)
      = if word = typeWord ∧ tail.head? = some ' ' then (words tail).head? else some word := by
  have hitem : itemName (before ++ (word ++ tail) ++ after)
      = (words ((Text.after? "type ".toList (word ++ tail)).getD (word ++ tail))).head? := by
    unfold itemName
    simp only
    rw [Text.trim_spaced hinked hbefore hafter, Text.words_trim]
  rw [hitem]
  by_cases hmodifier : word = typeWord ∧ tail.head? = some ' '
  · -- behind the space there are the words that stand behind `type`
    obtain ⟨rfl, hspace⟩ := hmodifier
    obtain ⟨rest, rfl⟩ := List.head?_eq_some_iff.mp hspace
    have hafterType : Text.after? "type ".toList (typeWord ++ ' ' :: rest) = some rest :=
      List.isPrefixOf?_eq_some_iff_append_eq.mpr rfl
    have hblank : allBlank [' '] = true := by decide
    have hwords : words (' ' :: rest) = words rest := Text.words_blank_append hblank rest
    rw [hafterType, Option.getD_some, if_pos ⟨rfl, List.head?_cons⟩, hwords]
  · -- an item that begins with `type` and a space has `type` for its first word
    have hother : Text.after? "type ".toList (word ++ tail) = none := by
      apply Option.eq_none_iff_forall_ne_some.mpr
      intro rest hrest
      have happend : "type ".toList ++ rest = word ++ tail := List.isPrefixOf?_eq_some_iff_append_eq.mp hrest
      have hsplit : typeWord ++ ' ' :: rest = word ++ tail := happend
      have hspace : EndsWord (' ' :: rest) := by
        intro c hc
        obtain rfl := Option.some.inj hc
        decide
      have hfirst := Text.head?_words isWord_typeWord hspace
      rw [hsplit, Text.head?_words hword htail] at hfirst
      obtain rfl := Option.some.inj hfirst
      have hrest := List.append_cancel_left hsplit
      exact hmodifier ⟨rfl, by rw [← hrest, List.head?_cons]⟩
    rw [hother, Option.getD_none, if_neg hmodifier, Text.head?_words hword htail]

theorem Gap.endsWord (g : Gap) (rest : List Char) : EndsWord (g.chars ++ rest) := by
  intro c hc
  rw [List.head?_append_of_ne_nil _ g.nonempty] at hc
  exact List.all_eq_true.mp g.blank c (List.mem_of_mem_head? hc)

theorem Renaming.endsWord (r : Renaming) : EndsWord r.written := by
  unfold written
  rw [List.append_assoc, List.append_assoc]
  exact r.before.endsWord _

/-- The name that is found in a specifier. -/
def Specifier.found (s : Specifier) : List Char :=
  match s.modifier, s.newName with
  | some gap, _ => if gap.chars.head? = some ' ' then s.name.chars else typeWord
  | none, some r =>
    if s.name.chars = typeWord ∧ r.before.chars.head? = some ' ' then asWord else s.name.chars
  | none, none => s.name.chars

/-- A specifier whose name is found. Behind the `type` in front there is a space, unless the name is the same
word; something that is called `type` itself has no other name, or no space between the two. -/
def Specifier.IsPlain (s : Specifier) : Prop :=
  match s.modifier, s.newName with
  | some gap, _ => gap.chars.head? = some ' ' ∨ s.name.chars = typeWord
  | none, some r => s.name.chars ≠ typeWord ∨ r.before.chars.head? ≠ some ' '
  | none, none => True

theorem Specifier.found_eq_iff (s : Specifier) : s.found = s.name.chars ↔ s.IsPlain := by
  obtain ⟨modifier, name, newName⟩ := s
  unfold found IsPlain
  cases modifier with
  | some gap =>
    by_cases hspace : gap.chars.head? = some ' '
    · simp [hspace]
    · simp [hspace, eq_comm]
  | none =>
    cases newName with
    | none => simp
    | some r =>
      by_cases hname : name.chars = typeWord
      · by_cases hspace : r.before.chars.head? = some ' ' <;> simp [hname, hspace, typeWord, asWord]
      · simp [hname]

/-- What is behind the name ends the word. -/
theorem Specifier.endsWord_newName (newName : Option Renaming) :
    EndsWord (match newName with
      | some r => r.written
      | none => []) := by
  cases newName with
  | some r => exact r.endsWord
  | none => intro c hc; exact absurd hc (by simp)

/-- **One specifier** gives one name. -/
theorem itemName_written (x : Spaced Specifier) :
    itemName (x.written Specifier.written) = some x.inner.found := by
  obtain ⟨before, ⟨modifier, name, newName⟩, after⟩ := x
  cases modifier with
  | some gap =>
    -- the first word is `type`, and the name is the first word behind it
    let behind := match newName with
      | some r => r.written
      | none => []
    have hbehind : EndsWord behind := Specifier.endsWord_newName newName
    have hinked : IsInked (typeWord ++ (gap.chars ++ (name.chars ++ behind))) := by
      cases newName with
      | some r =>
        have h := isWord_typeWord.inked_append r.name.word
          (gap.chars ++ name.chars ++ r.before.chars ++ asWord ++ r.after.chars)
        simpa [behind, Renaming.written] using h
      | none =>
        have h := isWord_typeWord.inked_append name.word gap.chars
        simpa [behind] using h
    have hitem := itemName_spaced before.blank after.blank isWord_typeWord (gap.endsWord _) hinked
    rw [List.head?_append_of_ne_nil _ gap.nonempty, Text.words_blank_append gap.blank,
      Text.head?_words name.word hbehind] at hitem
    have hwritten : Spaced.written Specifier.written ⟨before, ⟨some gap, name, newName⟩, after⟩
        = before.chars ++ (typeWord ++ (gap.chars ++ (name.chars ++ behind))) ++ after.chars := by
      simp [Spaced.written, Specifier.written, behind]
    rw [hwritten, hitem]
    unfold Specifier.found
    simp only [true_and]
    split <;> rfl
  | none =>
    cases newName with
    | none =>
      have hinked : IsInked (name.chars ++ []) := by
        rw [List.append_nil]
        exact name.word.inked
      have hitem := itemName_spaced before.blank after.blank name.word (Specifier.endsWord_newName none) hinked
      rw [List.append_nil, if_neg (by simp)] at hitem
      have hwritten : Spaced.written Specifier.written ⟨before, ⟨none, name, none⟩, after⟩
          = before.chars ++ name.chars ++ after.chars := by
        simp [Spaced.written, Specifier.written]
      rw [hwritten, hitem]
      rfl
    | some r =>
      -- if the name is `type` and has a space behind it, the next word is `as`
      have hinked : IsInked (name.chars ++ r.written) := by
        have h := name.word.inked_append r.name.word (r.before.chars ++ asWord ++ r.after.chars)
        simpa [Renaming.written] using h
      have hnext : (words r.written).head? = some asWord := by
        have hassoc : r.written = r.before.chars ++ (asWord ++ (r.after.chars ++ r.name.chars)) := by
          simp [Renaming.written]
        rw [hassoc, Text.words_blank_append r.before.blank, Text.head?_words isWord_asWord (r.after.endsWord _)]
      have hfirst : r.written.head? = r.before.chars.head? := by
        unfold Renaming.written
        rw [List.append_assoc, List.append_assoc, List.head?_append_of_ne_nil _ r.before.nonempty]
      have hitem := itemName_spaced before.blank after.blank name.word r.endsWord hinked
      rw [hnext, hfirst] at hitem
      have hwritten : Spaced.written Specifier.written ⟨before, ⟨none, name, some r⟩, after⟩
          = before.chars ++ (name.chars ++ r.written) ++ after.chars := by
        simp [Spaced.written, Specifier.written]
      rw [hwritten, hitem]
      unfold Specifier.found
      simp only
      split <;> rfl

/-! ## §4. Whole clauses. -/

/-- The default bindings in front of the braces: the pieces that do not begin with a star. -/
def defaultsAmong (pieces : List (List Char)) : List String :=
  (pieces.filter fun part => !part.isEmpty && part.head? != some '*').map fun _ => "default"

theorem cut?_eq_none {mark : Char} {s : List Char} (h : mark ∉ s) : Text.cut? [mark] s = none := by
  induction s with
  | nil => rfl
  | cons c s ih =>
    obtain ⟨hc, hs⟩ := not_or.mp (mt List.mem_cons.mpr h)
    have hother : Text.after? [mark] (c :: s) = none := by simp [Text.after?, List.isPrefixOf?, hc]
    rw [Text.cut?, hother]
    simp only
    rw [ih hs, Option.map_none]

/-- A text is cut at the first place where a mark stands, -/
theorem cut?_append {mark : Char} {before : List Char} (h : mark ∉ before) (after : List Char) :
    Text.cut? [mark] (before ++ mark :: after) = some (before, after) := by
  induction before with
  | nil => simp [Text.cut?, Text.after?, List.isPrefixOf?]
  | cons c before ih =>
    obtain ⟨hc, hbefore⟩ := not_or.mp (mt List.mem_cons.mpr h)
    have hother : Text.after? [mark] (c :: (before ++ mark :: after)) = none := by
      simp [Text.after?, List.isPrefixOf?, hc]
    rw [List.cons_append, Text.cut?, hother]
    simp only
    rw [ih hbefore, Option.map_some]

/-- or at the last one. -/
theorem cutLast?_append {mark : Char} {after : List Char} (h : mark ∉ after) (before : List Char) :
    Text.cutLast? [mark] (before ++ mark :: after) = some (before, after) := by
  have hreverse : (before ++ mark :: after).reverse = after.reverse ++ mark :: before.reverse := by simp
  unfold Text.cutLast?
  rw [hreverse, List.reverse_singleton, cut?_append (by simpa using h)]
  simp

/-- A clause without braces has bindings only. -/
theorem clauseNames_bare {s : List Char} (h : '{' ∉ s) : clauseNames s = defaultsAmong (Text.pieces s) := by
  have htrim : '{' ∉ trim s := by
    obtain ⟨before, after, -, -, hs⟩ := Text.exists_around_trim s
    intro hmem
    rw [hs] at h
    exact h (by simp [hmem])
  have hsplit : splitClause (trim s) = (trim s, none) := by
    unfold splitClause
    rw [cut?_eq_none htrim]
  unfold clauseNames
  rw [hsplit, ← Text.pieces_trim s]
  exact List.append_nil _

/-- A clause with braces has bindings in front of the first one, and items up to the last one. -/
theorem clauseNames_braced {head after : List Char} (hhead : '{' ∉ head) (hafter : '}' ∉ after)
    (inside : List Char) :
    clauseNames (head ++ '{' :: (inside ++ '}' :: after))
      = defaultsAmong (Text.pieces head) ++ ((inside.splitOn ',').filterMap itemName).map String.ofList := by
  have htrim : trim (head ++ '{' :: (inside ++ '}' :: after))
      = trimStart head ++ '{' :: (inside ++ '}' :: trimEnd after) := by
    rw [Text.trim_append_ink (by simp [isBlank]), Text.trimEnd_append_ink (by simp [isBlank])]
  have hstart : '{' ∉ trimStart head := fun hmem => hhead ((List.dropWhile_suffix _).mem hmem)
  have hend : '}' ∉ trimEnd after := by
    intro hmem
    have hreversed := (List.dropWhile_suffix _).mem (List.mem_reverse.mp hmem)
    exact hafter (List.mem_reverse.mp hreversed)
  have hsplit : splitClause (trimStart head ++ '{' :: (inside ++ '}' :: trimEnd after))
      = (trimStart head, some inside) := by
    unfold splitClause
    rw [cut?_append hstart]
    simp only
    rw [cutLast?_append hend]
  unfold clauseNames
  rw [htrim, hsplit, ← Text.pieces_trimStart head]
  rfl

theorem Blanks.notMem (b : Blanks) {mark : Char} (h : isBlank mark = false) : mark ∉ b.chars := by
  intro hmem
  rw [List.all_eq_true.mp b.blank mark hmem] at h
  exact absurd h (by decide)

/-- The marks that end a piece of a clause. -/
def pieceMarks : List Char := [',', '{', '}']

theorem isBlank_pieceMark {mark : Char} (h : mark ∈ pieceMarks) : isBlank mark = false := by
  simp only [pieceMarks, List.mem_cons, List.not_mem_nil, or_false] at h
  rcases h with rfl | rfl | rfl <;> simp [isBlank]

theorem Name.pieceMark_notMem (n : Name) {mark : Char} (h : mark ∈ pieceMarks) : mark ∉ n.chars := by
  apply n.plain
  simp only [pieceMarks, List.mem_cons, List.not_mem_nil, or_false] at h ⊢
  tauto

theorem Blanks.pieceMark_notMem (b : Blanks) {mark : Char} (h : mark ∈ pieceMarks) : mark ∉ b.chars :=
  b.notMem (isBlank_pieceMark h)

theorem Renaming.pieceMark_notMem (r : Renaming) {mark : Char} (h : mark ∈ pieceMarks) : mark ∉ r.written := by
  have has : mark ∉ asWord := by
    simp only [pieceMarks, List.mem_cons, List.not_mem_nil, or_false] at h
    rcases h with rfl | rfl | rfl <;> decide
  simp [written, has, r.before.pieceMark_notMem h, r.after.pieceMark_notMem h, r.name.pieceMark_notMem h]

theorem Specifier.pieceMark_notMem (s : Specifier) {mark : Char} (h : mark ∈ pieceMarks) : mark ∉ s.written := by
  have htype : mark ∉ typeWord := by
    simp only [pieceMarks, List.mem_cons, List.not_mem_nil, or_false] at h
    rcases h with rfl | rfl | rfl <;> decide
  obtain ⟨modifier, name, newName⟩ := s
  cases modifier <;> cases newName <;>
    simp [written, htype, name.pieceMark_notMem h, Blanks.pieceMark_notMem _ h, Renaming.pieceMark_notMem _ h]

theorem Spaced.pieceMark_notMem {α : Type} {write : α → List Char} (x : Spaced α) {mark : Char}
    (h : mark ∈ pieceMarks) (hinner : mark ∉ write x.inner) : mark ∉ x.written write := by
  simp [written, hinner, x.before.pieceMark_notMem h, x.after.pieceMark_notMem h]

theorem Clause.pieceMark_notMem_bindings (c : Clause) {mark : Char} (h : mark ∈ pieceMarks) :
    ∀ p ∈ c.bindings, mark ∉ p := by
  have hstar : mark ≠ '*' := by
    rintro rfl
    exact absurd h (by decide)
  obtain ⟨binding, module, list⟩ := c
  intro p hp
  rcases List.mem_append.mp hp with hp | hp
  · obtain ⟨b, -, rfl⟩ := Option.map_eq_some_iff.mp (Option.mem_toList.mp hp)
    exact b.pieceMark_notMem h (b.inner.pieceMark_notMem h)
  · obtain ⟨m, -, rfl⟩ := Option.map_eq_some_iff.mp (Option.mem_toList.mp hp)
    exact m.pieceMark_notMem h (by simp [hstar, m.inner.pieceMark_notMem h])

/-- A default binding counts, and the name of the module does not. -/
theorem defaultsAmong_bindings (c : Clause) : defaultsAmong (c.bindings.map trim) = c.defaults := by
  have hbinding : ∀ b : Spaced Name, trim (b.written Name.chars) = b.inner.chars := fun b =>
    Text.trim_spaced b.inner.word.inked b.before.blank b.after.blank
  have hcounts : ∀ n : Name, defaultsAmong [n.chars] = ["default"] := by
    intro n
    obtain ⟨c, rest, hchars⟩ := List.exists_cons_of_ne_nil n.word.nonempty
    have hstar : c ≠ '*' := by
      intro hc
      exact n.plain '*' (by decide) (by simp [hchars, hc])
    simp [defaultsAmong, hchars, hstar]
  have hmodule : ∀ m : Spaced Renaming,
      defaultsAmong [trim (m.written fun r => '*' :: r.written)] = [] := by
    intro m
    have hstar : IsWord ['*'] := ⟨by decide, by simp [isBlank]⟩
    have hinked : IsInked ('*' :: m.inner.written) := hstar.inked_append m.inner.name.word _
    rw [Spaced.written, Text.trim_spaced hinked m.before.blank m.after.blank]
    rfl
  have happend : ∀ ps qs, defaultsAmong (ps ++ qs) = defaultsAmong ps ++ defaultsAmong qs := by
    intro ps qs
    simp [defaultsAmong]
  obtain ⟨binding, module, list⟩ := c
  cases binding with
  | none =>
    cases module with
    | none => rfl
    | some m => exact hmodule m
  | some b =>
    cases module with
    | none => exact (congrArg (fun p => defaultsAmong [p]) (hbinding b)).trans (hcounts _)
    | some m =>
      show defaultsAmong ([trim (b.written Name.chars)] ++ [trim (m.written _)]) = _
      rw [happend, hmodule m, hbinding b, hcounts]
      rfl

theorem itemName_blank (b : Blanks) : itemName b.chars = none := by
  unfold itemName
  rw [Text.trim_allBlank b.blank]
  rfl

/-- **The items of a list** are its specifiers; what is behind the last comma is none. -/
theorem items_written (l : NamedList) :
    (l.written.splitOn ',').filterMap itemName = l.specifiers.map fun x => x.inner.found := by
  have hcomma : ',' ∈ pieceMarks := by decide
  have hitems : (l.specifiers.map (Spaced.written Specifier.written)).filterMap itemName
      = l.specifiers.map fun x => x.inner.found := by
    rw [List.filterMap_map, ← List.filterMap_eq_map]
    exact List.filterMap_congr fun x _ => itemName_written x
  have hnoComma : ∀ p ∈ l.specifiers.map (Spaced.written Specifier.written)
      ++ (l.trailing.map Blanks.chars).toList, ',' ∉ p := by
    intro p hp
    rcases List.mem_append.mp hp with hp | hp
    · obtain ⟨x, -, rfl⟩ := List.mem_map.mp hp
      exact x.pieceMark_notMem hcomma (x.inner.pieceMark_notMem hcomma)
    · obtain ⟨b, -, rfl⟩ := Option.map_eq_some_iff.mp (Option.mem_toList.mp hp)
      exact b.pieceMark_notMem hcomma
  have htrailing : (l.trailing.map Blanks.chars).toList.filterMap itemName = [] := by
    cases l.trailing with
    | none => rfl
    | some b => simp [itemName_blank b]
  unfold NamedList.written
  by_cases hnone : l.specifiers.map (Spaced.written Specifier.written)
      ++ (l.trailing.map Blanks.chars).toList = []
  · -- between braces without anything there is one empty item
    rw [hnone, ← hitems, (List.append_eq_nil_iff.mp hnone).1]
    rfl
  · rw [List.splitOn_intercalate ',' hnoComma hnone, List.filterMap_append, hitems, htrailing, List.append_nil]

/-- **The names of a clause.** There is one `default` for a default binding, and one name for each specifier in
their order. They are the imported names if and only if every specifier is plain; of one that is not, `type`
or `as` is taken for the name. -/
theorem clauseNames_text (c : Clause) :
    clauseNames c.text = c.defaults ++ c.specifiers.map (fun s => String.ofList s.found)
    ∧ (clauseNames c.text = c.names ↔ ∀ s ∈ c.specifiers, s.IsPlain) := by
  have hnames : clauseNames c.text = c.defaults ++ c.specifiers.map (fun s => String.ofList s.found) := by
    have hbindings := defaultsAmong_bindings c
    have hcomma : ∀ p ∈ c.bindings, ',' ∉ p := c.pieceMark_notMem_bindings (by decide)
    have hopen : ∀ p ∈ c.bindings, '{' ∉ p := c.pieceMark_notMem_bindings (by decide)
    cases hlist : c.list with
    | none =>
      have htext : c.text = [','].intercalate c.bindings := by simp [Clause.text, hlist]
      have hspecifiers : c.specifiers = [] := by simp [Clause.specifiers, hlist]
      rw [htext, hspecifiers, clauseNames_bare (Text.notMem_joined (by decide) hopen), ← hbindings]
      by_cases hnone : c.bindings = []
      · rw [hnone]
        rfl
      · rw [Text.pieces_joined hcomma hnone]
        exact (List.append_nil _).symm
    | some l =>
      have htext : c.text = [','].intercalate (c.bindings ++ [l.before.chars])
          ++ '{' :: (l.inner.written ++ '}' :: l.after.chars) := by
        simp [Clause.text, hlist]
      have hspecifiers : c.specifiers = l.inner.specifiers.map (·.inner) := by simp [Clause.specifiers, hlist]
      -- the blanks in front of the brace are one more piece, which is no binding
      have hfront : ∀ mark ∈ pieceMarks, (∀ p ∈ c.bindings, mark ∉ p) →
          ∀ p ∈ c.bindings ++ [l.before.chars], mark ∉ p := by
        intro mark hmark hthere p hp
        rcases List.mem_append.mp hp with hp | hp
        · exact hthere p hp
        · rw [List.mem_singleton.mp hp]
          exact l.before.pieceMark_notMem hmark
      have hhead := Text.notMem_joined (by decide) (hfront '{' (by decide) hopen)
      have hblank : defaultsAmong ((c.bindings ++ [l.before.chars]).map trim) = c.defaults := by
        rw [List.map_append, List.map_singleton, Text.trim_allBlank l.before.blank, ← hbindings]
        simp [defaultsAmong]
      rw [htext, hspecifiers, clauseNames_braced hhead (l.after.pieceMark_notMem (by decide)),
        Text.pieces_joined (hfront ',' (by decide) hcomma) (by simp), hblank, items_written, List.map_map,
        List.map_map]
      rfl
  refine ⟨hnames, ?_⟩
  rw [hnames, Clause.names, List.append_cancel_left_eq, List.map_inj_left]
  simp only [String.ofList_inj, Specifier.found_eq_iff]

def Gap.space : Gap := ⟨⟨[' '], by decide⟩, by decide⟩

def Gap.tab : Gap := ⟨⟨['\t'], by decide⟩, by decide⟩

/-- The clause with one specifier, a space on either side of it, and no bindings. -/
def Specifier.alone (s : Specifier) : Clause :=
  ⟨none, none, some ⟨⟨[], by decide⟩, ⟨[⟨Gap.space.toBlanks, s, Gap.space.toBlanks⟩], none⟩, ⟨[], by decide⟩⟩⟩

/-- The specifier `type Foo`, with a tab between the words. -/
def tabbedType : Specifier :=
  ⟨some .tab, ⟨['F', 'o', 'o'], ⟨by simp, by simp [isBlank]⟩, by simp⟩, none⟩

/-- The specifier `type as T`, of something that is called `type`. -/
def renamedType : Specifier :=
  ⟨none, ⟨typeWord, isWord_typeWord, by simp [typeWord]⟩,
    some ⟨.space, .space, ⟨['T'], ⟨by simp, by simp [isBlank]⟩, by simp⟩⟩⟩

/-- Where `type` has a tab behind it, it is taken for the name, and where something called `type` gets another
name, `as` is. -/
theorem type_taken_for_name :
    (tabbedType.alone.text = "\x7b type\tFoo \x7d".toList ∧ tabbedType.alone.names = ["Foo"]
      ∧ clauseNames tabbedType.alone.text = ["type"])
    ∧ renamedType.alone.text = "\x7b type as T \x7d".toList ∧ renamedType.alone.names = ["type"]
      ∧ clauseNames renamedType.alone.text = ["as"] := by
  refine ⟨⟨by decide, by decide, ?_⟩, by decide, by decide, ?_⟩
  all_goals decide +kernel

end Script

end CodeIndex
