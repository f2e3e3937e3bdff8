import Mathlib
import CodeIndex.Proofs.Source.Placement

/-!
# Comments over several lines

A comment between slashes and stars may begin anywhere on a line and go on over the lines after it; in some
languages comments nest. What stands in a comment declares nothing. Whether a line stands in one is told by how
the lines before it begin, once their leading blanks are gone, and by whether they hold the mark that closes
comments. So a comment is noticed at a line of it that begins with the opening mark, if neither that line nor
one after it holds a closing mark. Not noticed is a comment behind code that goes on over its line, and one
that begins a line with a closing mark on it, be it that of another comment.

Literals do not matter here as long as none of them holds a mark of a comment, however it is told which
characters belong to them.

Main result: `commented_lines_declare_iff`.
-/

namespace CodeIndex

/-! ## §1. Comments and literals. -/

/-- How many comments are open at the end of a line, given how many are at its start. Where comments do not nest,
there is one at most. -/
def depthAfter (nests : Bool) (depth : Nat) : List Char → Nat
  | a :: b :: rest =>
    if depth = 0 ∧ a = '/' ∧ b = '/' then 0
    else if (depth = 0 ∨ nests = true) ∧ a = '/' ∧ b = '*' then depthAfter nests (depth + 1) rest
    else if depth ≠ 0 ∧ a = '*' ∧ b = '/' then depthAfter nests (depth - 1) rest
    else depthAfter nests depth (b :: rest)
  | _ => depth

/-- How many comments are open behind some lines. -/
def depthOver (nests : Bool) (lines : List (List Char)) : Nat := lines.foldl (depthAfter nests) 0

/-- Whether no comment is open at some place of a line. -/
def surfaces (nests : Bool) (depth : Nat) (line : List Char) : Bool :=
  (List.range (line.length + 1)).any fun n => depthAfter nests depth (line.take n) == 0

/-- Whether a comment stays open all over some lines. -/
def staysOpen (nests : Bool) : Nat → List (List Char) → Bool
  | _, [] => true
  | depth, l :: rest => !surfaces nests depth l && staysOpen nests (depthAfter nests depth l) rest

/-- A comment is opened on the first line behind some others, and goes on over the lines between and over the whole
line after these. -/
structure CommentCovers (nests : Bool) (before : List (List Char)) (first : List Char)
    (between : List (List Char)) (line : List Char) : Prop where
  opened : 0 < depthAfter nests (depthOver nests before) first
  /-- What was open before is closed on the line that opens this one. -/
  begun : 0 < depthOver nests before → surfaces nests (depthOver nests before) first = true
  unclosed : staysOpen nests (depthAfter nests (depthOver nests before) first) (between ++ [line]) = true

/-- Whether the mark that closes a comment stands on a line. -/
def closes (line : List Char) : Bool := Text.has "*/".toList line

/-- Whether a line begins with the mark that opens a comment, after its blanks. -/
def begins (line : List Char) : Bool := Text.startsWith "/*" (Text.trimStart line)

/-- A character of a source, and whether it belongs to the literal of a text or of a character. -/
structure Marked where
  char : Char
  literal : Bool
  deriving DecidableEq, Repr

/-- What counts of a character in the look for comments: of a literal, no more than that it is one. -/
def Marked.shown (m : Marked) : Char := if m.literal then '"' else m.char

/-- The characters of a line. -/
def Marked.text (line : List Marked) : List Char := line.map Marked.char

/-- What counts of the characters of a line. -/
def Marked.visible (line : List Marked) : List Char := line.map Marked.shown

/-- Two characters that open or close a comment. -/
def isDelimiter (a b : Char) : Bool := (a == '/' && (b == '/' || b == '*')) || (a == '*' && b == '/')

/-- No literal holds a mark of a comment. A literal begins and ends with quotes, so such a mark does not reach
into one either. -/
def LiteralsApart (line : List Marked) : Prop :=
  line.IsChain fun a b => isDelimiter a.char b.char = true → a.literal = false ∧ b.literal = false

instance : DecidablePred LiteralsApart := fun line =>
  inferInstanceAs (Decidable (line.IsChain
    fun a b => isDelimiter a.char b.char = true → a.literal = false ∧ b.literal = false))

/-! ## §2. Reading a line. -/

variable {line : List Char} {nests : Bool} {depth : Nat}

theorem has_iff {piece s : List Char} : Text.has piece s = true ↔ piece <:+: s := by
  unfold Text.has
  induction s with
  | nil =>
    rw [Text.cut?, Option.isSome_map, Text.after?, List.infix_nil]
    cases piece <;> simp
  | cons c s ih =>
    rw [Text.cut?, List.infix_cons_iff]
    cases hafter : Text.after? piece (c :: s) with
    | some rest =>
      have hstarts : piece <+: c :: s := ⟨rest, List.isPrefixOf?_eq_some_iff_append_eq.mp hafter⟩
      simp [hstarts]
    | none =>
      have hstarts : ¬ piece <+: c :: s := by
        rintro ⟨rest, hrest⟩
        exact absurd (hafter.symm.trans (List.isPrefixOf?_eq_some_iff_append_eq.mpr hrest)) (by simp)
      simp [hstarts, ih]

theorem closes_iff : closes line = true ↔ ['*', '/'] <:+: line := has_iff

/-- What is part of a line that closes no comment closes none. -/
theorem not_closes_of_part {part : List Char} (hpart : part <:+: line) (h : closes line = false) :
    closes part = false := by
  rw [Bool.eq_false_iff, ne_eq, closes_iff] at h ⊢
  exact fun hclosed => h (hclosed.trans hpart)

theorem closes_cons_cons (a b : Char) (rest : List Char) :
    closes (a :: b :: rest) = false ↔ ¬ (a = '*' ∧ b = '/') ∧ closes (b :: rest) = false := by
  have hstarts : ['*', '/'] <+: a :: b :: rest ↔ a = '*' ∧ b = '/' := by
    simp [List.cons_prefix_cons, eq_comm]
  rw [Bool.eq_false_iff, Bool.eq_false_iff, ne_eq, ne_eq, closes_iff, closes_iff,
    List.infix_cons_iff, hstarts, not_or]

/-- A comment stays open on a line that does not close any. -/
theorem depthAfter_of_unclosed (hdepth : 0 < depth) (h : closes line = false) :
    0 < depthAfter nests depth line := by
  induction line using List.twoStepInduction generalizing depth with
  | nil => exact hdepth
  | singleton a => exact hdepth
  | cons_cons a b rest ihrest ih =>
    obtain ⟨hmark, htail⟩ := (closes_cons_cons a b rest).mp h
    have hrest : closes rest = false := not_closes_of_part (List.suffix_cons b rest).isInfix htail
    rw [depthAfter, if_neg fun hline => hdepth.ne' hline.1]
    split
    · exact ihrest (Nat.succ_pos depth) hrest
    · rw [if_neg fun hclosed => hmark hclosed.2]
      exact ih b hdepth htail

/-- What comes to a place outside comments from inside them holds a closing mark. -/
theorem closes_of_surfaces (hdepth : 0 < depth) (h : surfaces nests depth line = true) : closes line = true := by
  obtain ⟨n, -, hzero⟩ := List.any_eq_true.mp h
  by_contra hcloses
  have hopen : 0 < depthAfter nests depth (line.take n) := depthAfter_of_unclosed hdepth
    (not_closes_of_part (List.take_prefix n line).isInfix (Bool.eq_false_iff.mpr hcloses))
  exact hopen.ne' (beq_iff_eq.mp hzero)

theorem isBlank_ne {c d : Char} (hc : Text.isBlank c = true) (hd : Text.isBlank d = false) : c ≠ d := by
  rintro rfl
  exact absurd (hc.symm.trans hd) (by simp)

/-- Leading blanks do not matter. -/
theorem depthAfter_trimStart (nests : Bool) (depth : Nat) (line : List Char) :
    depthAfter nests depth (Text.trimStart line) = depthAfter nests depth line := by
  unfold Text.trimStart Text.dropLeading
  induction line with
  | nil => rfl
  | cons c line ih =>
    by_cases hc : Text.isBlank c = true
    · have hslash : c ≠ '/' := isBlank_ne hc (by decide)
      have hstar : c ≠ '*' := isBlank_ne hc (by decide)
      rw [List.dropWhile_cons_of_pos hc, ih]
      cases line with
      | nil => rfl
      | cons d rest => rw [depthAfter]; simp [hslash, hstar]
    · rw [List.dropWhile_cons_of_neg hc]

theorem closes_trimStart (line : List Char) : closes (Text.trimStart line) = closes line := by
  unfold Text.trimStart Text.dropLeading
  induction line with
  | nil => rfl
  | cons c line ih =>
    by_cases hc : Text.isBlank c = true
    · have hstar : c ≠ '*' := isBlank_ne hc (by decide)
      rw [List.dropWhile_cons_of_pos hc, ih]
      -- a blank is no part of the closing mark
      rw [Bool.eq_iff_iff, closes_iff, closes_iff, List.infix_cons_iff]
      simp [List.cons_prefix_cons, Ne.symm hstar]
    · rw [List.dropWhile_cons_of_neg hc]

/-- A line that begins with the opening mark and closes no comment ends in one. -/
theorem depthAfter_of_begins (hbegins : begins line = true) (hcloses : closes line = false) :
    0 < depthAfter nests depth line := by
  cases depth with
  | succ depth => exact depthAfter_of_unclosed (Nat.succ_pos depth) hcloses
  | zero =>
    obtain ⟨rest, hrest⟩ : ['/', '*'] <+: Text.trimStart line := List.isPrefixOf_iff_prefix.mp hbegins
    rw [← closes_trimStart, ← hrest] at hcloses
    rw [← depthAfter_trimStart, ← hrest]
    show 0 < depthAfter nests 0 ('/' :: '*' :: rest)
    rw [depthAfter, if_neg (by simp), if_pos (by simp)]
    exact depthAfter_of_unclosed Nat.one_pos (not_closes_of_part (List.suffix_append _ rest).isInfix hcloses)

/-! ## §3. Literals do not matter. -/

/-- Two neighbours that do not make a mark in a literal look as they are. -/
theorem shown_pair {a b : Marked} {x y : Char} (hmark : isDelimiter x y = true)
    (h : isDelimiter a.char b.char = true → a.literal = false ∧ b.literal = false) :
    (a.shown = x ∧ b.shown = y) = (a.char = x ∧ b.char = y) := by
  have hx : '"' ≠ x := by
    rintro rfl
    exact absurd hmark (by simp [isDelimiter])
  have hy : '"' ≠ y := by
    rintro rfl
    exact absurd hmark (by simp [isDelimiter])
  by_cases hpair : a.char = x ∧ b.char = y
  · obtain ⟨rfl, rfl⟩ := hpair
    obtain ⟨ha, hb⟩ := h hmark
    simp [Marked.shown, ha, hb]
  · refine propext ⟨fun hshown => absurd hshown ?_, fun hchars => absurd hchars hpair⟩
    unfold Marked.shown
    cases a.literal with
    | true => exact fun hshown => hx hshown.1
    | false =>
      cases b.literal with
      | true => exact fun hshown => hy hshown.2
      | false => exact hpair

theorem depthAfter_visible {line : List Marked} (h : LiteralsApart line) (depth : Nat) :
    depthAfter nests depth (Marked.visible line) = depthAfter nests depth (Marked.text line) := by
  induction line using List.twoStepInduction generalizing depth with
  | nil => rfl
  | singleton a => rfl
  | cons_cons a b rest ihrest ih =>
    obtain ⟨hpair, htail⟩ := List.isChain_cons_cons.mp h
    have hlater : ∀ depth, depthAfter nests depth (b.shown :: Marked.visible rest)
        = depthAfter nests depth (b.char :: Marked.text rest) := ih b htail
    show depthAfter nests depth (a.shown :: b.shown :: Marked.visible rest)
      = depthAfter nests depth (a.char :: b.char :: Marked.text rest)
    rw [depthAfter, depthAfter]
    simp only [shown_pair (x := '/') (y := '/') rfl hpair, shown_pair (x := '/') (y := '*') rfl hpair,
      shown_pair (x := '*') (y := '/') rfl hpair, ihrest htail.tail, hlater]

theorem surfaces_visible {line : List Marked} (h : LiteralsApart line) (depth : Nat) :
    surfaces nests depth (Marked.visible line) = surfaces nests depth (Marked.text line) := by
  have htake : ∀ n, depthAfter nests depth ((Marked.visible line).take n)
      = depthAfter nests depth ((Marked.text line).take n) := by
    intro n
    rw [Marked.visible, Marked.text, ← List.map_take, ← List.map_take]
    exact depthAfter_visible (h.take n) depth
  unfold surfaces
  simp only [htake]
  simp [Marked.visible, Marked.text]

theorem depthOver_visible {lines : List (List Marked)} (h : ∀ l ∈ lines, LiteralsApart l) :
    depthOver nests (lines.map Marked.visible) = depthOver nests (lines.map Marked.text) := by
  unfold depthOver
  generalize 0 = depth
  induction lines generalizing depth with
  | nil => rfl
  | cons l lines ih =>
    obtain ⟨hl, hlines⟩ := List.forall_mem_cons.mp h
    rw [List.map_cons, List.map_cons, List.foldl_cons, List.foldl_cons, depthAfter_visible hl, ih hlines]

/-! ## §4. Lines that are passed over. -/

/-- Whether a line is taken to end in a comment, given whether it is taken to start in one. -/
def Language.heldAfter (language : Language) (inside : Bool) (line : List Char) : Bool :=
  (language.comment inside (Text.trimStart line)).inside

/-- Whether a comment is taken to be open behind some lines. -/
def Language.heldOver (language : Language) (lines : List (List Char)) : Bool :=
  lines.foldl language.heldAfter false

/-- A line that declares a symbol unless a comment is open. -/
def Language.Declares (language : Language) (line : List Char) : Prop :=
  (language.comment false (Text.trimStart line)).skip = false ∧ (declaration? language.rules line).isSome = true

variable {language : Language} {inside : Bool}

/-- A symbol is the one of the first line, or one of the lines after it. -/
theorem mem_symbolsFrom_cons {s : Symbol} {number : Nat} {line : List Char} {rest : List (List Char)} :
    s ∈ language.symbolsFrom number inside (line :: rest) ↔
      ((language.comment inside (Text.trimStart line)).skip = false
        ∧ ∃ d, declaration? language.rules line = some d ∧ s = d.symbol language number line rest)
      ∨ s ∈ language.symbolsFrom (number + 1) (language.heldAfter inside line) rest := by
  rw [Language.symbolsFrom]
  show s ∈ (if _ then language.symbolsFrom (number + 1) (language.heldAfter inside line) rest else _) ↔ _
  cases (language.comment inside (Text.trimStart line)).skip with
  | true => simp
  | false =>
    cases declaration? language.rules line with
    | none => simp [Language.heldAfter]
    | some d => simp [Language.heldAfter]

/-- The line behind some others declares a symbol if it is not passed over and reads as a declaration. -/
theorem exists_symbolFrom_iff (language : Language) (before : List (List Char)) (line : List Char)
    (after : List (List Char)) (number : Nat) (inside : Bool) :
    (∃ s ∈ language.symbolsFrom number inside (before ++ line :: after),
        s.startLine = number + before.length) ↔
      (language.comment (before.foldl language.heldAfter inside) (Text.trimStart line)).skip = false
        ∧ (declaration? language.rules line).isSome = true := by
  induction before generalizing number inside with
  | nil =>
    simp only [List.nil_append, mem_symbolsFrom_cons]
    constructor
    · rintro ⟨s, ⟨hskip, d, hd, -⟩ | hlater, hline⟩
      · exact ⟨hskip, by rw [hd]; rfl⟩
      · -- the symbols of the other lines are further on
        have hfurther := ((symbolsFrom_lines language after _ _).1 s hlater).1
        rw [List.length_nil] at hline
        omega
    · rintro ⟨hskip, hsome⟩
      obtain ⟨d, hd⟩ := Option.isSome_iff_exists.mp hsome
      exact ⟨d.symbol language number line after, .inl ⟨hskip, d, hd, rfl⟩, rfl⟩
  | cons other before ih =>
    have hrest := ih (number + 1) (language.heldAfter inside other)
    rw [Nat.add_right_comm, Nat.add_assoc] at hrest
    refine Iff.trans ?_ hrest
    simp only [List.cons_append, mem_symbolsFrom_cons, List.length_cons]
    constructor
    · rintro ⟨s, ⟨-, d, -, rfl⟩ | hlater, hline⟩
      · exact absurd hline (Nat.ne_of_lt (Nat.lt_add_of_pos_right (Nat.succ_pos _)))
      · exact ⟨s, hlater, hline⟩
    · rintro ⟨s, hlater, hline⟩
      exact ⟨s, .inr hlater, hline⟩

/-- A line is passed over if it is taken to start in a comment. -/
theorem skip_eq (hlanguage : language ≠ .python) (inside : Bool) (trimmed : List Char) :
    (language.comment inside trimmed).skip = (inside || (language.comment false trimmed).skip) := by
  unfold Language.comment
  rw [if_neg hlanguage, if_neg hlanguage]
  unfold blockComment
  cases inside <;> cases Text.startsWith "/*" trimmed <;> rfl

/-- **A line declares a symbol** if it reads as a declaration and no comment is taken to be open before it. -/
theorem exists_symbol_iff (hlanguage : language ≠ .python) {content : List Char} {before after : List (List Char)}
    {line : List Char} (hlines : Text.lines content = before ++ line :: after) :
    (∃ s ∈ language.symbols content, s.startLine = before.length + 1) ↔
      language.Declares line ∧ language.heldOver before = false := by
  have hfrom := exists_symbolFrom_iff language before line after 1 false
  rw [Nat.add_comm 1, ← hlines, skip_eq hlanguage, Bool.or_eq_false_iff, and_assoc] at hfrom
  refine Iff.trans ?_ (hfrom.trans and_comm)
  rw [Language.symbols]
  split
  next hrules =>
    -- without rules no line declares anything
    have hnone : ∀ s, s ∉ language.symbolsFrom 1 false (Text.lines content) := by
      intro s hs
      obtain ⟨-, line, -, d, -, hd, -⟩ := exists_declaration_of_mem_symbolsFrom hs
      rw [List.isEmpty_iff.mp hrules] at hd
      exact absurd hd (by simp [declaration?])
    simp [hnone]
  next => rfl

/-! ## §5. Where a comment is noticed. -/

theorem heldAfter_eq (hlanguage : language ≠ .python) (inside : Bool) (line : List Char) :
    language.heldAfter inside line = ((inside || begins line) && !closes line) := by
  have hcloses : Text.has "*/".toList (Text.trimStart line) = closes line := closes_trimStart line
  unfold Language.heldAfter Language.comment
  rw [if_neg hlanguage]
  unfold blockComment
  rw [hcloses, show Text.startsWith "/*" (Text.trimStart line) = begins line from rfl]
  cases inside <;> cases begins line <;> simp

/-- Some lines begin with one that begins with the opening mark, and hold no closing one. -/
def OpensUnclosed (lines : List (List Char)) : Prop :=
  ∃ l rest, lines = l :: rest ∧ begins l = true ∧ ∀ m ∈ lines, closes m = false

theorem OpensUnclosed.snoc {lines : List (List Char)} (h : OpensUnclosed lines) {last : List Char}
    (hlast : closes last = false) : OpensUnclosed (lines ++ [last]) := by
  obtain ⟨l, rest, rfl, hbegins, hopen⟩ := h
  exact ⟨l, rest ++ [last], rfl, hbegins, List.forall_mem_append.mpr ⟨hopen, by simpa using hlast⟩⟩

/-- One of some lines begins with the opening mark, and neither it nor one after it holds a closing mark. -/
def Noticed (lines : List (List Char)) : Prop := ∃ tail, tail <:+ lines ∧ OpensUnclosed tail

/-- One more line keeps what is noticed, or is where it begins, unless it holds a closing mark. -/
theorem noticed_concat_iff (lines : List (List Char)) (last : List Char) :
    Noticed (lines ++ [last]) ↔ (Noticed lines ∨ begins last = true) ∧ closes last = false := by
  constructor
  · rintro ⟨tail, ⟨front, hfront⟩, l, rest, rfl, hbegins, hopen⟩
    rcases List.eq_nil_or_concat' rest with rfl | ⟨rest, last', rfl⟩
    · obtain ⟨rfl, hlast⟩ := List.append_inj' hfront rfl
      obtain rfl := List.singleton_inj.mp hlast
      exact ⟨.inr hbegins, hopen l (by simp)⟩
    · rw [← List.cons_append, ← List.append_assoc] at hfront
      obtain ⟨rfl, hlast⟩ := List.append_inj' hfront rfl
      obtain rfl := List.singleton_inj.mp hlast
      have hearlier : OpensUnclosed (l :: rest) :=
        ⟨l, rest, rfl, hbegins, fun m hm => hopen m (List.mem_append_left _ hm)⟩
      exact ⟨.inl ⟨l :: rest, List.suffix_append front _, hearlier⟩, hopen last' (by simp)⟩
  · rintro ⟨⟨tail, ⟨front, rfl⟩, hopens⟩ | hbegins, hcloses⟩
    · exact ⟨tail ++ [last], ⟨front, (List.append_assoc ..).symm⟩, hopens.snoc hcloses⟩
    · exact ⟨[last], List.suffix_append lines [last], last, [], rfl, hbegins, by simpa using hcloses⟩

/-- **What is taken for a comment** starts on a line that begins with the opening mark, and neither that line nor
one after it holds a closing mark. -/
theorem heldOver_iff (hlanguage : language ≠ .python) (lines : List (List Char)) :
    language.heldOver lines = true ↔ Noticed lines := by
  induction lines using List.reverseRecOn with
  | nil =>
    refine ⟨fun h => absurd h (by simp [Language.heldOver]), ?_⟩
    rintro ⟨tail, htail, l, rest, hsplit, -⟩
    exact absurd (hsplit.symm.trans (List.suffix_nil.mp htail)) (by simp)
  | append_singleton lines last ih =>
    rw [noticed_concat_iff, ← ih, Language.heldOver, List.foldl_append, List.foldl_cons, List.foldl_nil,
      heldAfter_eq hlanguage, Bool.and_eq_true, Bool.or_eq_true, Bool.not_eq_true']
    rfl

variable {before between : List (List Char)} {first : List Char}

/-- A comment stays open over lines that do not close any. -/
theorem foldl_depthAfter_of_unclosed {lines : List (List Char)} (h : ∀ l ∈ lines, closes l = false)
    (hdepth : 0 < depth) : 0 < lines.foldl (depthAfter nests) depth := by
  induction lines generalizing depth with
  | nil => exact hdepth
  | cons l lines ih =>
    obtain ⟨hl, hlines⟩ := List.forall_mem_cons.mp h
    exact ih hlines (depthAfter_of_unclosed hdepth hl)

/-- What is noticed is a comment. -/
theorem depthOver_of_noticed {lines : List (List Char)} (h : Noticed lines) : 0 < depthOver nests lines := by
  obtain ⟨_, ⟨front, rfl⟩, l, rest, rfl, hbegins, hopen⟩ := h
  obtain ⟨hl, hrest⟩ := List.forall_mem_cons.mp hopen
  rw [depthOver, List.foldl_append, List.foldl_cons]
  exact foldl_depthAfter_of_unclosed hrest (depthAfter_of_begins hbegins hl)

/-- **Where a comment is noticed**: on its own lines, if the line that opens it closes what was open before. -/
theorem noticed_append_iff (hbegun : 0 < depthOver nests before → closes first = true) :
    Noticed (before ++ first :: between) ↔ Noticed (first :: between) := by
  constructor
  · rintro ⟨tail, htail, hopens⟩
    rcases List.suffix_or_suffix_of_suffix htail (List.suffix_append before (first :: between)) with
      hinside | ⟨more, rfl⟩
    · exact ⟨tail, hinside, hopens⟩
    · obtain ⟨l, rest, hsplit, hbegins, hopen⟩ := hopens
      cases more with
      | nil => exact ⟨first :: between, List.suffix_rfl, l, rest, hsplit, hbegins, hopen⟩
      | cons l' more =>
        -- noticed before the first line, it would go on over that line
        obtain rfl : l' = l := (List.cons.inj hsplit).1
        have hnoticed : Noticed before :=
          ⟨l' :: more, (List.suffix_append_inj_of_length_eq rfl).mp htail |>.1, l', more, rfl, hbegins,
            fun m hm => hopen m (List.mem_append_left _ hm)⟩
        have hclosed := hbegun (depthOver_of_noticed hnoticed)
        exact absurd (hclosed.symm.trans (hopen first (by simp))) (by simp)
  · rintro ⟨tail, htail, hopens⟩
    exact ⟨tail, htail.trans (List.suffix_append _ _), hopens⟩

/-- **Which lines inside comments declare symbols.** Of a source in which no literal holds a mark of a comment,
take a comment that is opened on one line, goes on over the lines between and over a whole later line. That line
declares a symbol exactly if it would do so outside a comment, and the comment is not noticed: no line from the
first one to it begins with the opening mark unless that line, or one after it, holds a closing one. So nothing is
declared in a comment that begins its first line, as long as no other comment is closed on that line or inside
the comment. -/
theorem commented_lines_declare_iff (hlanguage : language ≠ .python) {content : List Char}
    {before between after : List (List Marked)} {first line : List Marked}
    (hsource : Text.lines content = (before ++ first :: (between ++ line :: after)).map Marked.text)
    (hapart : ∀ l ∈ before ++ first :: (between ++ line :: after), LiteralsApart l)
    (hcovers : CommentCovers nests (before.map Marked.visible) (Marked.visible first)
      (between.map Marked.visible) (Marked.visible line)) :
    (∃ s ∈ language.symbols content, s.startLine = before.length + between.length + 2) ↔
      language.Declares (Marked.text line) ∧ ¬ Noticed ((first :: between).map Marked.text) := by
  simp only [List.forall_mem_append, List.forall_mem_cons] at hapart
  obtain ⟨hbefore, hfirst, -⟩ := hapart
  have hlines : Text.lines content
      = (before.map Marked.text ++ (first :: between).map Marked.text)
        ++ Marked.text line :: after.map Marked.text := by
    rw [hsource]
    simp
  have hdeclares := exists_symbol_iff hlanguage hlines
  have hnumber : (before.map Marked.text ++ (first :: between).map Marked.text).length + 1
      = before.length + between.length + 2 := by
    simp only [List.length_append, List.length_cons, List.length_map]
    omega
  have hbegun : 0 < depthOver nests (before.map Marked.text) → closes (Marked.text first) = true := by
    intro hopen
    rw [← depthOver_visible hbefore] at hopen
    have hsurfaces := hcovers.begun hopen
    rw [surfaces_visible hfirst] at hsurfaces
    exact closes_of_surfaces hopen hsurfaces
  rw [hnumber] at hdeclares
  refine hdeclares.trans (and_congr_right fun _ => ?_)
  rw [← Bool.not_eq_true, heldOver_iff hlanguage]
  exact not_congr (noticed_append_iff hbegun)

/-- Characters outside literals. -/
def Marked.code (s : String) : List Marked := s.toList.map (⟨·, false⟩)

/-- Characters of a literal. -/
def Marked.quoted (s : String) : List Marked := s.toList.map (⟨·, true⟩)

/-- A function in a comment that begins its first line is not declared. Before the comment stand two texts, which
between them have the characters of its opening mark. -/
theorem commented_function_not_declared :
    Language.javaScript.Declares "function ghost() \x7b\x7d".toList
      ∧ ¬ ∃ s ∈ Language.javaScript.symbols
          "f(\"/\", \"*\");\n/* off\nfunction ghost() \x7b\x7d\n*/\n".toList, s.startLine = 3 := by
  refine ⟨⟨by decide +kernel, by decide +kernel⟩, fun hdeclared => ?_⟩
  let call : List Marked :=
    Marked.code "f(" ++ Marked.quoted "\"/\"" ++ Marked.code ", " ++ Marked.quoted "\"*\"" ++ Marked.code ");"
  have hlines : Text.lines "f(\"/\", \"*\");\n/* off\nfunction ghost() \x7b\x7d\n*/\n".toList
      = ([call] ++ Marked.code "/* off"
          :: ([] ++ Marked.code "function ghost() \x7b\x7d" :: [Marked.code "*/"])).map Marked.text := by
    decide
  have hcovers : CommentCovers false ([call].map Marked.visible) (Marked.visible (Marked.code "/* off"))
      ([].map Marked.visible) (Marked.visible (Marked.code "function ghost() \x7b\x7d")) :=
    ⟨by decide, by decide, by decide⟩
  have hiff : (∃ s ∈ Language.javaScript.symbols _, s.startLine = 3) ↔ _ :=
    commented_lines_declare_iff (by decide) hlines (by decide) hcovers
  have hnoticed : Noticed (([Marked.code "/* off"]).map Marked.text) :=
    ⟨_, List.suffix_rfl, _, _, rfl, by decide, by decide⟩
  exact (hiff.mp hdeclared).2 hnoticed

/-- A function in a comment that is opened behind a call is declared. -/
theorem function_declared_in_comment :
    ∃ first line after : List Marked,
      Text.lines "run(); /* off\nfunction ghost() \x7b\x7d\n*/\n".toList = [first, line, after].map Marked.text
      ∧ (∀ l ∈ [first, line, after], LiteralsApart l)
      ∧ CommentCovers false [] (Marked.visible first) [] (Marked.visible line)
      ∧ ∃ s ∈ Language.javaScript.symbols "run(); /* off\nfunction ghost() \x7b\x7d\n*/\n".toList,
        s.startLine = 2 := by
  have hsymbols : Language.javaScript.symbols "run(); /* off\nfunction ghost() \x7b\x7d\n*/\n".toList
      = [⟨"ghost", .function, "function ghost() \x7b\x7d", 2, 2, false⟩] := by
    decide +kernel
  refine ⟨Marked.code "run(); /* off", Marked.code "function ghost() \x7b\x7d", Marked.code "*/",
    by decide, by decide, ⟨by decide, by decide, by decide⟩, ?_⟩
  rw [hsymbols]
  exact ⟨_, List.mem_cons_self, rfl⟩

end CodeIndex
