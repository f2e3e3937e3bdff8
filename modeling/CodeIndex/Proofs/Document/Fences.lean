import Mathlib
import CodeIndex.Proofs.Document.Chunks

/-!
# Headings and blocks of code

A block of code begins at a line of at least three backticks or tildes, and ends at a later line that has at
least as many of the same mark and then nothing but blanks. Between the two, a line that begins with fewer
marks, with the other mark or with marks and a word is code like any other.

Cutting a document at its headings goes by less: every line that begins with three marks begins or ends a
block in turn. So a heading inside a block starts a piece exactly if the lines that begin with three marks
before it are even in number. Where a block holds no such line but the one that ends it, the two ways of
counting agree, and no block is split.

Main results:
  * `exists_chunk_in_block_iff` — the lines inside a block at which a chunk starts;
  * `turnedBy_eq_isSome` — where only the ends of blocks begin with three marks, the two ways agree.
-/

namespace CodeIndex

namespace Document

/-! ## §1. Blocks of code. -/

/-- A block of code that has begun: the mark of its first line, and how many of it there are. -/
structure Block where
  mark : Char
  length : Nat
  deriving DecidableEq, Repr

/-- How many of a mark a line begins with, after its blanks. -/
def marks (mark : Char) (line : List Char) : Nat := ((Text.trimStart line).takeWhile (· == mark)).length

/-- The block that a line begins. -/
def block? (line : List Char) : Option Block :=
  if 3 ≤ marks '\x60' line then some ⟨'\x60', marks '\x60' line⟩
  else if 3 ≤ marks '~' line then some ⟨'~', marks '~' line⟩
  else none

/-- Whether a line ends a block. -/
def Block.endsAt (b : Block) (line : List Char) : Bool :=
  decide (b.length ≤ marks b.mark line)
    && Text.allBlank ((Text.trimStart line).dropWhile (· == b.mark))

/-- The block that is open after a line, given the one that was open before it. -/
def blockNext (open? : Option Block) (line : List Char) : Option Block :=
  match open? with
  | none => block? line
  | some b => if b.endsAt line then none else some b

/-- The block that is open after some lines. -/
def blockAfter (lines : List (List Char)) : Option Block := lines.foldl blockNext none

/-- The line with `i` lines before it is inside a block that began at one of those. -/
def InBlock (lines : List (List Char)) (i : Nat) : Prop := (blockAfter (lines.take i)).isSome = true

/-! ## §2. Lines that begin with three marks. -/

/-- A line that begins with three marks. -/
def isMarked (line : List Char) : Bool := isFence (Text.trimStart line)

theorem replicate_isPrefixOf_iff (c : Char) (n : Nat) (s : List Char) :
    (List.replicate n c).isPrefixOf s = true ↔ n ≤ (s.takeWhile (· == c)).length := by
  induction n generalizing s with
  | zero => simp
  | succ n ih =>
    cases s with
    | nil => simp [List.replicate_succ]
    | cons d s =>
      rw [List.replicate_succ, List.isPrefixOf_cons_cons, List.takeWhile_cons]
      by_cases hd : d = c
      · simp [hd, ih]
      · simp [hd, Ne.symm hd]

theorem isMarked_iff {line : List Char} : isMarked line = true ↔ 3 ≤ marks '\x60' line ∨ 3 ≤ marks '~' line := by
  unfold isMarked isFence
  rw [Bool.or_eq_true, replicate_isPrefixOf_iff, replicate_isPrefixOf_iff]
  rfl

theorem block?_isSome (line : List Char) : (block? line).isSome = isMarked line := by
  rw [Bool.eq_iff_iff, isMarked_iff]
  unfold block?
  split <;> rename_i hticks
  · simp [hticks]
  · split <;> rename_i htildes <;> simp [hticks, htildes]

/-- A block begins with at least three marks of one of the two kinds. -/
def Block.IsProper (b : Block) : Prop := (b.mark = '\x60' ∨ b.mark = '~') ∧ 3 ≤ b.length

theorem isProper_of_blockAfter {lines : List (List Char)} {b : Block} (h : blockAfter lines = some b) :
    b.IsProper := by
  induction lines using List.reverseRecOn generalizing b with
  | nil => exact absurd h (by simp [blockAfter])
  | append_singleton lines line ih =>
    have hnext : blockNext (blockAfter lines) line = some b := by
      simpa [blockAfter, List.foldl_append] using h
    cases hopen : blockAfter lines with
    | none =>
      simp only [hopen, blockNext, block?] at hnext
      split at hnext
      next hticks => exact Option.some.inj hnext ▸ ⟨.inl rfl, hticks⟩
      next =>
        split at hnext
        next htildes => exact Option.some.inj hnext ▸ ⟨.inr rfl, htildes⟩
        next => exact absurd hnext (by simp)
    | some open_ =>
      simp only [hopen, blockNext] at hnext
      split at hnext
      · exact absurd hnext (by simp)
      · exact ih (Option.some.inj hnext ▸ hopen)

/-- A line that ends a block begins with three marks. -/
theorem isMarked_of_endsAt {b : Block} (hb : b.IsProper) {line : List Char} (h : b.endsAt line = true) :
    isMarked line = true := by
  obtain ⟨hmark, hlength⟩ := hb
  obtain ⟨hmarks, -⟩ := Bool.and_eq_true_iff.mp h
  have hthree : 3 ≤ marks b.mark line := hlength.trans (of_decide_eq_true hmarks)
  rcases hmark with hmark | hmark
  · exact isMarked_iff.mpr (.inl (hmark ▸ hthree))
  · exact isMarked_iff.mpr (.inr (hmark ▸ hthree))

/-! ## §3. Where pieces start. -/

/-- Whether the line after some lines is taken for code. -/
def turnedBy (fenced : Bool) (lines : List (List Char)) : Bool := lines.foldl turned fenced

/-- Lines that begin with three marks turn code and text into each other. -/
theorem turnedBy_eq (fenced : Bool) (lines : List (List Char)) :
    turnedBy fenced lines = (fenced ^^ decide (lines.countP isMarked % 2 = 1)) := by
  unfold turnedBy
  induction lines generalizing fenced with
  | nil => simp
  | cons line rest ih =>
    rw [List.foldl_cons, ih, List.countP_cons, turned]
    change ((if isMarked line = true then !fenced else fenced) ^^ _) = _
    cases isMarked line
    · simp
    · rcases Nat.mod_two_eq_zero_or_one (rest.countP isMarked) with hmod | hmod <;> cases fenced <;>
        simp [hmod, Nat.add_mod]

/-- A heading begins with number signs, so with no marks. -/
theorem IsHeading.notMarked {line title : List Char} (h : IsHeading line title) : isMarked line = false := by
  obtain ⟨level, rest, hsome, -, hline, -, -⟩ := h
  obtain ⟨level, rfl⟩ := Nat.exists_eq_add_of_le' hsome
  rw [isMarked, hline, List.replicate_succ]
  rfl

/-- A piece starts at a heading that is not taken for code. -/
theorem title?_eq_some_iff {fenced : Bool} {line title : List Char} :
    title? fenced line = some title ↔ fenced = false ∧ IsHeading line title := by
  unfold title?
  constructor
  · intro h
    split at h
    · exact absurd h (by simp)
    next hturned =>
      have hheading := heading?_eq_some_iff.mp h
      have hmarked : isFence (Text.trimStart line) = false := hheading.notMarked
      exact ⟨by simpa [turned, hmarked] using hturned, hheading⟩
  · rintro ⟨rfl, hheading⟩
    have hmarked : isFence (Text.trimStart line) = false := hheading.notMarked
    rw [if_neg (by simp [turned, hmarked]), heading?_eq_some_iff.mpr hheading]

/-- A line at which a piece starts: a heading that is not taken for code, given the lines before it. -/
def SplitsAt (fenced : Bool) (lines : List (List Char)) (i : Nat) : Prop :=
  ∃ line title, lines[i]? = some line ∧ title? (turnedBy fenced (lines.take i)) line = some title

theorem splitsAt_succ {fenced : Bool} {line : List Char} {rest : List (List Char)} {i : Nat} :
    SplitsAt fenced (line :: rest) (i + 1) ↔ SplitsAt (turned fenced line) rest i := Iff.rfl

theorem splitsAt_zero {fenced : Bool} {line : List Char} {rest : List (List Char)} :
    SplitsAt fenced (line :: rest) 0 ↔ ∃ title, title? fenced line = some title := by
  constructor
  · rintro ⟨_, title, hline, htitle⟩
    obtain rfl := Option.some.inj hline
    exact ⟨title, htitle⟩
  · rintro ⟨title, htitle⟩
    exact ⟨line, title, rfl, htitle⟩

variable {number i : Nat} {fenced : Bool} {current p : Piece} {lines : List (List Char)}

/-- A piece starts where the open one does, or at a heading that is not taken for code. -/
theorem start_of_mem_markdownFrom (hp : p ∈ markdownFrom number fenced current lines) :
    p.start = current.start ∨ ∃ i, p.start = number + i ∧ SplitsAt fenced lines i := by
  induction lines generalizing number fenced current with
  | nil => exact .inl (by rw [List.mem_singleton.mp hp])
  | cons line rest ih =>
    have hlater : ∀ current : Piece, p ∈ markdownFrom (number + 1) (turned fenced line) current rest →
        p.start = current.start ∨ ∃ i, p.start = number + i ∧ SplitsAt fenced (line :: rest) i := by
      intro current hp
      rcases ih hp with hstart | ⟨i, hstart, hsplits⟩
      · exact .inl hstart
      · exact .inr ⟨i + 1, by omega, splitsAt_succ.mpr hsplits⟩
    rw [markdownFrom_cons] at hp
    split at hp
    next title htitle =>
      rcases List.mem_cons.mp hp with rfl | hp
      · exact .inl rfl
      · rcases hlater _ hp with hstart | hsplits
        · exact .inr ⟨0, hstart, splitsAt_zero.mpr ⟨title, htitle⟩⟩
        · exact .inr hsplits
    next => exact hlater { current with lines := line :: current.lines } hp

/-- At a heading that is not taken for code a piece starts, and it begins with that heading. -/
theorem exists_piece_of_splitsAt (number : Nat) (current : Piece) (h : SplitsAt fenced lines i) :
    ∃ p ∈ markdownFrom number fenced current lines, p.start = number + i ∧ p.Titled := by
  induction lines generalizing number fenced current i with
  | nil =>
    obtain ⟨line, -, hline, -⟩ := h
    exact absurd hline (by simp)
  | cons line rest ih =>
    rw [markdownFrom_cons]
    cases i with
    | zero =>
      obtain ⟨title, htitle⟩ := splitsAt_zero.mp h
      obtain ⟨first, later, hpieces, hstart, hheading, hfirst, -⟩ :=
        markdownFrom_titled (number + 1) (turned fenced line) ⟨some title, number, [line]⟩ rest
      simp only [htitle, hpieces]
      exact ⟨first, by simp, hstart, line, title, hfirst line rfl, hheading, (title?_eq_some_iff.mp htitle).2⟩
    | succ i =>
      split
      next title _ =>
        obtain ⟨p, hp, hstart, htitled⟩ := ih (number + 1) ⟨some title, number, [line]⟩ (splitsAt_succ.mp h)
        exact ⟨p, List.mem_cons_of_mem _ hp, by omega, htitled⟩
      next =>
        obtain ⟨p, hp, hstart, htitled⟩ := ih (number + 1)
          { current with lines := line :: current.lines } (splitsAt_succ.mp h)
        exact ⟨p, hp, by omega, htitled⟩

theorem Piece.Titled.notBlank (h : p.Titled) : Text.allBlank p.text = false := by
  obtain ⟨line, title, hhead, -, hheading⟩ := h
  rw [Piece.text, allBlank_intercalate]
  exact List.all_eq_false.mpr ⟨line, List.mem_of_mem_head? hhead, by simp [hheading.notBlank]⟩

/-- **Where chunks start**: at headings that are not taken for code, and where the document does. -/
theorem exists_chunk_iff {content : List Char} (hi : 0 < i) :
    (∃ c ∈ markdownChunks content, c.startLine = i + 1) ↔ SplitsAt false (Text.lines content) i := by
  constructor
  · rintro ⟨c, hc, hstart⟩
    replace hc : c ∈ Document.number (markdownPieces content) := hc
    obtain ⟨p, hp, -, n, rfl⟩ := mem_number hc
    have hstart : p.start = i + 1 := hstart
    rcases start_of_mem_markdownFrom hp with hfirst | ⟨j, hj, hsplits⟩
    · have hfirst : p.start = 1 := hfirst
      omega
    · obtain rfl : j = i := by omega
      exact hsplits
  · intro h
    obtain ⟨p, hp, hstart, htitled⟩ := exists_piece_of_splitsAt 1 ⟨none, 1, []⟩ h
    obtain ⟨n, hn⟩ := chunk_mem_number hp htitled.notBlank
    exact ⟨_, hn, hstart.trans (Nat.add_comm 1 i)⟩

/-! ## §4. Chunks that start in a block. -/

theorem not_inBlock_zero (lines : List (List Char)) : ¬ InBlock lines 0 := by simp [InBlock, blockAfter]

/-- **The lines inside a block at which a chunk starts** are the headings with an even number of lines
before them that begin with three marks. -/
theorem exists_chunk_in_block_iff (content : List Char) (i : Nat) (hblock : InBlock (Text.lines content) i) :
    (∃ c ∈ markdownChunks content, c.startLine = i + 1)
      ↔ (∃ line title, (Text.lines content)[i]? = some line ∧ IsHeading line title)
        ∧ ((Text.lines content).take i).countP isMarked % 2 = 0 := by
  have hi : 0 < i := Nat.pos_of_ne_zero fun h => not_inBlock_zero _ (h ▸ hblock)
  rw [exists_chunk_iff hi]
  have heven : turnedBy false ((Text.lines content).take i) = false
      ↔ ((Text.lines content).take i).countP isMarked % 2 = 0 := by
    rw [turnedBy_eq, Bool.false_xor, decide_eq_false_iff_not]
    omega
  simp only [SplitsAt, title?_eq_some_iff, heven]
  constructor
  · rintro ⟨line, title, hline, hmarks, hheading⟩
    exact ⟨⟨line, title, hline, hheading⟩, hmarks⟩
  · rintro ⟨⟨line, title, hline, hheading⟩, hmarks⟩
    exact ⟨line, title, hline, hmarks, hheading⟩

/-- Inside a block no line begins with three marks but the one that ends it. -/
def MarksEndBlocks (lines : List (List Char)) : Prop :=
  ∀ i line b, lines[i]? = some line → blockAfter (lines.take i) = some b → isMarked line = true →
    b.endsAt line = true

instance (lines : List (List Char)) : Decidable (MarksEndBlocks lines) :=
  decidable_of_iff
    (∀ i < lines.length, ∀ line ∈ lines[i]?, ∀ b ∈ blockAfter (lines.take i),
      isMarked line = true → b.endsAt line = true)
    ⟨fun h i line b hline hopen => h i (List.getElem?_eq_some_iff.mp hline).1 line hline b hopen,
      fun h i _ line hline b hopen => h i line b hline hopen⟩

/-- **Where only the ends of blocks begin with three marks**, what is taken for code is what is inside a
block. -/
theorem turnedBy_eq_isSome {lines : List (List Char)} (h : MarksEndBlocks lines) (i : Nat) :
    turnedBy false (lines.take i) = (blockAfter (lines.take i)).isSome := by
  induction i with
  | zero => rfl
  | succ i ih =>
    cases hline : lines[i]? with
    | none =>
      have hlength : lines.length ≤ i := List.getElem?_eq_none_iff.mp hline
      rwa [List.take_of_length_le (by omega), ← List.take_of_length_le hlength]
    | some line =>
      have htake : lines.take (i + 1) = lines.take i ++ [line] := by
        rw [List.take_add_one, hline, Option.toList_some]
      rw [htake, turnedBy, blockAfter, List.foldl_append, List.foldl_append]
      show turned (turnedBy false (lines.take i)) line = (blockNext (blockAfter (lines.take i)) line).isSome
      rw [ih]
      cases hopen : blockAfter (lines.take i) with
      | none =>
        show (if isMarked line then true else false) = (block? line).isSome
        rw [block?_isSome]
        cases isMarked line <;> rfl
      | some b =>
        -- the line ends the block exactly if it begins with three marks
        have hends : b.endsAt line = isMarked line := Bool.eq_iff_iff.mpr
          ⟨isMarked_of_endsAt (isProper_of_blockAfter hopen), h i line b hline hopen⟩
        show (if isMarked line then false else true) = (if b.endsAt line then none else some b).isSome
        rw [hends]
        cases isMarked line <;> rfl

/-- **Which headings inside blocks split them.** A chunk starts inside a block exactly at the headings with
an even number of lines before them that begin with three marks. So no block is split in a document whose
blocks hold no such line but the one that ends them. -/
theorem blocks_split_by_parity (content : List Char) :
    (∀ i, InBlock (Text.lines content) i →
      ((∃ c ∈ markdownChunks content, c.startLine = i + 1)
        ↔ (∃ line title, (Text.lines content)[i]? = some line ∧ IsHeading line title)
          ∧ ((Text.lines content).take i).countP isMarked % 2 = 0))
    ∧ (MarksEndBlocks (Text.lines content) →
        ∀ c ∈ markdownChunks content, ¬ InBlock (Text.lines content) (c.startLine - 1)) := by
  refine ⟨exists_chunk_in_block_iff content, fun h c hc hblock => ?_⟩
  have hi : 0 < c.startLine - 1 := Nat.pos_of_ne_zero fun h => not_inBlock_zero _ (h ▸ hblock)
  obtain ⟨line, title, -, htitle⟩ := (exists_chunk_iff hi).mp ⟨c, hc, by omega⟩
  have hturned := (title?_eq_some_iff.mp htitle).1
  rw [turnedBy_eq_isSome h, hblock] at hturned
  exact absurd hturned (by simp)

/-- A block between backticks that holds a heading, before another heading. -/
def fencedHeading : List Char := "\x60\x60\x60\n# x\n\x60\x60\x60\n# y\n".toList

theorem blocks_split_by_parity_of_fenced_heading :
    MarksEndBlocks (Text.lines fencedHeading) ∧ InBlock (Text.lines fencedHeading) 1
      ∧ (markdownChunks fencedHeading).map (·.startLine) = [1, 4]
      ∧ ∀ c ∈ markdownChunks fencedHeading, ¬ InBlock (Text.lines fencedHeading) (c.startLine - 1) := by
  have hends : MarksEndBlocks (Text.lines fencedHeading) := by decide
  exact ⟨hends, rfl, by decide, (blocks_split_by_parity fencedHeading).2 hends⟩

/-- A block between backticks that holds a pair of lines of tildes is split at the heading between them. -/
theorem block_of_tildes_split :
    ∃ c ∈ markdownChunks "\x60\x60\x60\n~~~\n# x\n~~~\n\x60\x60\x60\n".toList,
      InBlock (Text.lines "\x60\x60\x60\n~~~\n# x\n~~~\n\x60\x60\x60\n".toList) (c.startLine - 1) :=
  ⟨⟨1, some "x", 3, 5, "# x\n~~~\n\x60\x60\x60"⟩, by decide, rfl⟩

end Document

end CodeIndex
