import Mathlib
import CodeIndex.Proofs.Index.Page

/-!
# The lines of chunks

A document is cut into pieces that stand one after another and hold all of its lines (`Tiles`), whether it
is cut at headings or by windows. Blank pieces are dropped and the others are numbered, so the chunks have
ranges of lines that do not meet, and every line with more than blanks on it is in one of them (`Cuts`).

Main results:
  * `markdownFrom_tiles`, `windowsFrom_tiles` — the pieces of a document stand one after another;
  * `Tiles.cuts` — what is left of such pieces once the blank ones are dropped;
  * `index_doc_eq_error_iff` — a document is refused only because it cannot be read.
-/

namespace CodeIndex

namespace Document

/-! ## §1. Pieces one after another. -/

/-- Pieces that stand one after another from a line on, and hold the given lines between them. -/
inductive Tiles : Nat → List Piece → List (List Char) → Prop where
  | done (number : Nat) : Tiles number [] []
  | piece {p : Piece} {pieces : List Piece} {lines : List (List Char)}
    (rest : Tiles (p.start + p.lines.length) pieces lines) : Tiles p.start (p :: pieces) (p.lines ++ lines)

variable {number : Nat} {pieces : List Piece} {lines : List (List Char)} {p : Piece}

/-- The lines of a piece stand among all lines where the piece says. -/
theorem Tiles.stands (h : Tiles number pieces lines) (hp : p ∈ pieces) :
    ∃ before after, lines = before ++ p.lines ++ after ∧ p.start = number + before.length := by
  induction h with
  | done => exact absurd hp List.not_mem_nil
  | @piece q pieces lines rest ih =>
    rcases List.mem_cons.mp hp with rfl | hp
    · exact ⟨[], lines, by simp, by simp⟩
    · obtain ⟨before, after, rfl, hstart⟩ := ih hp
      exact ⟨q.lines ++ before, after, by simp, by rw [hstart, List.length_append]; omega⟩

/-- A piece starts where the ones before it have ended. -/
theorem Tiles.apart (h : Tiles number pieces lines) :
    pieces.Pairwise fun p q => p.start + p.lines.length ≤ q.start := by
  induction h with
  | done => exact .nil
  | piece rest ih =>
    refine .cons (fun q hq => ?_) ih
    obtain ⟨before, -, -, hstart⟩ := rest.stands hq
    omega

/-- Every line is in a piece. -/
theorem Tiles.covers (h : Tiles number pieces lines) {i : Nat} (hi : i < lines.length) :
    ∃ p ∈ pieces, p.start ≤ number + i ∧ number + i < p.start + p.lines.length := by
  induction h generalizing i with
  | done => exact absurd hi (by simp)
  | @piece p pieces lines rest ih =>
    rw [List.length_append] at hi
    by_cases hfirst : i < p.lines.length
    · exact ⟨p, List.mem_cons_self, by omega, by omega⟩
    · obtain ⟨q, hq, hstart, hstop⟩ := ih (i := i - p.lines.length) (by omega)
      exact ⟨q, List.mem_cons_of_mem _ hq, by omega, by omega⟩

/-! ## §2. The pieces of a document. -/

/-- Whether the next line starts in a block of code, given whether this one does. -/
def turned (fenced : Bool) (line : List Char) : Bool :=
  if isFence (Text.trimStart line) then !fenced else fenced

/-- The title of a line at which a new piece starts. -/
def title? (fenced : Bool) (line : List Char) : Option (List Char) :=
  if turned fenced line then none else heading? (Text.trimStart line)

theorem markdownFrom_cons (number : Nat) (fenced : Bool) (current : Piece) (line : List Char)
    (rest : List (List Char)) :
    markdownFrom number fenced current (line :: rest)
      = match title? fenced line with
        | some title =>
          { current with lines := current.lines.reverse }
            :: markdownFrom (number + 1) (turned fenced line) ⟨some title, number, [line]⟩ rest
        | none =>
          markdownFrom (number + 1) (turned fenced line) { current with lines := line :: current.lines } rest :=
  rfl

/-- **Cut at headings**, the lines are all there: those of the open piece first, then those to come. -/
theorem markdownFrom_tiles (number : Nat) (fenced : Bool) (current : Piece) (lines : List (List Char))
    (hnumber : number = current.start + current.lines.length) :
    Tiles current.start (markdownFrom number fenced current lines) (current.lines.reverse ++ lines) := by
  induction lines generalizing number fenced current with
  | nil =>
    subst hnumber
    exact .piece (p := { current with lines := current.lines.reverse }) (.done _)
  | cons line rest ih =>
    rw [markdownFrom_cons]
    split
    next title _ =>
      -- the open piece ends here, and the heading begins the next one
      refine .piece (p := { current with lines := current.lines.reverse }) ?_
      simpa [hnumber] using ih (number + 1) (turned fenced line) ⟨some title, number, [line]⟩ rfl
    next =>
      simpa using ih (number + 1) (turned fenced line) { current with lines := line :: current.lines }
        (by simp; omega)

/-- **Cut by windows**, the lines are all there. -/
theorem windowsFrom_tiles {window : Nat} (hwindow : 1 ≤ window) (fuel number : Nat)
    (lines : List (List Char)) (hfuel : lines.length ≤ fuel) :
    Tiles number (windowsFrom window fuel number lines) lines := by
  induction fuel generalizing number lines with
  | zero =>
    rw [List.length_eq_zero_iff.mp (Nat.le_zero.mp hfuel)]
    exact .done number
  | succ fuel ih =>
    cases lines with
    | nil => exact .done number
    | cons line rest =>
      have hrest := ih (number + window) ((line :: rest).drop window) (by simp; simp at hfuel; omega)
      have hpiece : Tiles (number + ((line :: rest).take window).length)
          (windowsFrom window fuel (number + window) ((line :: rest).drop window))
          ((line :: rest).drop window) := by
        by_cases hshort : (line :: rest).length ≤ window
        · -- the last window may be short, and then nothing comes after it
          rw [List.drop_eq_nil_of_le hshort]
          cases fuel <;> exact .done _
        · rwa [List.length_take, Nat.min_eq_left (by omega)]
      have htiles := Tiles.piece (p := ⟨none, number, (line :: rest).take window⟩) hpiece
      rwa [List.take_append_drop] at htiles

/-- A window starts whole windows after the first one, and is not longer than a window. -/
theorem mem_windowsFrom {window fuel number : Nat} {lines : List (List Char)}
    (hp : p ∈ windowsFrom window fuel number lines) :
    p.heading = none ∧ (∃ k, p.start = number + k * window) ∧ p.lines.length ≤ window := by
  induction fuel generalizing number lines with
  | zero => exact absurd hp (by simp [windowsFrom])
  | succ fuel ih =>
    cases lines with
    | nil => exact absurd hp (by simp [windowsFrom])
    | cons line rest =>
      rcases List.mem_cons.mp hp with rfl | hp
      · exact ⟨rfl, ⟨0, by simp⟩, by simp⟩
      · obtain ⟨hheading, ⟨k, hstart⟩, hlength⟩ := ih hp
        exact ⟨hheading, ⟨k + 1, by rw [hstart]; ring⟩, hlength⟩

/-! ## §3. Headings. -/

/-- A line that is a heading with a title: after its blanks there are one to three number signs, and then
nothing, or a space and the title, which number signs may follow. -/
inductive IsHeading (line title : List Char) : Prop where
  | mk (level : Nat) (rest : List Char) (some : 1 ≤ level) (few : level ≤ maxLevel)
    (line_eq : Text.trimStart line = List.replicate level '#' ++ rest)
    (apart : rest = [] ∨ rest.head? = .some ' ')
    (title_eq : title = Text.trim (Text.dropTrailing (· == '#') (Text.trim rest)))

theorem heading?_eq_some_iff {line title : List Char} :
    heading? (Text.trimStart line) = some title ↔ IsHeading line title := by
  constructor
  · intro h
    unfold heading? at h
    simp only [Bool.or_eq_true, decide_eq_true_eq, List.isEmpty_iff, beq_iff_eq] at h
    split at h
    · exact absurd h (by simp)
    next hlevel =>
      split at h
      next hrest =>
        -- the number signs at the front are all of the line up to their number
        have htaken : (Text.trimStart line).take ((Text.trimStart line).takeWhile (· == '#')).length
            = List.replicate ((Text.trimStart line).takeWhile (· == '#')).length '#' := by
          rw [← List.prefix_iff_eq_take.mp (List.takeWhile_prefix _)]
          exact List.eq_replicate_of_mem fun c hc => by simpa using List.mem_takeWhile_imp hc
        refine ⟨_, _, Nat.pos_of_ne_zero fun h => hlevel (.inl h), Nat.le_of_not_lt fun h => hlevel (.inr h),
          ?_, hrest, (Option.some.inj h).symm⟩
        rw [← htaken, List.take_append_drop]
      · exact absurd h (by simp)
  · rintro ⟨level, rest, hsome, hfew, hline, hapart, rfl⟩
    have hnone : rest.takeWhile (· == '#') = [] := by
      rcases hapart with rfl | hspace
      · rfl
      · cases rest with
        | nil => rfl
        | cons c rest => simp_all
    have hsigns : (Text.trimStart line).takeWhile (· == '#') = List.replicate level '#' := by
      rw [hline, List.takeWhile_append_of_pos (by simp), hnone, List.append_nil]
    unfold heading?
    simp only [hsigns, List.length_replicate]
    rw [if_neg (by simp; omega), hline, List.drop_left' List.length_replicate, if_pos (by simpa using hapart)]

/-- A heading is not blank. -/
theorem IsHeading.notBlank {line title : List Char} (h : IsHeading line title) :
    Text.allBlank line = false := by
  obtain ⟨level, rest, hsome, -, hline, -, -⟩ := h
  have hmem : '#' ∈ Text.trimStart line := by
    rw [hline]
    exact List.mem_append_left _ (List.mem_replicate.mpr ⟨by omega, rfl⟩)
  exact List.all_eq_false.mpr ⟨'#', (List.dropWhile_sublist _).mem hmem, by decide⟩

theorem isHeading_of_title? {fenced : Bool} {line title : List Char} (h : title? fenced line = some title) :
    IsHeading line title := by
  unfold title? at h
  split at h
  · exact absurd h (by simp)
  · exact heading?_eq_some_iff.mp h

/-- A piece that begins with the heading that it names. -/
def Piece.Titled (p : Piece) : Prop :=
  ∃ line title, p.lines.head? = some line ∧ p.heading = some title ∧ IsHeading line title

/-- All pieces but the open one begin with the headings that they name. The open one keeps its start, its
heading, and its first line if it has one already. -/
theorem markdownFrom_titled (number : Nat) (fenced : Bool) (current : Piece) (lines : List (List Char)) :
    ∃ first later, markdownFrom number fenced current lines = first :: later
      ∧ first.start = current.start ∧ first.heading = current.heading
      ∧ (∀ line, current.lines.getLast? = some line → first.lines.head? = some line)
      ∧ ∀ p ∈ later, p.Titled := by
  induction lines generalizing number fenced current with
  | nil => exact ⟨_, [], rfl, rfl, rfl, fun line h => by simpa using h, by simp⟩
  | cons line rest ih =>
    rw [markdownFrom_cons]
    split
    next title htitle =>
      obtain ⟨first, later, hpieces, -, hfirst, hline, hlater⟩ :=
        ih (number + 1) (turned fenced line) ⟨some title, number, [line]⟩
      refine ⟨_, _, rfl, rfl, rfl, fun line h => by simpa using h, fun p hp => ?_⟩
      rw [hpieces] at hp
      rcases List.mem_cons.mp hp with rfl | hp
      · exact ⟨line, title, hline line rfl, hfirst, isHeading_of_title? htitle⟩
      · exact hlater p hp
    next =>
      obtain ⟨first, later, hpieces, hstart, hfirst, hline, hlater⟩ :=
        ih (number + 1) (turned fenced line) { current with lines := line :: current.lines }
      refine ⟨first, later, hpieces, hstart, hfirst, fun l h => hline l ?_, hlater⟩
      rw [List.getLast?_cons, h]
      rfl

/-! ## §4. Chunks. -/

/-- The lines of a document from one to another, both counted from one. -/
def linesFromTo (lines : List (List Char)) (first last : Nat) : List (List Char) :=
  (lines.drop (first - 1)).take (last + 1 - first)

/-- Chunks that hold the lines of a document, each line with more than blanks on it once. -/
structure Cuts (lines : List (List Char)) (chunks : List Chunk) : Prop where
  /-- The numbers of the chunks are their places. -/
  numbered : chunks.map (·.index) = List.range chunks.length
  /-- A chunk has at least one line, and all its lines are lines of the document. -/
  placed : ∀ c ∈ chunks, 1 ≤ c.startLine ∧ c.startLine ≤ c.endLine ∧ c.endLine ≤ lines.length
  /-- A chunk starts after the ones before it have ended. -/
  apart : chunks.Pairwise fun c d => c.endLine < d.startLine
  /-- The text of a chunk is its lines with line feeds between them. -/
  texts : ∀ c ∈ chunks, c.text = String.ofList (['\n'].intercalate (linesFromTo lines c.startLine c.endLine))
  notBlank : ∀ c ∈ chunks, Text.allBlank c.text.toList = false
  /-- A line with more than blanks on it is in one chunk and no other. -/
  covers : ∀ i line, lines[i]? = some line → Text.allBlank line = false →
    ∃! c, c ∈ chunks ∧ c.startLine ≤ i + 1 ∧ i + 1 ≤ c.endLine

theorem allBlank_append (s t : List Char) :
    Text.allBlank (s ++ t) = (Text.allBlank s && Text.allBlank t) := List.all_append

/-- Lines with line feeds between them are blank if each of them is. -/
theorem allBlank_intercalate (lines : List (List Char)) :
    Text.allBlank (['\n'].intercalate lines) = lines.all Text.allBlank := by
  induction lines with
  | nil => rfl
  | cons line rest ih =>
    by_cases hrest : rest = []
    · simp [hrest, List.intercalate_singleton]
    · have hfeed : Text.allBlank ['\n'] = true := by decide
      rw [List.intercalate_cons_of_ne_nil hrest, allBlank_append, allBlank_append, ih, hfeed, Bool.and_true,
        List.all_cons]

theorem mem_number {c : Chunk} (h : c ∈ Document.number pieces) :
    ∃ p ∈ pieces, Text.allBlank p.text = false ∧ ∃ i, c = p.chunk i := by
  obtain ⟨⟨p, i⟩, hp, rfl⟩ := List.mem_map.mp h
  obtain ⟨hp, hblank⟩ := List.mem_filter.mp (List.fst_mem_of_mem_zipIdx hp)
  exact ⟨p, hp, by simpa using hblank, i, rfl⟩

theorem chunk_mem_number (hp : p ∈ pieces) (hblank : Text.allBlank p.text = false) :
    ∃ i, p.chunk i ∈ Document.number pieces := by
  have hkept : p ∈ pieces.filter fun p => !Text.allBlank p.text :=
    List.mem_filter.mpr ⟨hp, by simp [hblank]⟩
  obtain ⟨i, hi⟩ := List.mem_iff_getElem?.mp hkept
  exact ⟨i, List.mem_map.mpr ⟨(p, i), List.mem_zipIdx_iff_getElem?.mpr hi, rfl⟩⟩

/-- What holds of pieces one after another holds of their chunks, whatever their numbers. -/
theorem pairwise_number {R : Piece → Piece → Prop} {S : Chunk → Chunk → Prop} (h : pieces.Pairwise R)
    (hRS : ∀ p q i j, Text.allBlank p.text = false → R p q → S (p.chunk i) (q.chunk j)) :
    (Document.number pieces).Pairwise S := by
  have hkept : (pieces.filter fun p => !Text.allBlank p.text).Pairwise fun p q =>
      Text.allBlank p.text = false ∧ R p q := by
    refine (h.filter _).imp_of_mem fun {p q} hp _ hpq => ⟨?_, hpq⟩
    simpa using (List.mem_filter.mp hp).2
  have hnumbered : (List.zipIdx (pieces.filter fun p => !Text.allBlank p.text)).Pairwise fun a b =>
      Text.allBlank a.1.text = false ∧ R a.1 b.1 := by
    rw [← List.pairwise_map (f := Prod.fst)
      (R := fun p q => Text.allBlank p.text = false ∧ R p q), List.zipIdx_map_fst]
    exact hkept
  exact List.pairwise_map.mpr (hnumbered.imp fun {a b} hab => hRS a.1 b.1 a.2 b.2 hab.1 hab.2)

theorem number_numbered (pieces : List Piece) :
    (Document.number pieces).map (·.index) = List.range (Document.number pieces).length := by
  unfold Document.number
  rw [List.map_map, List.length_map, List.length_zipIdx]
  show List.map Prod.snd (List.zipIdx _) = _
  rw [List.zipIdx_map_snd, List.range_eq_range']

/-- Of two chunks one ends before the other starts. -/
theorem apart_of_ne {chunks : List Chunk} (h : chunks.Pairwise fun c d => c.endLine < d.startLine)
    {c d : Chunk} (hc : c ∈ chunks) (hd : d ∈ chunks) (hne : c ≠ d) :
    c.endLine < d.startLine ∨ d.endLine < c.startLine := by
  induction h with
  | nil => exact absurd hc List.not_mem_nil
  | cons hfirst _ ih =>
    rcases List.mem_cons.mp hc with rfl | hcrest <;> rcases List.mem_cons.mp hd with rfl | hdrest
    · exact absurd rfl hne
    · exact .inl (hfirst d hdrest)
    · exact .inr (hfirst c hcrest)
    · exact ih hcrest hdrest

/-- A piece that is not blank has a line. -/
theorem lines_pos_of_notBlank (h : Text.allBlank p.text = false) : 0 < p.lines.length := by
  rw [Piece.text, allBlank_intercalate] at h
  exact List.length_pos_iff.mpr fun hnone => by simp [hnone] at h

/-- **Pieces that stand one after another make chunks that hold the lines.** -/
theorem Tiles.cuts (h : Tiles 1 pieces lines) : Cuts lines (Document.number pieces) := by
  have hplaced : ∀ c ∈ Document.number pieces, 1 ≤ c.startLine ∧ c.startLine ≤ c.endLine
      ∧ c.endLine ≤ lines.length := by
    intro c hc
    obtain ⟨p, hp, hblank, i, rfl⟩ := mem_number hc
    obtain ⟨before, after, rfl, hstart⟩ := h.stands hp
    have hpos := lines_pos_of_notBlank hblank
    simp only [Piece.chunk, List.length_append]
    omega
  have hapart : (Document.number pieces).Pairwise fun c d => c.endLine < d.startLine :=
    pairwise_number h.apart fun p q i j hblank hpq => by
      have hpos := lines_pos_of_notBlank hblank
      simp only [Piece.chunk]
      omega
  refine ⟨number_numbered pieces, hplaced, hapart, ?_, ?_, ?_⟩
  · intro c hc
    obtain ⟨p, hp, hblank, i, rfl⟩ := mem_number hc
    obtain ⟨before, after, rfl, hstart⟩ := h.stands hp
    have hpos := lines_pos_of_notBlank hblank
    have hlines : linesFromTo (before ++ p.lines ++ after) p.start (p.start + p.lines.length - 1)
        = p.lines := by
      rw [linesFromTo, show p.start - 1 = before.length by omega, List.append_assoc, List.drop_left,
        show p.start + p.lines.length - 1 + 1 - p.start = p.lines.length by omega, List.take_left]
    simp only [Piece.chunk, hlines]
    rfl
  · intro c hc
    obtain ⟨p, hp, hblank, i, rfl⟩ := mem_number hc
    simpa [Piece.chunk] using hblank
  · intro i line hline hblank
    obtain ⟨hi, hget⟩ := List.getElem?_eq_some_iff.mp hline
    obtain ⟨p, hp, hstart, hstop⟩ := h.covers hi
    -- the line is among those of its piece, so the piece is not blank
    have hmem : line ∈ p.lines := by
      obtain ⟨before, after, rfl, hbefore⟩ := h.stands hp
      rw [List.append_assoc, List.getElem?_append_right (by omega),
        List.getElem?_append_left (by omega)] at hline
      exact List.mem_of_getElem? hline
    have hpblank : Text.allBlank p.text = false := by
      rw [Piece.text, allBlank_intercalate]
      exact List.all_eq_false.mpr ⟨line, hmem, by simp [hblank]⟩
    obtain ⟨n, hn⟩ := chunk_mem_number hp hpblank
    have hwithin : (p.chunk n).startLine ≤ i + 1 ∧ i + 1 ≤ (p.chunk n).endLine := by
      simp only [Piece.chunk]
      omega
    refine ⟨p.chunk n, ⟨hn, hwithin⟩, fun d ⟨hd, hdwithin⟩ => ?_⟩
    -- two chunks with a common line are one
    by_contra hne
    rcases apart_of_ne hapart hd hn hne with hlt | hlt <;> omega

/-- The first line of a piece is where the piece says. -/
theorem Tiles.first (h : Tiles 1 pieces lines) (hp : p ∈ pieces) {line : List Char}
    (hline : p.lines.head? = some line) : lines[p.start - 1]? = some line := by
  obtain ⟨before, after, rfl, hstart⟩ := h.stands hp
  obtain ⟨rest, hrest⟩ := List.head?_eq_some_iff.mp hline
  rw [hstart, Nat.add_sub_cancel_left, hrest]
  simp

/-- The pieces of a Markdown document. -/
def markdownPieces (content : List Char) : List Piece := markdownFrom 1 false ⟨none, 1, []⟩ (Text.lines content)

theorem markdownPieces_tiles (content : List Char) : Tiles 1 (markdownPieces content) (Text.lines content) :=
  markdownFrom_tiles 1 false ⟨none, 1, []⟩ (Text.lines content) rfl

/-- A chunk of Markdown with a heading starts at the line that has this heading. -/
theorem heading_of_mem_markdownChunks {content : List Char} {c : Chunk} (hc : c ∈ markdownChunks content)
    {title : String} (htitle : c.heading = some title) :
    ∃ line, (Text.lines content)[c.startLine - 1]? = some line ∧ IsHeading line title.toList := by
  replace hc : c ∈ Document.number (markdownPieces content) := hc
  obtain ⟨p, hp, -, i, rfl⟩ := mem_number hc
  obtain ⟨first, later, hpieces, -, hfirst, -, hlater⟩ :=
    markdownFrom_titled 1 false ⟨none, 1, []⟩ (Text.lines content)
  have hp' : p ∈ first :: later := hpieces ▸ hp
  rcases List.mem_cons.mp hp' with rfl | hp'
  · -- the first piece has no heading
    simp [Piece.chunk, hfirst] at htitle
  · obtain ⟨line, named, hhead, hheading, hline⟩ := hlater p hp'
    have hnamed : String.ofList named = title := by simpa [Piece.chunk, hheading] using htitle
    exact ⟨line, (markdownPieces_tiles content).first hp hhead, by simpa [← hnamed] using hline⟩

/-- Only the first chunk of Markdown may have no heading. -/
theorem heading_of_mem_tail {content : List Char} {c : Chunk} (hc : c ∈ (markdownChunks content).tail) :
    c.heading.isSome = true := by
  obtain ⟨first, later, hpieces, -, -, -, hlater⟩ :=
    markdownFrom_titled 1 false ⟨none, 1, []⟩ (Text.lines content)
  -- a piece after another one is not the open piece
  have hpieces' : (markdownPieces content).Pairwise fun _ q => q.heading.isSome = true := by
    have hsome : ∀ q ∈ later, q.heading.isSome = true := fun q hq => by
      obtain ⟨-, title, -, hheading, -⟩ := hlater q hq
      simp [hheading]
    rw [show markdownPieces content = first :: later from hpieces]
    exact .cons hsome (List.pairwise_of_forall_mem_list fun _ _ q hq => hsome q hq)
  have hchunks : (markdownChunks content).Pairwise fun _ d => d.heading.isSome = true :=
    pairwise_number hpieces' fun p q i j _ hq => by simpa [Piece.chunk] using hq
  cases hcases : markdownChunks content with
  | nil => simp [hcases] at hc
  | cons b rest =>
    rw [hcases] at hc hchunks
    exact (List.pairwise_cons.mp hchunks).1 c hc

end Document

/-! ## §5. Documents in the store. -/

/-- A document whose chunks have numbers of their own is written, whatever the store is like. -/
theorem Store.putDocument_of_distinct (s : Store) (info : FileInfo) {chunks : List Chunk}
    (hdistinct : (chunks.map (·.index)).Nodup) : ∃ done, s.putDocument info chunks = .ok done := by
  have hhas : (s.upsertFile info).1.hasFile (s.upsertFile info).2.1 = true :=
    hasFile_iff.mpr ⟨_, (file?_eq_some (upsertFile_file?_self s info)).1, rfl⟩
  obtain ⟨rows, -, -, hreplace⟩ := replaceChunks_of_distinct hhas hdistinct
  unfold putDocument
  simp only [hreplace]
  exact ⟨_, rfl⟩

namespace Indexer

/-- **A document is refused only because it cannot be read.** The store has no objection to its chunks. -/
theorem index_doc_eq_error_iff (x : Indexer) (d : Disk) (s : Store) (path : String) (force : Bool)
    (e : IndexFailure) : x.index d s .doc path force = .error e ↔ x.read d path = .error e := by
  unfold index
  cases x.read d path with
  | error e' => simp [bind, Except.bind]
  | ok bytes =>
    obtain ⟨done, hdone⟩ := s.putDocument_of_distinct
      ⟨path, (Language.ofPath path).name, Digest.ofBytes bytes, bytes.length,
        estimateTokens (Text.decodeLossy bytes), .doc⟩
      (x.chunks_indices (Language.ofPath path) (Text.decodeLossy bytes))
    simp only [bind, Except.bind, writeDocument, hdone]
    split <;> simp [pure, Except.pure]

end Indexer

namespace Document

/-- **Chunks lose nothing and repeat nothing.** The chunks of a document, cut at headings or by windows, hold
its lines, each line with more than blanks on it once. Windows start at whole multiples of their length. A
chunk with a heading starts at it, and only the first chunk may have none. So the store never has an
objection to the chunks of a document. -/
theorem chunks_hold_lines_once (content : List Char) (window : Nat) :
    (Cuts (Text.lines content) (markdownChunks content)
      ∧ (∀ c ∈ markdownChunks content, ∀ title, c.heading = some title →
          ∃ line, (Text.lines content)[c.startLine - 1]? = some line ∧ IsHeading line title.toList)
      ∧ ∀ c ∈ (markdownChunks content).tail, c.heading.isSome = true)
    ∧ (Cuts (Text.lines content) (lineChunks content window)
      ∧ ∀ c ∈ lineChunks content window,
          (∃ k, c.startLine = k * max 1 window + 1) ∧ c.endLine < c.startLine + max 1 window)
    ∧ ∀ (x : Indexer) (d : Disk) (s : Store) (path : String) (force : Bool) (e : IndexFailure),
        (x.index d s .doc path force = .error e ↔ x.read d path = .error e)
          ∧ (x.index d s .doc path force = .error e → ∀ cause, e ≠ .store cause) := by
  have htiles : Tiles 1 (windowsFrom (max 1 window) (Text.lines content).length 1 (Text.lines content))
      (Text.lines content) := windowsFrom_tiles (by omega) _ 1 _ le_rfl
  refine ⟨⟨(markdownPieces_tiles content).cuts, fun c hc title => heading_of_mem_markdownChunks hc,
    fun c hc => heading_of_mem_tail hc⟩, ⟨htiles.cuts, fun c hc => ?_⟩, fun x d s path force e =>
    ⟨x.index_doc_eq_error_iff d s path force e, fun h =>
      Indexer.read_unstored ((x.index_doc_eq_error_iff d s path force e).mp h)⟩⟩
  obtain ⟨p, hp, hblank, i, rfl⟩ := mem_number hc
  obtain ⟨-, ⟨k, hstart⟩, hlength⟩ := mem_windowsFrom hp
  have hpos := lines_pos_of_notBlank hblank
  refine ⟨⟨k, by rw [show (p.chunk i).startLine = p.start from rfl, hstart, Nat.add_comm]⟩, ?_⟩
  simp only [Piece.chunk]
  omega

end Document

end CodeIndex
