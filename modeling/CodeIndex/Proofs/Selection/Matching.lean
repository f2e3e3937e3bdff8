import Mathlib
import CodeIndex.Selection.GlobSet

/-!
# What a glob covers

A glob is matched by a table: for what remains of a path after each of its bytes, whether that is accepted.
The table is made from the last piece of the glob to the first. Here it is told what the table decides: a
path is accepted if it is put together from texts that the pieces spell, one after another (`Spells`).

A table marks a set of texts if it has the right answer for each remainder of the path (`Marks`). Every step
of the matching takes a table that marks one set to a table that marks another, and so does every piece
(`beforePiece_marks`), by recursion over the pieces of a glob and those inside of its groups.

Main result: `coversAll_iff`.
-/

namespace CodeIndex.Glob

open Text (Bytes)

/-! ## §1. Texts that pieces spell. -/

mutual

/-- A text is spelled by a piece. -/
inductive PieceSpells : GlobPiece → Bytes → Prop where
  | literal (c : Char) : PieceSpells (.literal c) (Text.encode [c])
  | any (b : UInt8) : PieceSpells .any [b]
  | run (t : Bytes) : PieceSpells .run t
  /-- There are no directories at the front. -/
  | leadingNone : PieceSpells .leading []
  | leading (t : Bytes) : PieceSpells .leading (t ++ [slash])
  | trailing (t : Bytes) : PieceSpells .trailing (slash :: t)
  /-- There is one slash only. -/
  | betweenNone : PieceSpells .between [slash]
  | between (t : Bytes) : PieceSpells .between (slash :: t ++ [slash])
  | oneOf {negated : Bool} {ranges : List (UInt8 × UInt8)} {b : UInt8}
      (holds : inClass negated ranges b = true) : PieceSpells (.oneOf negated ranges) [b]
  /-- A group without alternatives is nothing. -/
  | groupNone : PieceSpells (.group []) []
  | group {alternatives : List (List GlobPiece)} {pieces : List GlobPiece} {t : Bytes}
      (chosen : pieces ∈ alternatives) (spelled : Spells pieces t) : PieceSpells (.group alternatives) t

/-- A text is spelled by some pieces, one after another. -/
inductive Spells : List GlobPiece → Bytes → Prop where
  | nil : Spells [] []
  | cons {piece : GlobPiece} {rest : List GlobPiece} {t more : Bytes} (first : PieceSpells piece t)
      (others : Spells rest more) : Spells (piece :: rest) (t ++ more)

end

theorem spells_singleton {piece : GlobPiece} {t : Bytes} : Spells [piece] t ↔ PieceSpells piece t := by
  constructor
  · rintro (_ | ⟨first, others⟩)
    cases others
    rw [List.append_nil]
    exact first
  · intro h
    rw [← List.append_nil t]
    exact .cons h .nil

/-- Texts are put one after another as the pieces are that spell them. -/
theorem spells_append (front back : List GlobPiece) :
    ∀ {t : Bytes}, Spells (front ++ back) t ↔ ∃ a b, t = a ++ b ∧ Spells front a ∧ Spells back b := by
  induction front with
  | nil =>
    intro t
    constructor
    · intro h
      exact ⟨[], t, rfl, .nil, h⟩
    · rintro ⟨a, b, rfl, ha, hb⟩
      cases ha
      exact hb
  | cons piece rest ih =>
    intro t
    constructor
    · rintro (_ | ⟨first, others⟩)
      obtain ⟨a, b, rfl, ha, hb⟩ := ih.mp others
      exact ⟨_, b, (List.append_assoc _ _ _).symm, .cons first ha, hb⟩
    · rintro ⟨a, b, rfl, ha, hb⟩
      cases ha with
      | cons first others =>
        rw [List.append_assoc]
        exact .cons first (ih.mpr ⟨_, _, rfl, others, hb⟩)

/-! ## §2. Tables. -/

/-- A table tells for every remainder of a text whether it is accepted. -/
def Marks (accepts : Bytes → Prop) : Bytes → Accepted → Prop
  | [], table => ∃ now : Bool, table = [now] ∧ (now = true ↔ accepts [])
  | b :: s, table => ∃ (now : Bool) (later : Accepted), table = now :: later
      ∧ (now = true ↔ accepts (b :: s)) ∧ Marks accepts s later

namespace Marks

variable {accepts accepts' : Bytes → Prop} {s : Bytes} {table table' : Accepted}

/-- The first entry is about the whole text. -/
theorem headD (h : Marks accepts s table) : table.headD false = true ↔ accepts s := by
  cases s with
  | nil => obtain ⟨now, rfl, hnow⟩ := h; exact hnow
  | cons b s => obtain ⟨now, later, rfl, hnow, -⟩ := h; exact hnow

theorem congr (hiff : ∀ t, accepts t ↔ accepts' t) (h : Marks accepts s table) : Marks accepts' s table := by
  have heq : accepts = accepts' := funext fun t => propext (hiff t)
  exact heq ▸ h

theorem atEnd (s : Bytes) : Marks (· = []) s (atEnd s) := by
  induction s with
  | nil => exact ⟨true, rfl, by simp⟩
  | cons b s ih => exact ⟨false, _, rfl, by simp, ih⟩

theorem afterByte (holds : UInt8 → Bool) :
    ∀ {s : Bytes} {table : Accepted}, Marks accepts s table →
      Marks (fun t => ∃ b rest, t = b :: rest ∧ holds b = true ∧ accepts rest) s (afterByte holds s table) := by
  intro s
  induction s with
  | nil =>
    rintro table ⟨now, rfl, -⟩
    exact ⟨false, rfl, by simp⟩
  | cons b s ih =>
    rintro table ⟨now, later, rfl, -, hlater⟩
    refine ⟨_, _, rfl, ?_, ih hlater⟩
    rw [Bool.and_eq_true, hlater.headD]
    constructor
    · rintro ⟨hb, hrest⟩
      exact ⟨b, s, rfl, hb, hrest⟩
    · rintro ⟨b', rest, heq, hb, hrest⟩
      cases heq
      exact ⟨hb, hrest⟩

theorem afterRun :
    ∀ {s : Bytes} {table : Accepted}, Marks accepts s table →
      Marks (fun t => ∃ a rest, t = a ++ rest ∧ accepts rest) s (afterRun table) := by
  intro s
  induction s with
  | nil =>
    rintro table ⟨now, rfl, hnow⟩
    refine ⟨now, by simp [Glob.afterRun], ?_⟩
    rw [hnow]
    constructor
    · intro h
      exact ⟨[], [], rfl, h⟩
    · rintro ⟨a, rest, heq, hrest⟩
      obtain ⟨-, rfl⟩ := List.append_eq_nil_iff.mp heq.symm
      exact hrest
  | cons b s ih =>
    rintro table ⟨now, later, rfl, hnow, hlater⟩
    have hafter := ih hlater
    refine ⟨_, _, rfl, ?_, hafter⟩
    rw [Bool.or_eq_true, hafter.headD, hnow]
    -- the run is empty, or its first byte is that of the text
    constructor
    · rintro (h | ⟨a, rest, rfl, hrest⟩)
      · exact ⟨[], b :: s, rfl, h⟩
      · exact ⟨b :: a, rest, rfl, hrest⟩
    · rintro ⟨a, rest, heq, hrest⟩
      cases a with
      | nil => cases heq; exact .inl hrest
      | cons b' a => cases heq; exact .inr ⟨a, rest, rfl, hrest⟩

theorem orElse :
    ∀ {s : Bytes} {table table' : Accepted}, Marks accepts s table → Marks accepts' s table' →
      Marks (fun t => accepts t ∨ accepts' t) s (orElse table table') := by
  intro s
  induction s with
  | nil =>
    rintro table table' ⟨now, rfl, hnow⟩ ⟨now', rfl, hnow'⟩
    exact ⟨now || now', rfl, by rw [Bool.or_eq_true, hnow, hnow']⟩
  | cons b s ih =>
    rintro table table' ⟨now, later, rfl, hnow, hlater⟩ ⟨now', later', rfl, hnow', hlater'⟩
    exact ⟨now || now', _, rfl, by rw [Bool.or_eq_true, hnow, hnow'], ih hlater hlater'⟩

theorem never : ∀ {s : Bytes} {table : Accepted}, Marks accepts s table →
    Marks (fun _ => False) s (table.map fun _ => false) := by
  intro s
  induction s with
  | nil =>
    rintro table ⟨now, rfl, -⟩
    exact ⟨false, rfl, by simp⟩
  | cons b s ih =>
    rintro table ⟨now, later, rfl, -, hlater⟩
    exact ⟨false, _, rfl, by simp, ih hlater⟩

theorem afterSlash (h : Marks accepts s table) :
    Marks (fun t => ∃ a rest, t = a ++ slash :: rest ∧ accepts rest) s (afterSlash s table) := by
  refine (h.afterByte (· == slash)).afterRun.congr fun t => ⟨?_, ?_⟩
  · rintro ⟨a, -, rfl, b, rest, rfl, hb, hrest⟩
    obtain rfl : b = slash := by simpa using hb
    exact ⟨a, rest, rfl, hrest⟩
  · rintro ⟨a, rest, rfl, hrest⟩
    exact ⟨a, _, rfl, slash, rest, rfl, by simp, hrest⟩

theorem afterBytes (bytes : Bytes) (h : Marks accepts s table) :
    Marks (fun t => ∃ rest, t = bytes ++ rest ∧ accepts rest) s
      (bytes.foldr (fun b later => Glob.afterByte (· == b) s later) table) := by
  induction bytes with
  | nil => exact h.congr fun t => by simp
  | cons b bytes ih =>
    refine (ih.afterByte (· == b)).congr fun t => ⟨?_, ?_⟩
    · rintro ⟨b', -, rfl, hb, rest, rfl, hrest⟩
      obtain rfl : b' = b := by simpa using hb
      exact ⟨rest, rfl, hrest⟩
    · rintro ⟨rest, rfl, hrest⟩
      exact ⟨b, bytes ++ rest, rfl, by simp, rest, rfl, hrest⟩

end Marks

/-! ## §3. Pieces. -/

/-- What one of some texts and something accepted after it make. -/
def Before (spells accepts : Bytes → Prop) (t : Bytes) : Prop := ∃ a b, t = a ++ b ∧ spells a ∧ accepts b

theorem before_nil (accepts : Bytes → Prop) (t : Bytes) : Before (Spells []) accepts t ↔ accepts t := by
  constructor
  · rintro ⟨a, b, rfl, ha, hb⟩
    cases ha
    exact hb
  · intro h
    exact ⟨[], t, rfl, .nil, h⟩

theorem before_cons (piece : GlobPiece) (rest : List GlobPiece) (accepts : Bytes → Prop) (t : Bytes) :
    Before (PieceSpells piece) (Before (Spells rest) accepts) t ↔ Before (Spells (piece :: rest)) accepts t := by
  constructor
  · rintro ⟨a, -, rfl, ha, b, c, rfl, hb, hc⟩
    exact ⟨a ++ b, c, (List.append_assoc _ _ _).symm, .cons ha hb, hc⟩
  · rintro ⟨ab, c, rfl, hab, hc⟩
    cases hab with
    | cons first others => exact ⟨_, _, List.append_assoc _ _ _, first, _, c, rfl, others, hc⟩

mutual

/-- **A piece in front** of what a table marks. -/
theorem beforePiece_marks {s : Bytes} {accepts : Bytes → Prop} {table : Accepted}
    (h : Marks accepts s table) (piece : GlobPiece) :
    Marks (Before (PieceSpells piece) accepts) s (beforePiece s table piece) := by
  cases piece with
  | literal c =>
    refine (h.afterBytes (Text.encode [c])).congr fun t => ⟨?_, ?_⟩
    · rintro ⟨rest, rfl, hrest⟩
      exact ⟨_, rest, rfl, .literal c, hrest⟩
    · rintro ⟨a, rest, rfl, ha, hrest⟩
      cases ha
      exact ⟨rest, rfl, hrest⟩
  | any =>
    refine (h.afterByte fun _ => true).congr fun t => ⟨?_, ?_⟩
    · rintro ⟨b, rest, rfl, -, hrest⟩
      exact ⟨[b], rest, rfl, .any b, hrest⟩
    · rintro ⟨a, rest, rfl, ha, hrest⟩
      cases ha with
      | any b => exact ⟨b, rest, rfl, rfl, hrest⟩
  | run =>
    refine h.afterRun.congr fun t => ⟨?_, ?_⟩
    · rintro ⟨a, rest, rfl, hrest⟩
      exact ⟨a, rest, rfl, .run a, hrest⟩
    · rintro ⟨a, rest, rfl, -, hrest⟩
      exact ⟨a, rest, rfl, hrest⟩
  | leading =>
    refine (h.orElse h.afterSlash).congr fun t => ⟨?_, ?_⟩
    · rintro (hrest | ⟨a, rest, rfl, hrest⟩)
      · exact ⟨[], t, rfl, .leadingNone, hrest⟩
      · exact ⟨a ++ [slash], rest, by simp, .leading a, hrest⟩
    · rintro ⟨a, rest, rfl, ha, hrest⟩
      cases ha with
      | leadingNone => exact .inl hrest
      | leading a => exact .inr ⟨a, rest, by simp, hrest⟩
  | trailing =>
    refine (h.afterRun.afterByte (· == slash)).congr fun t => ⟨?_, ?_⟩
    · rintro ⟨b, -, rfl, hb, a, rest, rfl, hrest⟩
      obtain rfl : b = slash := by simpa using hb
      exact ⟨slash :: a, rest, rfl, .trailing a, hrest⟩
    · rintro ⟨a, rest, rfl, ha, hrest⟩
      cases ha with
      | trailing a => exact ⟨slash, a ++ rest, rfl, by simp, a, rest, rfl, hrest⟩
  | between =>
    refine ((h.orElse h.afterSlash).afterByte (· == slash)).congr fun t => ⟨?_, ?_⟩
    · rintro ⟨b, rest, rfl, hb, hrest⟩
      obtain rfl : b = slash := by simpa using hb
      rcases hrest with hrest | ⟨a, rest, rfl, hrest⟩
      · exact ⟨[slash], rest, rfl, .betweenNone, hrest⟩
      · exact ⟨slash :: a ++ [slash], rest, by simp, .between a, hrest⟩
    · rintro ⟨a, rest, rfl, ha, hrest⟩
      cases ha with
      | betweenNone => exact ⟨slash, rest, rfl, by simp, .inl hrest⟩
      | between a => exact ⟨slash, a ++ slash :: rest, by simp, by simp, .inr ⟨a, rest, rfl, hrest⟩⟩
  | oneOf negated ranges =>
    refine (h.afterByte (inClass negated ranges)).congr fun t => ⟨?_, ?_⟩
    · rintro ⟨b, rest, rfl, hb, hrest⟩
      exact ⟨[b], rest, rfl, .oneOf hb, hrest⟩
    · rintro ⟨a, rest, rfl, ha, hrest⟩
      cases ha with
      | oneOf hb => exact ⟨_, rest, rfl, hb, hrest⟩
  | group alternatives =>
    cases alternatives with
    | nil =>
      refine h.congr fun t => ⟨fun hrest => ⟨[], t, rfl, .groupNone, hrest⟩, ?_⟩
      rintro ⟨a, rest, rfl, ha, hrest⟩
      cases ha with
      | groupNone => exact hrest
      | group chosen => exact absurd chosen (by simp)
    | cons first others =>
      refine (beforeGroup_marks h (first :: others)).congr fun t => ⟨?_, ?_⟩
      · rintro ⟨pieces, hchosen, a, rest, rfl, ha, hrest⟩
        exact ⟨a, rest, rfl, .group hchosen ha, hrest⟩
      · rintro ⟨a, rest, rfl, ha, hrest⟩
        cases ha with
        | group chosen spelled => exact ⟨_, chosen, a, rest, rfl, spelled, hrest⟩

/-- Pieces in front, one after another. -/
theorem beforePieces_marks {s : Bytes} {accepts : Bytes → Prop} {table : Accepted}
    (h : Marks accepts s table) : ∀ pieces : List GlobPiece,
    Marks (Before (Spells pieces) accepts) s (beforePieces s table pieces)
  | [] => h.congr fun t => (before_nil accepts t).symm
  | piece :: rest =>
    (beforePiece_marks (beforePieces_marks h rest) piece).congr fun t => before_cons piece rest accepts t

/-- One of some alternatives in front. -/
theorem beforeGroup_marks {s : Bytes} {accepts : Bytes → Prop} {table : Accepted}
    (h : Marks accepts s table) : ∀ alternatives : List (List GlobPiece),
    Marks (fun t => ∃ pieces ∈ alternatives, Before (Spells pieces) accepts t) s
      (beforeGroup s table alternatives)
  | [] => h.never.congr fun t => by simp
  | pieces :: rest =>
    ((beforePieces_marks h pieces).orElse (beforeGroup_marks h rest)).congr fun t => by
      simp only [List.mem_cons, exists_eq_or_imp]

end

/-- **What a glob covers**: every path, or those that its pieces spell. -/
theorem coversAll_iff (g : Glob) (path : Bytes) :
    g.coversAll path = true ↔ g.pieces = [.leading] ∨ Spells g.pieces path := by
  have hmarks : (beforePieces path (atEnd path) g.pieces).headD false = true ↔ Spells g.pieces path := by
    rw [(beforePieces_marks (Marks.atEnd path) g.pieces).headD]
    constructor
    · rintro ⟨a, b, rfl, ha, rfl⟩
      rw [List.append_nil]
      exact ha
    · intro h
      exact ⟨path, [], (List.append_nil _).symm, h, rfl⟩
  unfold coversAll
  split
  next hpieces => simp [hpieces]
  next hpieces => rw [hmarks, or_iff_right hpieces]

end CodeIndex.Glob
