import Mathlib
import CodeIndex.Proofs.Source.Placement

/-!
# Symbols nest

A symbol that begins on a line of another one ends where the other ends, or before. The two ends are looked
for by scans that know nothing of each other. Where bodies stand between braces, the outer scan has a brace
open when the inner one begins, so from there on it stands deeper by one at least (`Nesting.Inside`): when it
has closed all that it opened, so has the inner one. Where bodies are indented, the inner symbol is indented
further than the outer one, and a line that ends the outer body ends the inner one.

Main result: `symbols_nest`.
-/

namespace CodeIndex

/-! ## §1. Extents without a limit. -/

/-- A language in which characters are written between apostrophes, and apostrophes have other uses. -/
def Language.charLiterals (language : Language) : Bool := language == .rust

/-- The braces of some lines, outside texts and comments. -/
def Language.bracesOn (language : Language) (lines : List (List Char)) : List Brace :=
  lines.flatMap (braces language.charLiterals .code)

/-- The lines after the first that belong to a declaration, if all lines are looked at for its end. -/
def Language.fullExtent (language : Language) (lines : List (List Char)) : Nat :=
  if language = .python then
    let header := headerExtent.go 0 0 lines
    bodyExtent (((lines.head?).map indentation).getD 0) header (header + 1) (lines.drop (header + 1))
  else braceExtent.go language.charLiterals 0 ⟨0, false⟩ lines

theorem Language.extent_of_ne {language : Language} (h : language ≠ .python) (lines : List (List Char)) :
    language.extent lines
      = braceExtent.go language.charLiterals 0 ⟨0, false⟩ (lines.take maxBodyLines) := by
  cases language with
  | python => exact absurd rfl h
  | rust | typeScript | javaScript | go | java | c | cpp | markdown | text | unknown => rfl

/-! ## §2. Braces. -/

/-- A brace is open. -/
structure Nesting.Open (n : Nesting) : Prop where
  opened : n.opened = true
  deep : 1 ≤ n.depth

/-- **Two scans at one place**, with some braces ahead: the outer one stands deeper, and if the inner one has
not met a brace yet, the next one does not close. -/
structure Nesting.Inside (inner outer : Nesting) (ahead : List Brace) : Prop where
  outerOpen : outer.Open
  deeper : inner.depth + 1 ≤ outer.depth
  fresh : inner.opened = false → inner.depth = 0 ∧ ahead.head? ≠ some .closing

variable {inner outer n n' : Nesting} {bs ahead : List Brace}

theorem Nesting.Open.up (h : n.Open) : Nesting.Open ⟨n.depth + 1, true⟩ := by
  have hdeep := h.deep
  exact ⟨rfl, show 1 ≤ n.depth + 1 by omega⟩

theorem Nesting.open_down {depth : Int} (h : ¬ depth - 1 ≤ 0) : Nesting.Open ⟨depth - 1, true⟩ :=
  ⟨rfl, show 1 ≤ depth - 1 by omega⟩

/-- A scan that stands open goes on at every opening brace. -/
theorem Nesting.Open.after_opening (h : n.Open) :
    n.after (.opening :: bs) = Nesting.after ⟨n.depth + 1, true⟩ bs := by
  have hdeep := h.deep
  rw [Nesting.after, if_neg (show ¬ n.depth + 1 ≤ 0 by omega)]

/-- A scan that has met a brace goes on at a closing brace unless that closes the last one. -/
theorem Nesting.after_closing (hopened : n.opened = true) :
    n.after (.closing :: bs) = if n.depth - 1 ≤ 0 then none else Nesting.after ⟨n.depth - 1, true⟩ bs := by
  rw [Nesting.after, hopened, Bool.true_and]
  simp only [decide_eq_true_eq]

/-- What is open stays open until the scan ends. -/
theorem Nesting.Open.after (h : n.Open) (hafter : n.after bs = some n') : n'.Open := by
  induction bs generalizing n with
  | nil =>
    obtain rfl := Option.some.inj hafter
    exact h
  | cons b bs ih =>
    cases b with
    | opening =>
      rw [h.after_opening] at hafter
      exact ih h.up hafter
    | closing =>
      rw [Nesting.after_closing h.opened] at hafter
      by_cases hclosed : n.depth - 1 ≤ 0
      · rw [if_pos hclosed] at hafter
        exact absurd hafter (by simp)
      · rw [if_neg hclosed] at hafter
        exact ih (Nesting.open_down hclosed) hafter

/-- **Two scans over one line**: the inner one ends on it, or neither does and they stand as they stood. -/
theorem Nesting.Inside.after (h : inner.Inside outer (bs ++ ahead)) :
    inner.after bs = none ∨ ∃ inner' outer', inner.after bs = some inner' ∧ outer.after bs = some outer'
      ∧ inner'.Inside outer' ahead := by
  -- brace by brace: both depths change alike, so the distance stays
  induction bs generalizing inner outer with
  | nil => exact .inr ⟨inner, outer, rfl, rfl, h⟩
  | cons b bs ih =>
    have hdeeper := h.deeper
    cases b with
    | opening =>
      rw [h.outerOpen.after_opening, Nesting.after]
      by_cases hclosed : inner.depth + 1 ≤ 0
      · exact .inl (if_pos hclosed)
      · rw [if_neg hclosed]
        have hdistance : inner.depth + 1 + 1 ≤ outer.depth + 1 := by omega
        exact ih ⟨h.outerOpen.up, hdistance, fun hno => absurd hno (by simp)⟩
    | closing =>
      -- the inner scan has met a brace before, for this one closes
      have hopened : inner.opened = true := by
        by_contra hno
        exact (h.fresh (by simpa using hno)).2 rfl
      rw [Nesting.after_closing hopened, Nesting.after_closing h.outerOpen.opened]
      by_cases hclosed : inner.depth - 1 ≤ 0
      · exact .inl (if_pos hclosed)
      · have houter : ¬ outer.depth - 1 ≤ 0 := by omega
        have hdistance : inner.depth - 1 + 1 ≤ outer.depth - 1 := by omega
        rw [if_neg hclosed, if_neg houter]
        exact ih ⟨Nesting.open_down houter, hdistance, fun hno => absurd hno (by simp)⟩

variable {charLiterals : Bool} {lines : List (List Char)}

/-- One line of an open scan: it ends there, or it goes on if lines are left. -/
theorem braceExtent_go_open (h : n.Open) (offset : Nat) (line : List Char) (rest : List (List Char)) :
    braceExtent.go charLiterals offset n (line :: rest)
      = match n.after (braces charLiterals .code line) with
        | none => offset
        | some n' => if rest.isEmpty then offset else braceExtent.go charLiterals (offset + 1) n' rest := by
  rw [braceExtent.go]
  cases hafter : n.after (braces charLiterals .code line) with
  | none => rfl
  | some n' => simp [(h.after hafter).opened]

/-- An open scan ends on one of its lines. -/
theorem le_braceExtent_go (h : n.Open) (offset : Nat) (hlines : lines ≠ []) :
    offset ≤ braceExtent.go charLiterals offset n lines := by
  induction lines generalizing n offset with
  | nil => exact absurd rfl hlines
  | cons line rest ih =>
    rw [braceExtent_go_open h]
    split
    · exact le_rfl
    next n' hafter =>
      split
      · exact le_rfl
      next hrest =>
        exact (Nat.le_succ offset).trans (ih (h.after hafter) (offset + 1) (by simpa using hrest))

/-- An open scan that goes on for some lines stands open there. -/
theorem braceExtent_go_drop (h : n.Open) (offset k : Nat) (hlines : lines ≠ [])
    (hk : offset + k ≤ braceExtent.go charLiterals offset n lines) :
    ∃ n' : Nesting, n'.Open ∧ lines.drop k ≠ []
      ∧ braceExtent.go charLiterals offset n lines
        = braceExtent.go charLiterals (offset + k) n' (lines.drop k) := by
  induction k generalizing n offset lines with
  | zero => exact ⟨n, h, hlines, rfl⟩
  | succ k ih =>
    cases lines with
    | nil => exact absurd rfl hlines
    | cons line rest =>
      rw [braceExtent_go_open h] at hk ⊢
      split at hk
      · omega
      next n' hafter =>
        split at hk
        · omega
        next hrest =>
          have hmore : offset + 1 + k ≤ braceExtent.go charLiterals (offset + 1) n' rest := by omega
          obtain ⟨n'', hopen, hdrop, hgo⟩ := ih (h.after hafter) (offset + 1) (by simpa using hrest) hmore
          refine ⟨n'', hopen, hdrop, ?_⟩
          rw [if_neg hrest, hgo, List.drop_succ_cons, Nat.add_right_comm, Nat.add_assoc]

/-- **An inner scan ends first**, also if it looks at fewer lines. The two count lines from places of their own. -/
theorem braceExtent_go_inside (h : inner.Inside outer (lines.flatMap (braces charLiterals .code)))
    (hlines : lines ≠ []) (limit offset offset' : Nat) :
    offset' + braceExtent.go charLiterals offset inner (lines.take limit)
      ≤ offset + braceExtent.go charLiterals offset' outer lines := by
  induction lines generalizing inner outer limit offset offset' with
  | nil => exact absurd rfl hlines
  | cons line rest ih =>
    have houter : offset' ≤ braceExtent.go charLiterals offset' outer (line :: rest) :=
      le_braceExtent_go h.outerOpen offset' hlines
    -- wherever the inner scan ends on this line, the outer one does not end before
    have hends : ∀ found, found ≤ offset →
        offset' + found ≤ offset + braceExtent.go charLiterals offset' outer (line :: rest) := by
      intro found hfound
      omega
    cases limit with
    | zero => exact hends 0 (Nat.zero_le _)
    | succ limit =>
      rw [List.take_succ_cons, braceExtent.go]
      rw [List.flatMap_cons] at h
      rcases h.after with hinner | ⟨inner', outer', hinner, houter', hinside⟩
      · rw [hinner]
        exact hends offset le_rfl
      · rw [hinner]
        simp only
        split
        · exact hends offset le_rfl
        · split
          · split
            · exact hends offset le_rfl
            · exact hends 0 (Nat.zero_le _)
          next hmore =>
            have hrest : rest ≠ [] := by
              rintro rfl
              exact hmore (by simp)
            rw [braceExtent_go_open h.outerOpen, houter']
            simp only
            rw [if_neg (by simpa using hrest)]
            have hlater := ih hinside hrest limit (offset + 1) (offset' + 1)
            omega

/-- A scan of which the first line begins with an opening brace goes on open, if it goes on. -/
theorem braceExtent_go_first {line : List Char} {rest : List (List Char)}
    (hfirst : (braces charLiterals .code line).head? = some .opening)
    (hon : 1 ≤ braceExtent.go charLiterals 0 ⟨0, false⟩ (line :: rest)) :
    ∃ n' : Nesting, n'.Open ∧ rest ≠ []
      ∧ braceExtent.go charLiterals 0 ⟨0, false⟩ (line :: rest)
        = braceExtent.go charLiterals 1 n' rest := by
  obtain ⟨bs, hbs⟩ := List.head?_eq_some_iff.mp hfirst
  have hopen : Nesting.Open ⟨1, true⟩ := ⟨rfl, le_rfl⟩
  have hline : (⟨0, false⟩ : Nesting).after (braces charLiterals .code line) = (⟨1, true⟩ : Nesting).after bs := by
    rw [hbs]
    rfl
  rw [braceExtent.go, hline] at hon ⊢
  split at hon
  · omega
  next n' hafter =>
    have hopen' := hopen.after hafter
    rw [hopen'.opened] at hon ⊢
    simp only [Bool.not_true, Bool.false_and, Bool.false_eq_true, if_false, if_true] at hon ⊢
    split at hon
    · omega
    next hrest => exact ⟨n', hopen', by simpa using hrest, by rw [if_neg hrest]⟩

/-- **Bodies between braces nest.** -/
theorem braceExtent_nested {line : List Char} {rest : List (List Char)} {k : Nat}
    (hfirst : (braces charLiterals .code line).head? = some .opening)
    (hahead : ((rest.drop k).flatMap (braces charLiterals .code)).head? ≠ some .closing)
    (hk : k + 1 ≤ braceExtent.go charLiterals 0 ⟨0, false⟩ (line :: rest)) (limit : Nat) :
    k + 1 + braceExtent.go charLiterals 0 ⟨0, false⟩ ((rest.drop k).take limit)
      ≤ braceExtent.go charLiterals 0 ⟨0, false⟩ (line :: rest) := by
  obtain ⟨n₁, hopen₁, hrest, hgo₁⟩ := braceExtent_go_first hfirst ((Nat.le_add_left 1 k).trans hk)
  rw [hgo₁, Nat.add_comm k 1] at hk
  obtain ⟨n₂, hopen₂, hdrop, hgo₂⟩ := braceExtent_go_drop hopen₁ 1 k hrest hk
  have hinside : (⟨0, false⟩ : Nesting).Inside n₂ ((rest.drop k).flatMap (braces charLiterals .code)) :=
    ⟨hopen₂, (zero_add (1 : Int)).trans_le hopen₂.deep, fun _ => ⟨rfl, hahead⟩⟩
  rw [hgo₁, hgo₂, Nat.add_comm k 1]
  exact (braceExtent_go_inside hinside hdrop limit 0 (1 + k)).trans_eq (Nat.zero_add _)

/-! ## §3. Indentation. -/

/-- The last line of a body is not before those that are known to belong to it. -/
theorem le_bodyExtent (base : Nat) {last offset : Nat} (h : last < offset) (lines : List (List Char)) :
    last ≤ bodyExtent base last offset lines := by
  induction lines generalizing last offset with
  | nil => exact le_rfl
  | cons line rest ih =>
    rw [bodyExtent]
    split
    · exact ih (Nat.lt_succ_of_lt h)
    · split
      · exact le_rfl
      · exact h.le.trans (ih (Nat.lt_add_one offset))

/-- A line with ink that a body reaches is indented further than its first line, and the body goes on behind. -/
theorem bodyExtent_drop {base last offset k : Nat} {line : List Char} {rest : List (List Char)}
    (hlast : last < offset) (hdrop : lines.drop k = line :: rest) (hink : Text.allBlank line = false)
    (hk : offset + k ≤ bodyExtent base last offset lines) :
    base < indentation line
      ∧ bodyExtent base last offset lines = bodyExtent base (offset + k) (offset + k + 1) rest := by
  induction k generalizing last offset lines with
  | zero =>
    rw [List.drop_zero] at hdrop
    rw [hdrop, bodyExtent, hink, if_neg Bool.false_ne_true] at hk ⊢
    split at hk
    · omega
    next hindented => exact ⟨by omega, by rw [if_neg hindented]; rfl⟩
  | succ k ih =>
    cases lines with
    | nil => exact absurd hdrop (by simp)
    | cons first more =>
      rw [List.drop_succ_cons] at hdrop
      rw [bodyExtent] at hk ⊢
      rw [show offset + (k + 1) = offset + 1 + k by omega] at hk ⊢
      split at hk
      next hblank =>
        rw [if_pos hblank]
        exact ih (Nat.lt_succ_of_lt hlast) hdrop hk
      next hblank =>
        rw [if_neg hblank]
        split at hk
        · omega
        next hindented =>
          rw [if_neg hindented]
          exact ih (Nat.lt_add_one offset) hdrop hk

/-- **A body that is indented further ends first**, also if it is looked for on fewer lines. -/
theorem bodyExtent_inside {base base' last last' offset offset' : Nat} (hbase : base' < base)
    (hlast : last' < offset') (hbehind : offset' + last ≤ offset + last') (limit : Nat)
    (lines : List (List Char)) :
    offset' + bodyExtent base last offset (lines.take limit)
      ≤ offset + bodyExtent base' last' offset' lines := by
  induction lines generalizing last last' offset offset' limit with
  | nil => simpa [bodyExtent] using hbehind
  | cons line rest ih =>
    have houter := le_bodyExtent base' hlast (line :: rest)
    cases limit with
    | zero =>
      rw [List.take_zero, bodyExtent]
      omega
    | succ limit =>
      rw [List.take_succ_cons, bodyExtent]
      split
      next hblank =>
        rw [bodyExtent, if_pos hblank]
        have hlater := ih (Nat.lt_add_right 1 hlast) (by omega : offset' + 1 + last ≤ offset + 1 + last') limit
        omega
      next hblank =>
        split
        · omega
        next hindented =>
          rw [bodyExtent, if_neg hblank, if_neg (by omega)]
          have hlater := ih (Nat.lt_add_one offset') (by omega : offset' + 1 + offset ≤ offset + 1 + offset') limit
          omega

/-- A header that balances on its first line ends there. -/
theorem headerExtent_go_balanced {line : List Char} (h : bracketBalance line ≤ 0) (rest : List (List Char)) :
    headerExtent.go 0 0 (line :: rest) = 0 := by
  rw [headerExtent.go]
  simp [h]

/-- **Bodies by indentation nest.** -/
theorem indentExtent_nested {line line' : List Char} {rest rest' : List (List Char)} {k : Nat}
    (hbalanced : bracketBalance line ≤ 0) (hbalanced' : bracketBalance line' ≤ 0)
    (hdrop : rest.drop k = line' :: rest') (hink : Text.allBlank line' = false)
    (hk : k + 1 ≤ Language.python.fullExtent (line :: rest)) :
    k + 1 + indentExtent (line' :: rest') ≤ Language.python.fullExtent (line :: rest) := by
  have houter : Language.python.fullExtent (line :: rest) = bodyExtent (indentation line) 0 1 rest := by
    show (let header := headerExtent.go 0 0 (line :: rest)
      bodyExtent (indentation line) header (header + 1) ((line :: rest).drop (header + 1))) = _
    rw [headerExtent_go_balanced hbalanced]
    rfl
  have hinner : indentExtent (line' :: rest')
      = bodyExtent (indentation line') 0 1 (rest'.take maxBodyLines) := by
    have hheader : headerExtent (line' :: rest') = 0 := headerExtent_go_balanced hbalanced' _
    unfold indentExtent
    rw [hheader]
    rfl
  rw [houter, Nat.add_comm k 1] at hk
  obtain ⟨hindented, hgo⟩ := bodyExtent_drop Nat.zero_lt_one hdrop hink hk
  rw [houter, hinner, hgo]
  have hends : 1 + k + 1 + bodyExtent (indentation line') 0 1 (rest'.take maxBodyLines)
      ≤ 1 + bodyExtent (indentation line) (1 + k) (1 + k + 1) rest' :=
    bodyExtent_inside hindented (Nat.lt_add_one (1 + k)) (by omega) maxBodyLines rest'
  omega

/-! ## §4. A line that declares has ink on it. -/

theorem asksInk_text {s : String} {c : Char} {more : List Char} (h : s.toList = c :: more)
    (hink : Text.isBlank c = false) : (Pattern.text s).AsksInk := by
  unfold Pattern.text
  rw [h]
  exact .inl fun d hd => by rw [eq_of_beq hd]; exact hink

/-- Every rule for Python asks for a bracket, a keyword or an equals sign. -/
theorem pythonRules_askInk : ∀ rule ∈ pythonRules, ∃ pattern : Pattern,
    rule.program = pattern.program ∧ pattern.AsksInk := by
  have hbracket : (Pattern.text "(").AsksInk := asksInk_text (c := '(') rfl rfl
  have hclass : (Pattern.text "class").AsksInk := asksInk_text (c := 'c') rfl rfl
  have hequals : (Pattern.text "=").AsksInk := asksInk_text (c := '=') rfl rfl
  simp only [pythonRules, List.forall_mem_cons]
  refine ⟨⟨_, rfl, .inr hbracket⟩, ⟨_, rfl, .inr hbracket⟩, ⟨_, rfl, .inl (.inr (.inl hclass))⟩,
    ⟨_, rfl, .inr (.inl (.inr hequals))⟩, ⟨_, rfl, .inr (.inl (.inr hequals))⟩, ?_⟩
  exact fun rule hrule => absurd hrule List.not_mem_nil

theorem declared_ink {line : List Char} {d : Declaration} (h : declaration? pythonRules line = some d) :
    Text.allBlank line = false := by
  obtain ⟨rule, hrule, m, hmet, -, -⟩ := exists_rule_of_declaration? h
  obtain ⟨pattern, hprogram, hasks⟩ := pythonRules_askInk rule hrule
  obtain ⟨q, hmeets⟩ := meets?_sound (hprogram ▸ hmet)
  obtain ⟨c, hc, hink⟩ := hmeets.exists_ink hasks
  exact List.all_eq_false.mpr ⟨c, hc, by simp [hink]⟩

/-! ## §5. Symbols nest. -/

/-- The lines of a text from a numbered one on. -/
def linesFrom (content : List Char) (number : Nat) : List (List Char) := (Text.lines content).drop (number - 1)

/-- **Symbols nest.** A symbol that begins on a line of another one does not end behind it, unless the look for
the end of the outer one was cut off. Where bodies stand between braces, the outer one has to open a brace on
its first line before it closes one, and no brace may close from the inner one on before one opens. In Python
the brackets of both first lines have to balance there. -/
theorem symbols_nest {language : Language} {content : List Char} {a b : Symbol}
    (ha : a ∈ language.symbols content) (hb : b ∈ language.symbols content)
    (hafter : a.startLine < b.startLine) (hinside : b.startLine ≤ a.endLine)
    (huncut : a.endLine = a.startLine + language.fullExtent (linesFrom content a.startLine))
    (hbraces : language ≠ .python →
      (language.bracesOn ((linesFrom content a.startLine).take 1)).head? = some .opening
        ∧ (language.bracesOn (linesFrom content b.startLine)).head? ≠ some .closing)
    (hbrackets : language = .python →
      (∀ line ∈ (linesFrom content a.startLine).head?, bracketBalance line ≤ 0)
        ∧ ∀ line ∈ (linesFrom content b.startLine).head?, bracketBalance line ≤ 0) :
    b.endLine ≤ a.endLine := by
  obtain ⟨i, line, rest, d, hdrop, -, rfl⟩ := exists_declaration_of_mem_symbols ha
  obtain ⟨j, line', rest', d', hdrop', hd', rfl⟩ := exists_declaration_of_mem_symbols hb
  simp only [Declaration.symbol] at hafter hinside huncut hbraces hbrackets ⊢
  have hlines : linesFrom content (1 + i) = line :: rest := by rw [linesFrom, Nat.add_sub_cancel_left, hdrop]
  have hlines' : linesFrom content (1 + j) = line' :: rest' := by rw [linesFrom, Nat.add_sub_cancel_left, hdrop']
  rw [hlines] at huncut hbraces hbrackets
  rw [hlines'] at hbraces hbrackets
  -- the inner symbol is `k` lines behind the second line of the outer one
  obtain ⟨k, rfl⟩ : ∃ k, j = i + 1 + k := Nat.exists_eq_add_of_le (by omega)
  have hbehind : rest.drop k = line' :: rest' := by
    rw [← hdrop', Nat.add_assoc, ← List.drop_drop, hdrop, Nat.add_comm 1 k, List.drop_succ_cons]
  have hk : k + 1 ≤ language.fullExtent (line :: rest) := by omega
  have hends : k + 1 + language.extent (line' :: rest') ≤ language.fullExtent (line :: rest) := by
    by_cases hlanguage : language = .python
    · subst hlanguage
      obtain ⟨hbalanced, hbalanced'⟩ := hbrackets rfl
      exact indentExtent_nested (hbalanced line rfl) (hbalanced' line' rfl) hbehind (declared_ink hd') hk
    · obtain ⟨hfirst, hahead⟩ := hbraces hlanguage
      rw [Language.fullExtent, if_neg hlanguage] at hk ⊢
      rw [Language.extent_of_ne hlanguage, ← hbehind]
      rw [← hbehind] at hahead
      exact braceExtent_nested (by simpa [Language.bracesOn] using hfirst) hahead hk maxBodyLines
  omega

/-- A function inside a function between braces, and a method inside an indented class. -/
theorem inner_symbols_nest :
    (∃ a b, Language.rust.symbols "fn a() \x7b\n fn b() \x7b\x7d\n\x7d".toList = [a, b]
      ∧ a.startLine < b.startLine ∧ b.startLine ≤ a.endLine ∧ b.endLine ≤ a.endLine)
    ∧ ∃ a b, Language.python.symbols "class A:\n def f():\n  x()".toList = [a, b]
      ∧ a.startLine < b.startLine ∧ b.startLine ≤ a.endLine ∧ b.endLine ≤ a.endLine := by
  constructor
  · have hsymbols : Language.rust.symbols "fn a() \x7b\n fn b() \x7b\x7d\n\x7d".toList
        = [⟨"a", .function, "fn a()", 1, 3, false⟩, ⟨"b", .method, "fn b() \x7b\x7d", 2, 2, false⟩] := by
      decide +kernel
    refine ⟨_, _, hsymbols, by decide, by decide, ?_⟩
    refine symbols_nest (hsymbols ▸ List.mem_cons_self) (hsymbols ▸ List.mem_cons_of_mem _ List.mem_cons_self)
      (by decide) (by decide) (by decide +kernel) (fun _ => by decide +kernel) (fun h => absurd h (by decide))
  · have hsymbols : Language.python.symbols "class A:\n def f():\n  x()".toList
        = [⟨"A", .classLike, "class A", 1, 3, true⟩, ⟨"f", .method, "def f()", 2, 3, true⟩] := by
      decide +kernel
    refine ⟨_, _, hsymbols, by decide, by decide, ?_⟩
    refine symbols_nest (hsymbols ▸ List.mem_cons_self) (hsymbols ▸ List.mem_cons_of_mem _ List.mem_cons_self)
      (by decide) (by decide) (by decide +kernel) (fun h => absurd rfl h) (fun _ => by decide +kernel)

end CodeIndex
