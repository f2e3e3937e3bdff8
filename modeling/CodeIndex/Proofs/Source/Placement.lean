import Mathlib
import CodeIndex.Proofs.Source.Outline
import CodeIndex.Proofs.Source.Reading
import CodeIndex.Proofs.Source.Scanning

/-!
# Where symbols are placed

A symbol begins on the line that declares it and ends on that line or on a later one, never past the last
line of the file and never further than the look for an end goes. Its name is written on its line, and its
signature is how that line begins once it is trimmed. None of this depends on the source being well formed:
braces that do not balance, quotes that are not closed and headers at the end of the file only change where
the look for the end stops.

Main result: `symbols_placed`.
-/

namespace CodeIndex

variable {language : Language} {content : List Char} {s : Symbol}

/-! ## §1. The line of a symbol. -/

/-- Every symbol is made by a declaration on one of the lines. -/
theorem exists_declaration_of_mem_symbolsFrom {lines : List (List Char)} {number : Nat} {inside : Bool}
    (h : s ∈ language.symbolsFrom number inside lines) :
    ∃ i line rest d, lines.drop i = line :: rest ∧ declaration? language.rules line = some d
      ∧ s = d.symbol language (number + i) line rest := by
  -- on the lines: the first one declares the symbol, or one of the others does
  induction lines generalizing number inside with
  | nil => exact absurd h (by simp [Language.symbolsFrom])
  | cons line rest ih =>
    have hlater : ∀ inside', s ∈ language.symbolsFrom (number + 1) inside' rest →
        ∃ i line' rest' d, (line :: rest).drop i = line' :: rest' ∧ declaration? language.rules line' = some d
          ∧ s = d.symbol language (number + i) line' rest' := by
      intro inside' hs
      obtain ⟨i, line', rest', d, hdrop, hd, rfl⟩ := ih hs
      exact ⟨i + 1, line', rest', d, hdrop, hd, by rw [Nat.add_right_comm, Nat.add_assoc]⟩
    unfold Language.symbolsFrom at h
    simp only at h
    split at h
    · exact hlater _ h
    · split at h
      next d hd =>
        rcases List.mem_cons.mp h with rfl | hs
        · exact ⟨0, line, rest, d, rfl, hd, rfl⟩
        · exact hlater _ hs
      next => exact hlater _ h

theorem exists_declaration_of_mem_symbols (h : s ∈ language.symbols content) :
    ∃ i line rest d, (Text.lines content).drop i = line :: rest ∧ declaration? language.rules line = some d
      ∧ s = d.symbol language (1 + i) line rest := by
  unfold Language.symbols at h
  split at h
  · exact absurd h (by simp)
  · exact exists_declaration_of_mem_symbolsFrom h

/-- **The symbols of a file** come in the order of their lines, one to a line at most. -/
theorem symbols_pairwise (language : Language) (content : List Char) :
    (language.symbols content).Pairwise fun a b => a.startLine < b.startLine := by
  unfold Language.symbols
  split
  · exact List.Pairwise.nil
  · exact List.pairwise_map.mp (symbolsFrom_lines language _ _ _).2

/-- What the first rule finds that finds something, was found by a rule of the table that the line meets. -/
theorem exists_rule_of_declaration? {rules : List Rule} {line : List Char} {d : Declaration}
    (h : declaration? rules line = some d) :
    ∃ rule ∈ rules, ∃ m, rule.program.meets? (Place.start line) = some m
      ∧ rule.kind.admits (m.text .name) line = true ∧ d.name = m.text .name := by
  obtain ⟨rule, hrule, hfound⟩ := List.exists_of_findSome?_eq_some h
  unfold Rule.find? at hfound
  split at hfound
  · split at hfound
    next m hm =>
      split at hfound
      next hadmits =>
        obtain rfl := Option.some.inj hfound
        exact ⟨rule, hrule, m, hm, hadmits, rfl⟩
      next => exact absurd hfound (by simp)
    next => exact absurd hfound (by simp)
  · exact absurd hfound (by simp)

/-- The declared name is not empty, and it is written on the line. -/
theorem declared_name {rules : List Rule} {line : List Char} {d : Declaration}
    (h : declaration? rules line = some d) : d.name ≠ [] ∧ d.name <:+: line := by
  obtain ⟨rule, -, m, hmet, hadmits, hname⟩ := exists_rule_of_declaration? h
  unfold SymbolKind.admits at hadmits
  rw [Bool.and_eq_true, Bool.not_eq_true', List.isEmpty_eq_false_iff] at hadmits
  exact hname ▸ ⟨hadmits.1, meets?_text_infix hmet .name⟩

/-! ## §2. Signatures. -/

theorem dropTrailing_prefix_self (p : Char → Bool) (line : List Char) : Text.dropTrailing p line <+: line := by
  have hsuffix : line.reverse.dropWhile p <:+ line.reverse := List.dropWhile_suffix p
  simpa [Text.dropTrailing] using List.reverse_prefix.mpr hsuffix

theorem trim_infix_self (line : List Char) : Text.trim line <:+: line :=
  (dropTrailing_prefix_self _ _).isInfix.trans (List.dropWhile_suffix _).isInfix

theorem before?_prefix_self {piece line rest : List Char} (h : Text.before? piece line = some rest) :
    rest <+: line := by
  obtain ⟨kept, hkept, rfl⟩ := Option.map_eq_some_iff.mp h
  have hsplit : piece.reverse ++ kept = line.reverse := List.isPrefixOf?_eq_some_iff_append_eq.mp hkept
  exact ⟨piece, by simpa using congrArg List.reverse hsplit⟩

theorem dropOpener_prefix_self (line : List Char) : dropOpener line <+: line := by
  unfold dropOpener
  split
  next rest hrest => exact before?_prefix_self hrest
  next =>
    cases hcolon : Text.before? [':'] line with
    | none => exact List.prefix_rfl
    | some rest => exact before?_prefix_self hcolon

/-- A signature is how the trimmed line begins. -/
theorem signature_prefix_trim (line : List Char) : signature line <+: Text.trim line :=
  (List.take_prefix _ _).trans ((dropTrailing_prefix_self _ _).trans (dropOpener_prefix_self _))

theorem length_signature_le (line : List Char) : (signature line).length ≤ maxSignature :=
  List.length_take_le _ _

/-- A line feed is on no line: it ends one. -/
theorem feed_notMem_push {c : Char} {r : Text.LinesRead} (h : ∀ line ∈ r.lines, '\n' ∉ line) :
    ∀ line ∈ (r.push c).lines, '\n' ∉ line := by
  unfold Text.LinesRead.push
  split
  next => exact List.forall_mem_cons.mpr ⟨List.not_mem_nil, h⟩
  next hfeed =>
    have hc : '\n' ≠ c := fun hc => hfeed (beq_iff_eq.mpr hc.symm)
    split
    · exact h
    · split
      next => simpa using hc
      next line rest hlines =>
        obtain ⟨hline, hrest⟩ := List.forall_mem_cons.mp (hlines ▸ h)
        exact List.forall_mem_cons.mpr ⟨fun hmem => (List.mem_cons.mp hmem).elim hc hline, hrest⟩

theorem feed_notMem_lines (content : List Char) : ∀ line ∈ Text.lines content, '\n' ∉ line := by
  unfold Text.lines
  induction content with
  | nil => exact fun line hline => absurd hline List.not_mem_nil
  | cons c content ih => exact feed_notMem_push ih

/-! ## §3. How far the look for an end goes. -/

theorem braceExtent_go_le (charLiterals : Bool) (offset : Nat) (nesting : Nesting) (line : List Char)
    (rest : List (List Char)) :
    braceExtent.go charLiterals offset nesting (line :: rest) ≤ offset + rest.length := by
  induction rest generalizing offset nesting line with
  | nil =>
    rw [braceExtent.go]
    split
    · exact Nat.le_add_right _ _
    · split_ifs <;> simp_all
  | cons next rest ih =>
    rw [braceExtent.go]
    split
    · exact Nat.le_add_right _ _
    · split
      · exact Nat.le_add_right _ _
      · refine (ih (offset + 1) _ next).trans ?_
        rw [List.length_cons]
        omega

theorem headerExtent_go_le (offset : Nat) (balance : Int) (line : List Char) (rest : List (List Char)) :
    headerExtent.go offset balance (line :: rest) ≤ offset + rest.length := by
  induction rest generalizing offset balance line with
  | nil => simp [headerExtent.go]
  | cons next rest ih =>
    rw [headerExtent.go]
    split
    · exact Nat.le_add_right _ _
    · refine (ih (offset + 1) _ next).trans ?_
      rw [List.length_cons]
      omega

theorem bodyExtent_lt (base : Nat) {last offset : Nat} (h : last < offset) (lines : List (List Char)) :
    bodyExtent base last offset lines < offset + lines.length := by
  induction lines generalizing last offset with
  | nil => exact h
  | cons line rest ih =>
    rw [bodyExtent, List.length_cons]
    split
    · exact (ih (Nat.lt_succ_of_lt h)).trans_eq (by omega)
    · split
      · omega
      · exact (ih (Nat.lt_succ_self offset)).trans_eq (by omega)

/-- The lines that are looked at, the first one of them apart. -/
theorem take_maxBodyLines (line : List Char) (rest : List (List Char)) :
    (line :: rest).take maxBodyLines = line :: rest.take 4999 := rfl

theorem braceExtent_le (charLiterals : Bool) (line : List Char) (rest : List (List Char)) :
    braceExtent charLiterals (line :: rest) ≤ min 4999 rest.length := by
  unfold braceExtent
  rw [take_maxBodyLines, ← List.length_take]
  exact (braceExtent_go_le _ _ _ _ _).trans_eq (Nat.zero_add _)

theorem headerExtent_le (line : List Char) (rest : List (List Char)) :
    headerExtent (line :: rest) ≤ min 4999 rest.length := by
  unfold headerExtent
  rw [take_maxBodyLines, ← List.length_take]
  exact (headerExtent_go_le _ _ _ _).trans_eq (Nat.zero_add _)

/-- A body that is indented is looked for behind its header. -/
theorem indentExtent_le (line : List Char) (rest : List (List Char)) :
    indentExtent (line :: rest) ≤ min 9999 rest.length := by
  have hheader := headerExtent_le line rest
  have hbody : indentExtent (line :: rest) < headerExtent (line :: rest) + 1
      + (((line :: rest).drop (headerExtent (line :: rest) + 1)).take maxBodyLines).length :=
    bodyExtent_lt _ (Nat.lt_succ_self _) _
  rw [List.length_take, List.length_drop, List.length_cons, maxBodyLines] at hbody
  -- the header and the body are each cut to the limit, so both together to twice the limit
  omega

/-- **An extent** stays on the lines that there are, and below twice the number that is looked at. -/
theorem extent_le (language : Language) (line : List Char) (rest : List (List Char)) :
    language.extent (line :: rest) ≤ min 9999 rest.length := by
  have hbraces := fun charLiterals => braceExtent_le charLiterals line rest
  cases language with
  | python => exact indentExtent_le line rest
  | rust => exact (hbraces true).trans (by omega)
  | typeScript | javaScript | go | java | c | cpp | markdown | text | unknown =>
    exact (hbraces false).trans (by omega)

/-! ## §4. Symbols are well placed. -/

/-- A symbol stands well on the lines of its file. -/
structure Symbol.PlacedOn (lines : List (List Char)) (s : Symbol) : Prop where
  /-- Lines are counted from one. -/
  counted : 1 ≤ s.startLine
  forward : s.startLine ≤ s.endLine
  inside : s.endLine ≤ lines.length
  short : s.endLine - s.startLine < 10000
  named : s.name ≠ ""
  /-- The name is written on the first line, and the signature is how that line begins. -/
  declared : ∃ line, lines[s.startLine - 1]? = some line
    ∧ s.name.toList <:+: line ∧ s.signature.toList <+: Text.trim line
  /-- The signature is one line, and not a long one. -/
  cut : s.signature.length ≤ 240
  unbroken : '\n' ∉ s.signature.toList

theorem placedOn_of_mem_symbols (h : s ∈ language.symbols content) : s.PlacedOn (Text.lines content) := by
  obtain ⟨i, line, rest, d, hdrop, hd, rfl⟩ := exists_declaration_of_mem_symbols h
  obtain ⟨hnonempty, hwritten⟩ := declared_name hd
  have hlength : (Text.lines content).length = i + (rest.length + 1) := by
    have hcount := congrArg List.length hdrop
    rw [List.length_drop, List.length_cons] at hcount
    omega
  have hat : (Text.lines content)[i]? = some line := by
    rw [← Nat.add_zero i, ← List.getElem?_drop, hdrop, List.getElem?_cons_zero]
  have hextent : language.extent (line :: rest) ≤ min 9999 rest.length := extent_le language line rest
  have hfeed : '\n' ∉ line := feed_notMem_lines content line (List.mem_of_getElem? hat)
  refine ⟨?_, ?_, ?_, ?_, ?_, ⟨line, ?_, ?_, ?_⟩, ?_, ?_⟩
  all_goals simp only [Declaration.symbol, String.toList_ofList, String.length_ofList]
  · omega
  · omega
  · omega
  · omega
  · simpa using hnonempty
  · rw [Nat.add_sub_cancel_left]
    exact hat
  · exact hwritten
  · exact signature_prefix_trim line
  · exact length_signature_le line
  · exact fun hmem => hfeed ((trim_infix_self line).subset ((signature_prefix_trim line).subset hmem))

/-- **Symbols are well placed**, whatever the source: on lines that increase strictly, each from a line that
declares it to a line of the file, with a name and a signature that this line holds; and no scan for braces
reads past the end of a line. -/
theorem symbols_placed (language : Language) (content : List Char) :
    (language.symbols content).Pairwise (fun a b => a.startLine < b.startLine)
      ∧ (∀ s ∈ language.symbols content, s.PlacedOn (Text.lines content))
      ∧ ∀ charLiterals chars,
          scanFrom charLiterals chars none 0 = some (braces charLiterals .code chars) :=
  ⟨symbols_pairwise language content, fun _ h => placedOn_of_mem_symbols h,
    fun _ chars => scanFrom_eq chars none 0⟩

end CodeIndex
