import Mathlib
import CodeIndex.Json.Reader
import CodeIndex.Json.Writer

/-!
# Written values are read back

A value without doubles is written so that the reader gets it back: a whole number digit by digit, a text
character by character, and lists and objects item by item, whatever follows in the text. Reading takes
nothing but the value itself, so values may be written one after another. The only limit is that on nesting,
which is a parameter here (`readNested?`), and no written value is longer than one line.

Main results:
  * `readNested?_compact` — a written value is read back, within any limit that its nesting keeps to;
  * `read?_compact` — so it is by the reader with its own limit, if it keeps to that, and only then;
  * `newline_notMem_compact` — a written value stays on one line.
-/

namespace CodeIndex.Json

/-! ## §1. Values. -/

/-- The numbers in a value are whole numbers of 64 bits, signed or unsigned. -/
inductive IsWhole : Json → Prop
  | null : IsWhole .null
  | bool (b : Bool) : IsWhole (.bool b)
  | int {n : Int} (least : -(signedEnd : Int) ≤ n) (greatest : n < (unsignedEnd : Int)) : IsWhole (.num (.int n))
  | str (s : String) : IsWhole (.str s)
  | arr {items : List Json} (each : ∀ v ∈ items, IsWhole v) : IsWhole (.arr items)
  | obj {members : List (String × Json)} (each : ∀ m ∈ members, IsWhole m.2) : IsWhole (.obj members)

mutual

/-- How many lists and objects stand around the innermost value. -/
def nesting : Json → Nat
  | .arr items => itemsNesting items + 1
  | .obj members => membersNesting members + 1
  | _ => 0

def itemsNesting : List Json → Nat
  | [] => 0
  | v :: rest => max (nesting v) (itemsNesting rest)

def membersNesting : List (String × Json) → Nat
  | [] => 0
  | (_, v) :: rest => max (nesting v) (membersNesting rest)

end

/-- The value that a text holds, as it is given there, within a limit on nesting. -/
def readNested? (limit : Nat) (s : List Char) : Option Json := (Written.read? s).bind (Written.valueIn? limit)

/-! ## §2. Numbers. -/

/-- Nothing that would go on with a number. -/
def EndsNumber (rest : List Char) : Prop :=
  ∀ c ∈ rest.head?, c.isDigit = false ∧ c ≠ '.' ∧ c ≠ 'e' ∧ c ≠ 'E'

theorem endsNumber_cons {c : Char} (h : c.isDigit = false ∧ c ≠ '.' ∧ c ≠ 'e' ∧ c ≠ 'E') (rest : List Char) :
    EndsNumber (c :: rest) := by
  intro d hd
  rwa [← Option.some.inj hd]

/-- The digits of a number. -/
def digitsOf (n : Nat) : List Nat := (Nat.toDigits 10 n).map fun c => c.toNat - 48

/-- The parts of a whole number as it is written. -/
def partsOf (n : Int) : Decimal.Parts := ⟨decide (n < 0), digitsOf n.natAbs, [], none⟩

theorem isDigit_of_mem_toDigits {n : Nat} {c : Char} (h : c ∈ Nat.toDigits 10 n) : c.isDigit = true :=
  Nat.isDigit_of_mem_toDigits (by decide) (by decide) h

theorem readDigits_toDigits (n : Nat) {rest : List Char} (h : EndsNumber rest) :
    readDigits (Nat.toDigits 10 n ++ rest) = (digitsOf n, rest) := by
  have hall : ∀ c ∈ Nat.toDigits 10 n, c.isDigit = true := fun c hc => isDigit_of_mem_toDigits hc
  have hstop : rest.takeWhile Char.isDigit = [] ∧ rest.dropWhile Char.isDigit = rest := by
    cases rest with
    | nil => exact ⟨rfl, rfl⟩
    | cons c rest =>
      have hc := (h c rfl).1
      exact ⟨List.takeWhile_cons_of_neg (by simp [hc]), List.dropWhile_cons_of_neg (by simp [hc])⟩
  unfold readDigits digitsOf
  rw [List.takeWhile_append_of_pos hall, List.dropWhile_append_of_pos hall, hstop.1, hstop.2, List.append_nil]

/-- A number of more than one digit does not begin with a zero. -/
theorem digitsOf_cases (n : Nat) :
    (n < 10 ∧ digitsOf n = [n]) ∨ ∃ d more, digitsOf n = d :: more ∧ d ≠ 0 := by
  induction n using Nat.strongRecOn with
  | _ n ih =>
    by_cases hsmall : n < 10
    · left
      refine ⟨hsmall, ?_⟩
      unfold digitsOf
      rw [Nat.toDigits_of_lt_base hsmall, List.map_singleton]
      interval_cases n <;> rfl
    · -- the digits of the tenth part come first, and that is not zero
      have hdigits : digitsOf n = digitsOf (n / 10) ++ [(n % 10).digitChar.toNat - 48] := by
        unfold digitsOf
        rw [Nat.toDigits_of_base_le (by decide) (by omega), List.map_append, List.map_singleton]
      right
      rcases ih (n / 10) (by omega) with ⟨-, hone⟩ | ⟨d, more, hmore, hne⟩
      · exact ⟨n / 10, _, by rw [hdigits, hone, List.singleton_append], by omega⟩
      · exact ⟨d, _, by rw [hdigits, hmore, List.cons_append], hne⟩

theorem value_digitsOf (n : Nat) : (digitsOf n).foldl (fun acc d => acc * 10 + d) 0 = n := by
  calc (digitsOf n).foldl (fun acc d => acc * 10 + d) 0
      = (Nat.toDigits 10 n).foldl (fun acc c => acc * 10 + (c.toNat - 48)) 0 := List.foldl_map
    _ = (Nat.toDigits 10 n).foldl (fun acc c => 10 * acc + (c.toNat - 48)) 0 := by simp only [Nat.mul_comm]
    _ = n := @Nat.ofDigitChars_ten_toDigits n

theorem readWhole_toDigits (n : Nat) {rest : List Char} (h : EndsNumber rest) :
    readWhole (Nat.toDigits 10 n ++ rest) = some (digitsOf n, rest) := by
  unfold readWhole
  rw [readDigits_toDigits n h]
  rcases digitsOf_cases n with ⟨-, hone⟩ | ⟨d, more, hmore, hne⟩
  · rw [hone]
  · rw [hmore]
    cases more with
    | nil => rfl
    | cons d' more =>
      cases d with
      | zero => exact absurd rfl hne
      | succ d => rfl

theorem readFraction_ends {rest : List Char} (h : EndsNumber rest) : readFraction rest = some ([], rest) := by
  cases rest with
  | nil => rfl
  | cons c rest =>
    have hpoint := (h c rfl).2.1
    unfold readFraction
    split
    next heq => exact absurd (List.cons.inj heq).1 hpoint
    next => rfl

theorem readExponent_ends {rest : List Char} (h : EndsNumber rest) : readExponent rest = some (none, rest) := by
  cases rest with
  | nil => rfl
  | cons c rest =>
    obtain ⟨-, -, hlower, hupper⟩ := h c rfl
    simp [readExponent, hlower, hupper]

/-- **A whole number** is read digit by digit. -/
theorem readNumber_intText (n : Int) {rest : List Char} (h : EndsNumber rest) :
    readNumber (intText n ++ rest) = some (partsOf n, rest) := by
  have hwhole := readWhole_toDigits n.natAbs h
  by_cases hnegative : n < 0
  · have htext : intText n ++ rest = '-' :: (Nat.toDigits 10 n.natAbs ++ rest) := by simp [intText, hnegative]
    unfold readNumber
    rw [htext]
    simp only [hwhole, readFraction_ends h, readExponent_ends h, Option.bind_eq_bind, Option.bind_some]
    simp [partsOf, hnegative]
  · have htext : intText n ++ rest = Nat.toDigits 10 n.natAbs ++ rest := by simp [intText, hnegative]
    obtain ⟨c, more, hdigits⟩ := List.exists_cons_of_ne_nil (@Nat.toDigits_ne_nil n.natAbs 10)
    have hc : c.isDigit = true := isDigit_of_mem_toDigits (by rw [hdigits]; exact List.mem_cons_self)
    have hsign : c ≠ '-' := by
      rintro rfl
      exact absurd hc (by decide)
    unfold readNumber
    rw [htext]
    rw [hdigits, List.cons_append] at hwhole ⊢
    simp [hsign, hwhole, readFraction_ends h, readExponent_ends h, partsOf, hnegative]

/-- It has the value that was written. -/
theorem number?_partsOf {n : Int} (least : -(signedEnd : Int) ≤ n) (greatest : n < (unsignedEnd : Int)) :
    Written.number? (partsOf n) = some (.int n) := by
  unfold Written.number? partsOf
  simp only [value_digitsOf, List.isEmpty_nil, Option.isNone_none, Bool.and_self, if_true]
  by_cases hnegative : n < 0
  · have hfits : (decide (n.natAbs ≠ 0) && decide (n.natAbs ≤ signedEnd)) = true := by
      simp only [Bool.and_eq_true, decide_eq_true_eq]
      omega
    have hback : -(n.natAbs : Int) = n := by omega
    rw [if_pos (by simpa using hnegative), if_pos hfits, hback]
  · have hfits : n.natAbs < unsignedEnd := by omega
    have hback : (n.natAbs : Int) = n := by omega
    rw [if_neg (by simpa using hnegative), if_pos hfits, hback]

/-! ## §3. Texts. -/

/-- Four digits stand for a control character. -/
theorem hexQuad?_control {n : Nat} (h : n < 32) :
    hexQuad? '0' '0' (hexDigit (n / 16)) (hexDigit (n % 16)) = some n := by
  interval_cases n <;> rfl

/-- How a character is written: by itself, by a letter behind a backslash, or by four digits. -/
inductive Escaped : Char → List Char → Prop
  | plain {c : Char} (control : ¬ c.toNat < 32) (quote : c ≠ '"') (backslash : c ≠ '\\') : Escaped c [c]
  | letter {c e : Char} (known : e ∈ ['"', '\\', 'b', 'f', 'n', 'r', 't']) (meaning : escaped e = c) :
    Escaped c ['\\', e]
  | digits {c : Char} (control : c.toNat < 32) :
    Escaped c ['\\', 'u', '0', '0', hexDigit (c.toNat / 16), hexDigit (c.toNat % 16)]

theorem escaped_escape (c : Char) : Escaped c (escape c) := by
  unfold escape
  split
  case h_8 hquote hbackslash _ _ _ _ _ =>
    split
    next hcontrol => exact .digits hcontrol
    next hcontrol => exact .plain hcontrol hquote hbackslash
  all_goals exact .letter (by decide) rfl

/-- Looking for the closing quote, the reader takes a written character whole. -/
theorem readInside_escape (c : Char) (acc rest : List Char) :
    readInside acc (escape c ++ rest) = readInside ((escape c).reverse ++ acc) rest := by
  have hescaped := escaped_escape c
  generalize escape c = t at hescaped
  cases hescaped with
  | plain control quote backslash => rw [List.singleton_append, readInside] <;> simp_all
  | letter known meaning => fin_cases known <;> simp [readInside]
  | digits control => simp [readInside, hexQuad?_control control]

/-- Four digits that are no surrogate give one character, whatever follows them. -/
theorem unescape_digits {a b c d : Char} {n : Nat} (h : hexQuad? a b c d = some n) (hn : n < 0xD800)
    (acc rest : List Char) :
    unescape acc ('\\' :: 'u' :: a :: b :: c :: d :: rest) = unescape (Char.ofNat n :: acc) rest := by
  have hhigh : ¬ 0xD800 ≤ n := by omega
  have hlow : ¬ 0xDC00 ≤ n := by omega
  rw [unescape.eq_def]
  split
  next heq => cases heq
  next heq =>
    -- another such character follows, which is not the other half of this one
    simp only [List.cons.injEq, true_and] at heq
    obtain ⟨rfl, rfl, rfl, rfl, rfl⟩ := heq
    simp [h, hhigh, hlow]
  next heq =>
    simp only [List.cons.injEq, true_and] at heq
    obtain ⟨rfl, rfl, rfl, rfl, rfl⟩ := heq
    simp [h, hhigh]
  next hquad heq =>
    simp only [List.cons.injEq, true_and] at heq
    obtain ⟨rfl, rfl⟩ := heq
    exact absurd rfl (hquad a b c d rest rfl)
  next heq =>
    simp only [List.cons.injEq] at heq
    obtain ⟨rfl, rfl⟩ := heq
    simp_all

/-- A written character stands for itself. -/
theorem unescape_escape (c : Char) (acc rest : List Char) :
    unescape acc (escape c ++ rest) = unescape (c :: acc) rest := by
  have hescaped := escaped_escape c
  generalize escape c = t at hescaped
  cases hescaped with
  | plain control quote backslash => rw [List.singleton_append, unescape] <;> simp_all
  | letter known meaning =>
    subst meaning
    fin_cases known <;> simp [unescape]
  | digits control =>
    have hread := unescape_digits (hexQuad?_control control) (by omega) acc rest
    rwa [Char.ofNat_toNat] at hread

theorem readInside_flatMap (s acc rest : List Char) :
    readInside acc (s.flatMap escape ++ '"' :: rest) = some (acc.reverse ++ s.flatMap escape, rest) := by
  induction s generalizing acc with
  | nil => simp [readInside]
  | cons c s ih =>
    rw [List.flatMap_cons, List.append_assoc, readInside_escape, ih]
    simp

theorem unescape_flatMap (s acc : List Char) : unescape acc (s.flatMap escape) = some (acc.reverse ++ s) := by
  induction s generalizing acc with
  | nil => simp [unescape]
  | cons c s ih =>
    rw [List.flatMap_cons, unescape_escape, ih]
    simp

/-- The characters between the quotes of a written text. -/
def insideOf (s : String) : List Char := s.toList.flatMap escape

theorem quoted_append (s : String) (rest : List Char) :
    quoted s.toList ++ rest = '"' :: (insideOf s ++ '"' :: rest) := by
  simp [quoted, insideOf]

/-- **A text** is read up to its closing quote. -/
theorem readInside_insideOf (s : String) (rest : List Char) :
    readInside [] (insideOf s ++ '"' :: rest) = some (insideOf s, rest) :=
  readInside_flatMap s.toList [] rest

/-- It is the text that was written. -/
theorem text?_insideOf (s : String) : Written.text? (insideOf s) = some s := by
  unfold Written.text? insideOf
  rw [unescape_flatMap, List.reverse_nil, List.nil_append, Option.map_some, String.ofList_toList]

/-! ## §4. What a written value is read as. -/

/-- The first character of a written value: none that is skipped, nor the end of a list. -/
def Opens (s : List Char) : Prop := ∃ c t, s = c :: t ∧ c ∉ [' ', '\n', '\t', '\r', ']']

theorem Opens.length_pos {s : List Char} (h : Opens s) : 0 < s.length := by
  obtain ⟨c, t, rfl, -⟩ := h
  exact Nat.succ_pos _

theorem skipBlanks_cons {c : Char} (h : c ∉ [' ', '\n', '\t', '\r']) (rest : List Char) :
    skipBlanks (c :: rest) = c :: rest := by
  unfold skipBlanks
  refine List.dropWhile_cons_of_neg ?_
  simpa [and_assoc] using h

theorem Opens.skipBlanks {s : List Char} (h : Opens s) (rest : List Char) :
    skipBlanks (s ++ rest) = s ++ rest := by
  obtain ⟨c, t, rfl, hc⟩ := h
  refine skipBlanks_cons ?_ _
  intro hblank
  exact hc (List.mem_append_left [']'] hblank)

/-- What is written for the value `v` is taken as `w`, which means `v` again. -/
structure Renders (v : Json) (w : Written) : Prop where
  /-- The first character. -/
  opens : Opens (compact v)
  /-- It is read whole, whatever comes behind it. -/
  read : ∀ fuel rest, 2 * (compact v).length ≤ fuel + 1 → EndsNumber rest →
    readValue (fuel + 1) (compact v ++ rest) = some (w, rest)
  /-- It has its meaning within any limit that its nesting keeps to. -/
  meaning : ∀ depth, Written.valueIn? depth w = if nesting v ≤ depth then some v else none

theorem renders_null : Renders .null .null where
  opens := ⟨'n', _, rfl, by decide⟩
  read := by
    intro fuel rest _ _
    rfl
  meaning := by
    intro depth
    cases depth <;> rfl

theorem renders_bool (b : Bool) : Renders (.bool b) (.bool b) where
  opens := by cases b <;> exact ⟨_, _, rfl, by decide⟩
  read := by
    intro fuel rest _ _
    cases b <;> rfl
  meaning := by
    intro depth
    cases depth <;> rfl

/-- A value that begins like a number is read as one. -/
theorem readValue_number {c : Char} {s : List Char} (hc : c = '-' ∨ c.isDigit = true) (fuel : Nat) :
    readValue (fuel + 1) (c :: s) = (readNumber (c :: s)).map fun (n, rest) => (.number n, rest) := by
  have hother : ∀ d ∈ [' ', '\n', '\t', '\r', 'n', 't', 'f', '"', '[', '\x7b'], c ≠ d := by
    intro d hd heq
    subst heq
    fin_cases hd <;> simp at hc
  have hblank : c ∉ [' ', '\n', '\t', '\r'] := fun hc => hother c (by fin_cases hc <;> decide) rfl
  unfold readValue
  rw [skipBlanks_cons hblank]
  split
  all_goals first
    | rfl
    | (next heq => exact absurd (List.cons.inj heq).1 (hother _ (by decide)))

theorem intText_cons (n : Int) : ∃ c t, intText n = c :: t ∧ (c = '-' ∨ c.isDigit = true) := by
  unfold intText
  split
  · exact ⟨'-', _, rfl, .inl rfl⟩
  · obtain ⟨c, t, hdigits⟩ := List.exists_cons_of_ne_nil (@Nat.toDigits_ne_nil n.natAbs 10)
    exact ⟨c, t, hdigits, .inr (isDigit_of_mem_toDigits (by rw [hdigits]; exact List.mem_cons_self))⟩

theorem renders_int {n : Int} (least : -(signedEnd : Int) ≤ n) (greatest : n < (unsignedEnd : Int)) :
    Renders (.num (.int n)) (.number (partsOf n)) where
  opens := by
    obtain ⟨c, t, htext, hc⟩ := intText_cons n
    refine ⟨c, t, htext, ?_⟩
    intro hblank
    fin_cases hblank <;> simp at hc
  read := by
    intro fuel rest _ hends
    obtain ⟨c, t, htext, hc⟩ := intText_cons n
    have hread := readNumber_intText n hends
    show readValue (fuel + 1) (intText n ++ rest) = _
    rw [htext, List.cons_append] at hread ⊢
    rw [readValue_number hc, hread, Option.map_some]
  meaning := by
    intro depth
    have hvalue : Written.valueIn? depth (.number (partsOf n)) = (Written.number? (partsOf n)).map .num := by
      cases depth <;> rfl
    rw [hvalue, number?_partsOf least greatest]
    simp [nesting]

theorem renders_str (s : String) : Renders (.str s) (.text (insideOf s)) where
  opens := ⟨'"', _, rfl, by decide⟩
  read := by
    intro fuel rest _ _
    show readValue (fuel + 1) (quoted s.toList ++ rest) = _
    rw [quoted_append]
    unfold readValue
    rw [skipBlanks_cons (by decide)]
    simp only [readInside_insideOf, Option.map_some]
  meaning := by
    intro depth
    have hvalue : Written.valueIn? depth (.text (insideOf s)) = (Written.text? (insideOf s)).map .str := by
      cases depth <;> rfl
    rw [hvalue, text?_insideOf]
    simp [nesting]

/-! ## §5. Lists and objects. -/

/-- Items in a row mean the values that were written. -/
theorem itemsIn?_of_renders {items : List Json} {ws : List Written} (h : List.Forall₂ Renders items ws)
    (depth : Nat) :
    Written.itemsIn? depth ws = if itemsNesting items ≤ depth then some items else none := by
  induction h with
  | nil => simp [Written.itemsIn?, itemsNesting]
  | @cons v w items ws hfirst hrest ih =>
    rw [Written.itemsIn?, hfirst.meaning, ih, itemsNesting]
    by_cases hv : nesting v ≤ depth
    · by_cases hitems : itemsNesting items ≤ depth
      · simp [hv, hitems]
      · simp [hv, hitems]
    · simp [hv]

theorem Opens.append {s : List Char} (h : Opens s) (rest : List Char) : Opens (s ++ rest) := by
  obtain ⟨c, t, rfl, hc⟩ := h
  exact ⟨c, t ++ rest, rfl, hc⟩

theorem opens_compactItems {v : Json} (items : List Json) (h : Opens (compact v)) :
    Opens (compactItems (v :: items)) := by
  cases items with
  | nil => rwa [compactItems]
  | cons v' items =>
    rw [compactItems]
    · exact h.append _
    · exact List.cons_ne_nil _ _

/-- The last item: a bracket follows it. -/
theorem readItems_last {fuel : Nat} {s rest : List Char} {w : Written}
    (h : readValue fuel s = some (w, ']' :: rest)) (acc : List Written) :
    readItems (fuel + 1) acc s = some (.list (w :: acc).reverse, rest) := by
  rw [readItems, h]
  simp only [skipBlanks_cons (show ']' ∉ [' ', '\n', '\t', '\r'] by decide)]

/-- Any other item: a comma follows it. -/
theorem readItems_next {fuel : Nat} {s rest : List Char} {w : Written}
    (h : readValue fuel s = some (w, ',' :: rest)) (acc : List Written) :
    readItems (fuel + 1) acc s = readItems fuel (w :: acc) rest := by
  rw [readItems, h]
  simp only [skipBlanks_cons (show ',' ∉ [' ', '\n', '\t', '\r'] by decide)]

/-- They are read one after another, up to the end of the list. -/
theorem readItems_compactItems {items : List Json} {ws : List Written} (h : List.Forall₂ Renders items ws)
    (hne : items ≠ []) (fuel : Nat) (acc : List Written) (rest : List Char)
    (hfuel : 2 * (compactItems items).length + 1 ≤ fuel) :
    readItems fuel acc (compactItems items ++ ']' :: rest) = some (.list (acc.reverse ++ ws), rest) := by
  induction h generalizing fuel acc with
  | nil => exact absurd rfl hne
  | @cons v w items ws hfirst hrest ih =>
    have hpos := (opens_compactItems items hfirst.opens).length_pos
    obtain ⟨fuel, rfl⟩ := Nat.exists_eq_add_of_le' (Nat.le_trans (by omega) hfuel : 2 ≤ fuel)
    cases hrest with
    | nil =>
      rw [compactItems] at hfuel
      have hread := hfirst.read fuel (']' :: rest) (by omega) (endsNumber_cons (by decide) rest)
      rw [compactItems, readItems_last hread]
      simp
    | @cons v' w' items ws hsecond hrest =>
      have htext : compactItems (v :: v' :: items) ++ ']' :: rest =
          compact v ++ ',' :: (compactItems (v' :: items) ++ ']' :: rest) := by
        simp [compactItems]
      have hlength : (compactItems (v :: v' :: items)).length =
          (compact v).length + ((compactItems (v' :: items)).length + 1) := by
        simp [compactItems]
      have hread := hfirst.read fuel (',' :: (compactItems (v' :: items) ++ ']' :: rest)) (by omega)
        (endsNumber_cons (by decide) _)
      rw [htext, readItems_next hread, ih (List.cons_ne_nil _ _) (fuel + 1) (w :: acc) (by omega)]
      simp

theorem Opens.ne_bracket {s rest : List Char} (h : Opens s) : s ≠ ']' :: rest := by
  obtain ⟨c, t, rfl, hc⟩ := h
  intro heq
  rw [(List.cons.inj heq).1] at hc
  exact hc (by decide)

theorem renders_arr {items : List Json} {ws : List Written} (h : List.Forall₂ Renders items ws) :
    Renders (.arr items) (.list ws) where
  opens := ⟨'[', _, rfl, by decide⟩
  read := by
    intro fuel rest hfuel _
    have hcompact : compact (.arr items) = '[' :: compactItems items ++ [']'] := by rw [compact]
    rw [hcompact, List.cons_append, List.length_cons, List.length_append, List.length_singleton] at hfuel
    rw [hcompact]
    simp only [List.cons_append, List.append_assoc, List.nil_append]
    unfold readValue
    rw [skipBlanks_cons (by decide)]
    cases h with
    | nil => rfl
    | @cons v w items ws hfirst hrest =>
      have hopens : Opens (compactItems (v :: items)) := opens_compactItems items hfirst.opens
      have hread := readItems_compactItems (.cons hfirst hrest) (List.cons_ne_nil v items) fuel [] rest (by omega)
      simp only [hopens.skipBlanks]
      split
      next heq => exact absurd heq (hopens.append _).ne_bracket
      next => rw [hread, List.reverse_nil, List.nil_append]
  meaning := by
    intro depth
    cases depth with
    | zero => simp [Written.valueIn?, nesting]
    | succ depth =>
      rw [Written.valueIn?, itemsIn?_of_renders h, nesting]
      by_cases hitems : itemsNesting items ≤ depth
      · simp [hitems]
      · simp [hitems]

/-- What is written for a member is taken as its name and its value. -/
def RendersMember (m : String × Json) (w : List Char × Written) : Prop := w.1 = insideOf m.1 ∧ Renders m.2 w.2

theorem membersIn?_of_renders {members : List (String × Json)} {ws : List (List Char × Written)}
    (h : List.Forall₂ RendersMember members ws) (depth : Nat) :
    Written.membersIn? depth ws = if membersNesting members ≤ depth then some members else none := by
  induction h with
  | nil => simp [Written.membersIn?, membersNesting]
  | @cons m w members ws hfirst hrest ih =>
    obtain ⟨name, v⟩ := m
    obtain ⟨hname, hvalue⟩ := hfirst
    rw [Written.membersIn?, hname, text?_insideOf, hvalue.meaning, ih, membersNesting]
    by_cases hv : nesting v ≤ depth
    · by_cases hmembers : membersNesting members ≤ depth
      · simp [hv, hmembers]
      · simp [hv, hmembers]
    · simp [hv]

/-- The last member: a brace follows its value. -/
theorem readMembers_last {fuel : Nat} {s rest : List Char} {w : Written}
    (h : readValue fuel s = some (w, '\x7d' :: rest)) (acc : List (List Char × Written)) (name : String) :
    readMembers (fuel + 1) acc (quoted name.toList ++ ':' :: s)
      = some (.object ((insideOf name, w) :: acc).reverse, rest) := by
  rw [readMembers, quoted_append, skipBlanks_cons (by decide)]
  simp only [readInside_insideOf, skipBlanks_cons (show ':' ∉ [' ', '\n', '\t', '\r'] by decide), h,
    skipBlanks_cons (show '\x7d' ∉ [' ', '\n', '\t', '\r'] by decide)]

/-- Any other member: a comma follows its value. -/
theorem readMembers_next {fuel : Nat} {s rest : List Char} {w : Written}
    (h : readValue fuel s = some (w, ',' :: rest)) (acc : List (List Char × Written)) (name : String) :
    readMembers (fuel + 1) acc (quoted name.toList ++ ':' :: s)
      = readMembers fuel ((insideOf name, w) :: acc) rest := by
  rw [readMembers, quoted_append, skipBlanks_cons (by decide)]
  simp only [readInside_insideOf, skipBlanks_cons (show ':' ∉ [' ', '\n', '\t', '\r'] by decide), h,
    skipBlanks_cons (show ',' ∉ [' ', '\n', '\t', '\r'] by decide)]

theorem compactMembers_cons (name : String) (v : Json) (members : List (String × Json)) :
    ∃ t, compactMembers ((name, v) :: members) = '"' :: t := by
  cases members with
  | nil => exact ⟨_, by rw [compactMembers, quoted]; rfl⟩
  | cons m members => exact ⟨_, by simp [compactMembers, quoted]; rfl⟩

theorem readMembers_compactMembers {members : List (String × Json)} {ws : List (List Char × Written)}
    (h : List.Forall₂ RendersMember members ws) (hne : members ≠ []) (fuel : Nat)
    (acc : List (List Char × Written)) (rest : List Char)
    (hfuel : 2 * (compactMembers members).length + 1 ≤ fuel) :
    readMembers fuel acc (compactMembers members ++ '\x7d' :: rest)
      = some (.object (acc.reverse ++ ws), rest) := by
  induction h generalizing fuel acc with
  | nil => exact absurd rfl hne
  | @cons m w members ws hfirst hrest ih =>
    obtain ⟨name, v⟩ := m
    obtain ⟨inside, w⟩ := w
    obtain ⟨hname, hvalue⟩ := hfirst
    simp only at hname hvalue
    subst hname
    obtain ⟨t, ht⟩ := compactMembers_cons name v members
    have hpos : 0 < (compactMembers ((name, v) :: members)).length := by
      rw [ht]
      exact Nat.succ_pos _
    obtain ⟨fuel, rfl⟩ := Nat.exists_eq_add_of_le' (Nat.le_trans (by omega) hfuel : 2 ≤ fuel)
    cases hrest with
    | nil =>
      have htext : compactMembers [(name, v)] ++ '\x7d' :: rest =
          quoted name.toList ++ ':' :: (compact v ++ '\x7d' :: rest) := by
        simp [compactMembers]
      have hlength : (compactMembers [(name, v)]).length =
          (quoted name.toList).length + ((compact v).length + 1) := by
        simp [compactMembers]
      have hread := hvalue.read fuel ('\x7d' :: rest) (by omega) (endsNumber_cons (by decide) rest)
      rw [htext, readMembers_last hread]
      simp
    | @cons m' w' members ws hsecond hrest =>
      have htext : compactMembers ((name, v) :: m' :: members) ++ '\x7d' :: rest =
          quoted name.toList ++ ':' ::
            (compact v ++ ',' :: (compactMembers (m' :: members) ++ '\x7d' :: rest)) := by
        simp [compactMembers]
      have hlength : (compactMembers ((name, v) :: m' :: members)).length =
          (quoted name.toList).length
            + ((compact v).length + 1 + ((compactMembers (m' :: members)).length + 1)) := by
        simp [compactMembers]
        omega
      have hread := hvalue.read fuel (',' :: (compactMembers (m' :: members) ++ '\x7d' :: rest)) (by omega)
        (endsNumber_cons (by decide) _)
      rw [htext, readMembers_next hread, ih (List.cons_ne_nil _ _) (fuel + 1) _ (by omega)]
      simp

theorem renders_obj {members : List (String × Json)} {ws : List (List Char × Written)}
    (h : List.Forall₂ RendersMember members ws) : Renders (.obj members) (.object ws) where
  opens := ⟨'\x7b', _, rfl, by decide⟩
  read := by
    intro fuel rest hfuel _
    have hcompact : compact (.obj members) = '\x7b' :: compactMembers members ++ ['\x7d'] := by rw [compact]
    rw [hcompact, List.cons_append, List.length_cons, List.length_append, List.length_singleton] at hfuel
    rw [hcompact]
    simp only [List.cons_append, List.append_assoc, List.nil_append]
    unfold readValue
    rw [skipBlanks_cons (by decide)]
    cases h with
    | nil => rfl
    | @cons m w members ws hfirst hrest =>
      obtain ⟨t, ht⟩ := compactMembers_cons m.1 m.2 members
      have hread :=
        readMembers_compactMembers (.cons hfirst hrest) (List.cons_ne_nil m members) fuel [] rest (by omega)
      rw [ht, List.cons_append] at hread ⊢
      simp only [skipBlanks_cons (show '"' ∉ [' ', '\n', '\t', '\r'] by decide)]
      show readMembers fuel [] ('"' :: (t ++ '\x7d' :: rest)) = _
      rw [hread, List.reverse_nil, List.nil_append]
  meaning := by
    intro depth
    cases depth with
    | zero => simp [Written.valueIn?, nesting]
    | succ depth =>
      rw [Written.valueIn?, membersIn?_of_renders h, nesting]
      by_cases hmembers : membersNesting members ≤ depth
      · simp [hmembers]
      · simp [hmembers]

/-! ## §6. Whole values. -/

theorem exists_forall₂ {α β : Type} {R : α → β → Prop} {l : List α} (h : ∀ a ∈ l, ∃ b, R a b) :
    ∃ l', List.Forall₂ R l l' := by
  induction l with
  | nil => exact ⟨[], .nil⟩
  | cons a l ih =>
    obtain ⟨b, hb⟩ := h a List.mem_cons_self
    obtain ⟨l', hl⟩ := ih fun a ha => h a (List.mem_cons_of_mem _ ha)
    exact ⟨b :: l', .cons hb hl⟩

/-- Each value without doubles is read back. -/
theorem IsWhole.renders {v : Json} (h : IsWhole v) : ∃ w, Renders v w := by
  induction h with
  | null => exact ⟨_, renders_null⟩
  | bool b => exact ⟨_, renders_bool b⟩
  | int least greatest => exact ⟨_, renders_int least greatest⟩
  | str s => exact ⟨_, renders_str s⟩
  | arr each ih =>
    obtain ⟨ws, hws⟩ := exists_forall₂ ih
    exact ⟨_, renders_arr hws⟩
  | @obj members each ih =>
    have hmembers : ∀ m ∈ members, ∃ w, RendersMember m w := by
      intro m hm
      obtain ⟨w, hw⟩ := ih m hm
      exact ⟨(insideOf m.1, w), rfl, hw⟩
    obtain ⟨ws, hws⟩ := exists_forall₂ hmembers
    exact ⟨_, renders_obj hws⟩

theorem Renders.read? {v : Json} {w : Written} (h : Renders v w) : Written.read? (compact v) = some w := by
  have hread := h.read (2 * (compact v).length + 1) [] (by omega) (by intro c hc; cases hc)
  rw [List.append_nil] at hread
  unfold Written.read?
  rw [hread]
  rfl

/-- **A written value** is read back as it was, within any limit that its nesting keeps to. -/
theorem readNested?_compact {v : Json} (h : IsWhole v) (limit : Nat) :
    readNested? limit (compact v) = if nesting v ≤ limit then some v else none := by
  obtain ⟨w, hw⟩ := h.renders
  unfold readNested?
  rw [hw.read?, Option.bind_some, hw.meaning]

/-- **The reader** gets a written value back, in its normal form, unless it is nested too deep for it. -/
theorem read?_compact {v : Json} (h : IsWhole v) :
    read? (compact v) = if nesting v ≤ maxDepth then some (normalize v) else none := by
  have hread : read? (compact v) = (readNested? maxDepth (compact v)).map normalize := rfl
  rw [hread, readNested?_compact h]
  split <;> rfl

/-! ## §7. One line. -/

theorem newline_notMem_escape (c : Char) : '\n' ∉ escape c := by
  have hescaped := escaped_escape c
  generalize escape c = t at hescaped
  cases hescaped with
  | plain control quote backslash =>
    intro hmem
    rw [← List.mem_singleton.mp hmem] at control
    exact control (by decide)
  | letter known meaning => fin_cases known <;> simp
  | digits control =>
    have hdigit : ∀ n < 16, hexDigit n ≠ '\n' := by decide
    simp [(hdigit _ (show c.toNat / 16 < 16 by omega)).symm, (hdigit _ (show c.toNat % 16 < 16 by omega)).symm]

theorem newline_notMem_quoted (s : List Char) : '\n' ∉ quoted s := by
  simp [quoted, newline_notMem_escape]

theorem newline_notMem_intText (n : Int) : '\n' ∉ intText n := by
  have hdigits : '\n' ∉ Nat.toDigits 10 n.natAbs := by
    intro hmem
    exact absurd (isDigit_of_mem_toDigits hmem) (by decide)
  unfold intText
  split
  · simp [hdigits]
  · exact hdigits

theorem newline_notMem_compactItems {items : List Json} (h : ∀ v ∈ items, '\n' ∉ compact v) :
    '\n' ∉ compactItems items := by
  induction items with
  | nil => simp [compactItems]
  | cons v items ih =>
    have hv := h v List.mem_cons_self
    have hitems := ih fun v hv => h v (List.mem_cons_of_mem _ hv)
    cases items with
    | nil => rwa [compactItems]
    | cons v' items => simp [compactItems, hv, hitems]

theorem newline_notMem_compactMembers {members : List (String × Json)}
    (h : ∀ m ∈ members, '\n' ∉ compact m.2) : '\n' ∉ compactMembers members := by
  induction members with
  | nil => simp [compactMembers]
  | cons m members ih =>
    have hv := h m List.mem_cons_self
    have hmembers := ih fun m hm => h m (List.mem_cons_of_mem _ hm)
    cases members with
    | nil => simp [compactMembers, newline_notMem_quoted, hv]
    | cons m' members => simp [compactMembers, newline_notMem_quoted, hv, hmembers]

/-- **No line feed** stands in a written value. -/
theorem newline_notMem_compact {v : Json} (h : IsWhole v) : '\n' ∉ compact v := by
  induction h with
  | null => decide
  | bool b => cases b <;> decide
  | @int n least greatest => exact newline_notMem_intText n
  | str s => exact newline_notMem_quoted s.toList
  | arr each ih => simp [compact, newline_notMem_compactItems ih]
  | obj each ih => simp [compact, newline_notMem_compactMembers ih]

end CodeIndex.Json
