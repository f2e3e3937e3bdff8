import Mathlib
import CodeIndex.Source.Extent

/-!
# Scanning a line by the numbers of its characters

The braces of a line are found by passing over its characters one by one (`braces`). A scanner that keeps the
number of the character it has come to, and jumps over what does not count, must take care not to look past
the end of the line: behind a backslash, behind an apostrophe, behind a quote that is never closed. Here is
such a scanner, which gives up as soon as it reads a character that is not there. It never does, and it finds
the same braces.

Main result: `scanFrom_eq`.
-/

namespace CodeIndex

/-! ## §1. The scanner. -/

/-- What stands from a number on, which must not be past the end. -/
def restFrom? (chars : List Char) (i : Nat) : Option (List Char) :=
  if i ≤ chars.length then some (chars.drop i) else none

/-- The braces of a line from a number on, inside a text that ends with the given quote or in code; `none`
if a character is read that is not there. To look whether the next two are certain ones is no such reading. -/
def scanFrom (charLiterals : Bool) (chars : List Char) (quote : Option Char) (i : Nat) :
    Option (List Brace) :=
  if i < chars.length then
    match chars[i]?, quote with
    | none, _ => none
    | some c, some q =>
      if c == '\\' then scanFrom charLiterals chars (some q) (i + 2)
      else if c == q then scanFrom charLiterals chars none (i + 1)
      else scanFrom charLiterals chars (some q) (i + 1)
    | some c, none =>
      if c == '/' && chars[i + 1]? == some '/' then some []
      else if c == '"' || c == '\x60' then scanFrom charLiterals chars (some c) (i + 1)
      else if c == '\'' && charLiterals then
        if chars[i + 1]? == some '\\' then
          match restFrom? chars (i + 2) with
          | none => none
          | some inside =>
            match inside.findIdx? (· == '\'') with
            | some close => scanFrom charLiterals chars none (i + close + 3)
            | none => scanFrom charLiterals chars none (i + 1)
        else if chars[i + 2]? == some '\'' then scanFrom charLiterals chars none (i + 3)
        else scanFrom charLiterals chars none (i + 1)
      else if c == '\'' then scanFrom charLiterals chars (some c) (i + 1)
      else if c == '{' then (scanFrom charLiterals chars none (i + 1)).map (.opening :: ·)
      else if c == '}' then (scanFrom charLiterals chars none (i + 1)).map (.closing :: ·)
      else scanFrom charLiterals chars none (i + 1)
  else some []
termination_by chars.length - i
decreasing_by all_goals omega

/-! ## §2. Jumps. -/

variable {charLiterals : Bool}

/-- A character behind a backslash is passed over. -/
theorem braces_escaped (q : Char) (s : List Char) :
    braces charLiterals (.escaped q) s = braces charLiterals (.quoted q) (s.drop 1) := by
  cases s <;> rfl

theorem braces_passing (more : Nat) (s : List Char) :
    braces charLiterals (.passing more) s = braces charLiterals .code (s.drop (more + 1)) := by
  induction more generalizing s with
  | zero => cases s <;> rfl
  | succ more ih =>
    cases s with
    | nil => rfl
    | cons c s => exact ih s

/-- A character literal is passed over up to its apostrophe. -/
theorem braces_literal {s : List Char} {close : Nat} (h : s.findIdx? (· == '\'') = some close) :
    braces charLiterals .literal s = braces charLiterals .code (s.drop (close + 1)) := by
  induction s generalizing close with
  | nil => exact absurd h (by simp)
  | cons c s ih =>
    rw [List.findIdx?_cons] at h
    rw [show braces charLiterals .literal (c :: s)
      = if c == '\'' then braces charLiterals .code s else braces charLiterals .literal s from rfl]
    split at h
    next hc =>
      obtain rfl := Option.some.inj h
      rw [if_pos hc, Nat.zero_add, List.drop_one, List.tail_cons]
    next hc =>
      obtain ⟨close, hclose, rfl⟩ := Option.map_eq_some_iff.mp h
      rw [if_neg hc, ih hclose, List.drop_succ_cons]

/-- Where an apostrophe starts no character, every quote opens a text that the same quote closes. -/
theorem opened_of_ne {c : Char} (hc : c ≠ '\'') (rest : List Char) :
    Within.opened charLiterals c rest = .quoted c := by
  unfold Within.opened
  rw [beq_eq_false_iff_ne.mpr hc, Bool.false_and, if_neg Bool.false_ne_true]

/-- What an apostrophe opens where characters are written between apostrophes is passed over, or is nothing. -/
theorem braces_apostrophe (rest : List Char) :
    braces true .code ('\'' :: rest)
      = if rest.head? = some '\\' then
          match (rest.drop 1).findIdx? (· == '\'') with
          | some close => braces true .code (rest.drop (close + 2))
          | none => braces true .code rest
        else if rest[1]? = some '\'' then braces true .code (rest.drop 2)
        else braces true .code rest := by
  show braces true (Within.opened true '\'' rest) rest = _
  unfold Within.opened
  rw [if_pos (show ('\'' == '\'' && true) = true from rfl)]
  split
  next inside =>
    -- behind the backslash: a literal if there is an apostrophe to end it
    rw [if_pos (show ('\\' :: inside).head? = some '\\' from rfl), List.drop_one, List.tail_cons]
    cases hclose : inside.findIdx? (· == '\'') with
    | none =>
      have hnone : inside.contains '\'' = false := by
        rw [List.findIdx?_eq_none_iff] at hclose
        simpa using fun hmem => absurd (hclose _ hmem) (by simp)
      rw [hnone, if_neg (by simp)]
    | some close =>
      have hsome : inside.contains '\'' = true := by
        obtain ⟨hlt, hat, -⟩ := List.findIdx?_eq_some_iff_getElem.mp hclose
        rw [List.contains_iff_mem, ← eq_of_beq hat]
        exact List.getElem_mem hlt
      rw [hsome, if_pos rfl]
      show braces true .literal inside = _
      rw [braces_literal hclose]
      rfl
  next c more hbackslash =>
    rw [if_neg (by simpa using hbackslash), if_pos (by rfl), braces_passing]
  next hbackslash hsecond =>
    match rest, hbackslash, hsecond with
    | [], _, _ => rfl
    | [c], hbackslash, _ =>
      rw [if_neg (by simpa using fun hc => hbackslash [] (by rw [hc])), if_neg (by simp)]
    | c :: d :: more, hbackslash, hsecond =>
      have hc : c ≠ '\\' := fun hc => hbackslash (d :: more) (by rw [hc])
      have hd : d ≠ '\'' := fun hd => hsecond c more (by rw [hd])
      rw [if_neg (by simpa using hc), if_neg (by simpa using hd)]

/-! ## §3. The scanner finds the braces. -/

/-- What a scanner that waits for a quote, or for none, is in. -/
def Within.ofQuote : Option Char → Within
  | none => .code
  | some q => .quoted q

/-- What stands behind a backslash that is there can be asked for. -/
theorem restFrom?_behind {chars : List Char} {i : Nat} {c : Char} (h : chars[i]? = some c) :
    restFrom? chars (i + 1) = some (chars.drop (i + 1)) := by
  obtain ⟨hi, -⟩ := List.getElem?_eq_some_iff.mp h
  exact if_pos hi

/-- At an apostrophe the scanner finds what is found, if it does further on. -/
theorem scan_apostrophe {chars : List Char} {i : Nat}
    (hlater : ∀ j, i < j → scanFrom true chars none j = some (braces true .code (chars.drop j))) :
    (if chars[i + 1]? == some '\\' then
        match restFrom? chars (i + 2) with
        | none => none
        | some inside =>
          match inside.findIdx? (· == '\'') with
          | some close => scanFrom true chars none (i + close + 3)
          | none => scanFrom true chars none (i + 1)
      else if chars[i + 2]? == some '\'' then scanFrom true chars none (i + 3)
      else scanFrom true chars none (i + 1))
      = some (braces true .code ('\'' :: chars.drop (i + 1))) := by
  have hnext : (chars.drop (i + 1)).head? = chars[i + 1]? := List.head?_drop ..
  have hafter : (chars.drop (i + 1))[1]? = chars[i + 2]? := by rw [List.getElem?_drop]
  rw [braces_apostrophe, hnext, hafter, List.drop_drop]
  simp only [beq_iff_eq, hlater _ (Nat.lt_succ_self i)]
  split
  next hbackslash =>
    rw [show restFrom? chars (i + 2) = some (chars.drop (i + 2)) from restFrom?_behind hbackslash]
    show (match (chars.drop (i + 2)).findIdx? (· == '\'') with
      | some close => scanFrom true chars none (i + close + 3)
      | none => some (braces true .code (chars.drop (i + 1)))) = _
    cases (chars.drop (i + 2)).findIdx? (· == '\'') with
    | none => rfl
    | some close =>
      show scanFrom true chars none (i + close + 3) = some (braces true .code ((chars.drop (i + 1)).drop (close + 2)))
      rw [hlater _ (by omega), List.drop_drop, show i + close + 3 = i + 1 + (close + 2) by omega]
  next =>
    rw [hlater _ (by omega), List.drop_drop]
    split <;> rfl

/-- **A scanner that goes by the numbers of characters** reads none that is not there, and finds the braces
of the line. -/
theorem scanFrom_eq (chars : List Char) (quote : Option Char) (i : Nat) :
    scanFrom charLiterals chars quote i = some (braces charLiterals (.ofQuote quote) (chars.drop i)) := by
  -- on the characters that are left: every jump goes forward, also one past the end
  induction hleft : chars.length - i using Nat.strong_induction_on generalizing quote i with
  | _ left ih =>
    unfold scanFrom
    split
    next hi =>
      have hlater : ∀ quote' j, i < j →
          scanFrom charLiterals chars quote' j = some (braces charLiterals (.ofQuote quote') (chars.drop j)) := by
        intro quote' j hj
        exact ih (chars.length - j) (by omega) quote' j rfl
      have hdrop : chars.drop i = chars[i] :: chars.drop (i + 1) := List.drop_eq_getElem_cons hi
      have hnext : chars[i + 1]? = (chars.drop (i + 1)).head? := (List.head?_drop ..).symm
      rw [List.getElem?_eq_getElem hi, hdrop]
      generalize chars[i] = c
      cases quote with
      | some q =>
        simp only [hlater _ _ (Nat.lt_add_of_pos_right Nat.two_pos), hlater _ _ (Nat.lt_succ_self i)]
        show _ = some (if c == '\\' then braces charLiterals (.escaped q) (chars.drop (i + 1)) else
          if c == q then braces charLiterals .code (chars.drop (i + 1))
          else braces charLiterals (.quoted q) (chars.drop (i + 1)))
        rw [braces_escaped, List.drop_drop]
        split
        · rfl
        · split <;> rfl
      | none =>
        by_cases hc : c = '\''
        · subst hc
          cases charLiterals with
          | false => exact hlater (some '\'') _ (Nat.lt_succ_self i)
          | true => exact scan_apostrophe fun j hj => hlater none j hj
        · simp only [hlater _ _ (Nat.lt_succ_self i), hnext, Option.map_some]
          show _ = some (if c == '/' && (chars.drop (i + 1)).head? == some '/' then [] else
            if c == '"' || c == '\x60' || c == '\'' then
              braces charLiterals (Within.opened charLiterals c (chars.drop (i + 1))) (chars.drop (i + 1))
            else if c == '{' then .opening :: braces charLiterals .code (chars.drop (i + 1))
            else if c == '}' then .closing :: braces charLiterals .code (chars.drop (i + 1))
            else braces charLiterals .code (chars.drop (i + 1)))
          -- the two branches for an apostrophe fall away
          rw [opened_of_ne hc, beq_eq_false_iff_ne.mpr hc, Bool.false_and, Bool.or_false,
            if_neg Bool.false_ne_true, if_neg Bool.false_ne_true]
          split_ifs <;> rfl
    next hi =>
      rw [List.drop_eq_nil_of_le (by omega)]
      cases quote <;> simp [braces]

end CodeIndex
