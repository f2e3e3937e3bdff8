import CodeIndex.Source.Language
import CodeIndex.Text.Blank
import CodeIndex.Text.Search
import CodeIndex.Text.Utf8

/-!
# How far a declaration reaches

A declaration starts on a line and ends on that line or on a later one. In most languages its body
stands between braces; in Python it is what is indented further than the line itself. Both
functions here take the lines from the declaring one on and give the number of lines after it that
still belong to the declaration. They look at no more than `maxBodyLines` lines.
-/

namespace CodeIndex

/-- The most lines that are looked at for the end of a body. -/
def maxBodyLines : Nat := 5000

/-! ## §1. Braces on one line. -/

/-- A brace that counts. -/
inductive Brace where
  | opening
  | closing
  deriving DecidableEq, Repr

/-- What a character on a line stands in. -/
inductive Within where
  /-- Plain code. -/
  | code
  /-- A text closed by the given quote. -/
  | quoted (closing : Char)
  /-- A text closed by the given quote, right after a backslash. -/
  | escaped (closing : Char)
  /-- A character literal that starts with a backslash, up to its apostrophe. -/
  | literal
  /-- A piece with `more` characters after the next one, all passed over. -/
  | passing (more : Nat)
  deriving DecidableEq, Repr

/-- What a quote or an apostrophe opens, given what follows it. Where characters are written between
apostrophes, an apostrophe that starts no such literal opens nothing. -/
def Within.opened (charLiterals : Bool) (c : Char) (rest : List Char) : Within :=
  if c == '\'' && charLiterals then
    match rest with
    | '\\' :: inside => if inside.contains '\'' then .literal else .code
    | _ :: '\'' :: _ => .passing 1
    | _ => .code
  else .quoted c

/-- The braces of a line outside texts, character literals and the comment that ends it. -/
def braces (charLiterals : Bool) : Within → List Char → List Brace
  | _, [] => []
  | .quoted q, c :: rest =>
    if c == '\\' then braces charLiterals (.escaped q) rest
    else if c == q then braces charLiterals .code rest
    else braces charLiterals (.quoted q) rest
  | .escaped q, _ :: rest => braces charLiterals (.quoted q) rest
  | .literal, c :: rest =>
    if c == '\'' then braces charLiterals .code rest else braces charLiterals .literal rest
  | .passing 0, _ :: rest => braces charLiterals .code rest
  | .passing (more + 1), _ :: rest => braces charLiterals (.passing more) rest
  | .code, c :: rest =>
    if c == '/' && rest.head? == some '/' then []
    else if c == '"' || c == '\x60' || c == '\'' then
      braces charLiterals (Within.opened charLiterals c rest) rest
    else if c == '{' then .opening :: braces charLiterals .code rest
    else if c == '}' then .closing :: braces charLiterals .code rest
    else braces charLiterals .code rest

/-! ## §2. Bodies between braces. -/

/-- How deep the braces are nested, and whether one has been opened yet. -/
structure Nesting where
  depth : Int
  opened : Bool
  deriving DecidableEq, Repr

/-- The nesting after some braces; `none` as soon as everything opened is closed again. -/
def Nesting.after (n : Nesting) : List Brace → Option Nesting
  | [] => some n
  | .opening :: rest =>
    if n.depth + 1 ≤ 0 then none else Nesting.after ⟨n.depth + 1, true⟩ rest
  | .closing :: rest =>
    if n.opened && n.depth - 1 ≤ 0 then none else Nesting.after ⟨n.depth - 1, n.opened⟩ rest

/-- A line that breaks off, so that the declaration goes on after it. -/
def breaksOff (line : List Char) : Bool :=
  match line.getLast? with
  | some c => ['(', ',', '=', '>', ':', '<', '|', '&', '+', '?', '['].contains c
  | none => false

/-- A line, without its trailing blanks, on which a declaration that has no body yet ends. -/
def endsHeader (first : Bool) (line : List Char) : Bool :=
  line.getLast? == some ';' || (first && !breaksOff line)

/-- The lines after the first that belong to a declaration whose body stands between braces. -/
def braceExtent (charLiterals : Bool) (lines : List (List Char)) : Nat :=
  go 0 ⟨0, false⟩ (lines.take maxBodyLines)
where
  go (offset : Nat) (nesting : Nesting) : List (List Char) → Nat
    | [] => 0
    | line :: rest =>
      match nesting.after (braces charLiterals .code line) with
      | none => offset
      | some nesting =>
        if !nesting.opened && endsHeader (offset == 0) (Text.trimEnd line) then offset
        else if rest.isEmpty then (if nesting.opened then offset else 0)
        else go (offset + 1) nesting rest

/-! ## §3. Bodies by indentation. -/

/-- How far a line is indented, in bytes. -/
def indentation (line : List Char) : Nat := Text.byteLength (line.takeWhile Text.isBlank)

/-- How many more brackets a line opens than it closes. -/
def bracketBalance (line : List Char) : Int :=
  line.foldr (fun c balance =>
    if ['(', '[', '{'].contains c then balance + 1
    else if [')', ']', '}'].contains c then balance - 1 else balance) 0

/-- The lines after the first that a header covers: it goes on until its brackets balance. -/
def headerExtent (lines : List (List Char)) : Nat :=
  go 0 0 (lines.take maxBodyLines)
where
  go (offset : Nat) (balance : Int) : List (List Char) → Nat
    | [] => 0
    | line :: rest =>
      let balance := balance + bracketBalance line
      if balance ≤ 0 || rest.isEmpty then offset else go (offset + 1) balance rest

/-- The last line, counted from `offset`, of those that are indented further than `base`; blank
lines between them belong to the body. -/
def bodyExtent (base : Nat) (last offset : Nat) : List (List Char) → Nat
  | [] => last
  | line :: rest =>
    if Text.allBlank line then bodyExtent base last (offset + 1) rest
    else if indentation line ≤ base then last
    else bodyExtent base offset (offset + 1) rest

/-- The lines after the first that belong to a declaration whose body is indented. -/
def indentExtent (lines : List (List Char)) : Nat :=
  let base := ((lines.head?).map indentation).getD 0
  let header := headerExtent lines
  bodyExtent base header (header + 1) ((lines.drop (header + 1)).take maxBodyLines)

/-- The lines after the first that belong to a declaration. -/
def Language.extent (language : Language) (lines : List (List Char)) : Nat :=
  match language with
  | .python => indentExtent lines
  | .rust => braceExtent true lines
  | _ => braceExtent false lines

end CodeIndex
