import CodeIndex.Json.Decimal
import CodeIndex.Json.Value

/-!
# Writing data values

Two layouts. `compact` is the form that is stored, counted and exported, one value to a line: no
blank between tokens, members in the order they are held. `pretty` is the form for people, two
spaces to a level. A quote, a backslash and the control characters are escaped; all else stands as
it is.
-/

namespace CodeIndex.Json

/-! ## §1. Scalars. -/

/-- A hexadecimal digit in lower case. -/
def hexDigit (n : Nat) : Char := if n < 10 then Char.ofNat (48 + n) else Char.ofNat (87 + n)

/-- How one character is written between quotes. -/
def escape (c : Char) : List Char :=
  match c with
  | '"' => ['\\', '"']
  | '\\' => ['\\', '\\']
  | '\x08' => ['\\', 'b']
  | '\x0c' => ['\\', 'f']
  | '\n' => ['\\', 'n']
  | '\r' => ['\\', 'r']
  | '\t' => ['\\', 't']
  | c =>
    if c.toNat < 32 then ['\\', 'u', '0', '0', hexDigit (c.toNat / 16), hexDigit (c.toNat % 16)]
    else [c]

/-- A text between quotes. -/
def quoted (s : List Char) : List Char := '"' :: s.flatMap escape ++ ['"']

/-- A whole number. -/
def intText (n : Int) : List Char :=
  if n < 0 then '-' :: Nat.toDigits 10 n.natAbs else Nat.toDigits 10 n.natAbs

/-- A number. -/
def numberText : Number → List Char
  | .int n => intText n
  | .float f => Decimal.render f

/-! ## §2. The compact form. -/

mutual

/-- The value on one line without blanks between tokens. -/
def compact : Json → List Char
  | .null => ['n', 'u', 'l', 'l']
  | .bool true => ['t', 'r', 'u', 'e']
  | .bool false => ['f', 'a', 'l', 's', 'e']
  | .num n => numberText n
  | .str s => quoted s.toList
  | .arr items => '[' :: compactItems items ++ [']']
  | .obj members => '{' :: compactMembers members ++ ['}']

/-- Items with commas between them. -/
def compactItems : List Json → List Char
  | [] => []
  | [v] => compact v
  | v :: rest => compact v ++ ',' :: compactItems rest

/-- Members with commas between them. -/
def compactMembers : List (String × Json) → List Char
  | [] => []
  | [(name, v)] => quoted name.toList ++ ':' :: compact v
  | (name, v) :: rest => quoted name.toList ++ ':' :: compact v ++ ',' :: compactMembers rest

end

/-! ## §3. The form for people. -/

/-- A new line at the given level. -/
def newLine (level : Nat) : List Char := '\n' :: List.replicate (2 * level) ' '

mutual

/-- The value with each item and member on a line of its own, standing at the given level. -/
def prettyAt (level : Nat) : Json → List Char
  | .arr [] => ['[', ']']
  | .obj [] => ['{', '}']
  | .arr items => '[' :: prettyItems (level + 1) items ++ newLine level ++ [']']
  | .obj members => '{' :: prettyMembers (level + 1) members ++ newLine level ++ ['}']
  | v => compact v

/-- Items on lines of their own. -/
def prettyItems (level : Nat) : List Json → List Char
  | [] => []
  | [v] => newLine level ++ prettyAt level v
  | v :: rest => newLine level ++ prettyAt level v ++ ',' :: prettyItems level rest

/-- Members on lines of their own. -/
def prettyMembers (level : Nat) : List (String × Json) → List Char
  | [] => []
  | [(name, v)] => newLine level ++ quoted name.toList ++ ':' :: ' ' :: prettyAt level v
  | (name, v) :: rest =>
    newLine level ++ quoted name.toList ++ ':' :: ' ' :: prettyAt level v
      ++ ',' :: prettyMembers level rest

end

/-- The value laid out for people. -/
def pretty (v : Json) : List Char := prettyAt 0 v

end CodeIndex.Json
