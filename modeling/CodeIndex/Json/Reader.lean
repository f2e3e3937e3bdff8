import CodeIndex.Json.Decimal
import CodeIndex.Json.Value

/-!
# Reading data values

Reading takes two steps. `Written.read?` checks the grammar and leaves numbers and texts as they
are written; `Written.value?` gives them their meaning. A part of a file that nobody asks for is
held to the grammar only, so a number out of range or half of a surrogate pair does no harm there.

Nesting is limited: a value inside `maxDepth` lists and objects is refused.
-/

namespace CodeIndex.Json

/-! ## §1. What is written. -/

/-- A value as written: the parts of a number, the characters between the quotes of a text. -/
inductive Written where
  /-- The word for the absent value. -/
  | null
  /-- One of the words for the truth values. -/
  | bool (value : Bool)
  /-- The parts of a number. -/
  | number (parts : Decimal.Parts)
  /-- The characters between the quotes. -/
  | text (inside : List Char)
  /-- The items between brackets. -/
  | list (items : List Written)
  /-- The members between braces, names as written. -/
  | object (members : List (List Char × Written))

/-- Skip the four characters that may stand between tokens. -/
def skipBlanks (s : List Char) : List Char :=
  s.dropWhile fun c => c == ' ' || c == '\n' || c == '\t' || c == '\r'

/-! ## §2. Numbers. -/

/-- A run of decimal digits and what follows. -/
def readDigits (s : List Char) : List Nat × List Char :=
  ((s.takeWhile Char.isDigit).map fun c => c.toNat - 48, s.dropWhile Char.isDigit)

/-- The digits before the point: a zero stands alone. -/
def readWhole (s : List Char) : Option (List Nat × List Char) :=
  match readDigits s with
  | ([], _) => none
  | ([d], rest) => some ([d], rest)
  | (0 :: _, _) => none
  | (ds, rest) => some (ds, rest)

/-- The point with the digits after it, of which there is at least one. -/
def readFraction : List Char → Option (List Nat × List Char)
  | '.' :: s =>
    match readDigits s with
    | ([], _) => none
    | (ds, rest) => some (ds, rest)
  | s => some ([], s)

/-- The exponent: whether it is positive, and its digits, of which there is at least one. -/
def readExponent : List Char → Option (Option (Bool × List Nat) × List Char)
  | c :: s =>
    if c == 'e' || c == 'E' then
      let (up, s) := match s with
        | '+' :: r => (true, r)
        | '-' :: r => (false, r)
        | r => (true, r)
      match readDigits s with
      | ([], _) => none
      | (ds, rest) => some (some (up, ds), rest)
    else some (none, c :: s)
  | [] => some (none, [])

/-- A number and what follows. -/
def readNumber (s : List Char) : Option (Decimal.Parts × List Char) := do
  let (negative, s) := match s with
    | '-' :: r => (true, r)
    | r => (false, r)
  let (whole, s) ← readWhole s
  let (fraction, s) ← readFraction s
  let (exponent, s) ← readExponent s
  return (⟨negative, whole, fraction, exponent⟩, s)

/-! ## §3. Texts. -/

/-- The value of a hexadecimal digit. -/
def hexValue? (c : Char) : Option Nat :=
  if c.isDigit then some (c.toNat - 48)
  else if 'a' ≤ c && c ≤ 'f' then some (c.toNat - 87)
  else if 'A' ≤ c && c ≤ 'F' then some (c.toNat - 55)
  else none

/-- The value of four hexadecimal digits. -/
def hexQuad? (a b c d : Char) : Option Nat := do
  return (((← hexValue? a) * 16 + (← hexValue? b)) * 16 + (← hexValue? c)) * 16 + (← hexValue? d)

/-- The characters up to the closing quote, and what follows it. Control characters are refused,
and so is a backslash before anything that has no meaning there. -/
def readInside (acc : List Char) : List Char → Option (List Char × List Char)
  | [] => none
  | '"' :: rest => some (acc.reverse, rest)
  | '\\' :: 'u' :: a :: b :: c :: d :: rest =>
    if (hexQuad? a b c d).isSome then readInside (d :: c :: b :: a :: 'u' :: '\\' :: acc) rest
    else none
  | '\\' :: e :: rest =>
    if ['"', '\\', '/', 'b', 'f', 'n', 'r', 't'].contains e then
      readInside (e :: '\\' :: acc) rest
    else none
  | c :: rest => if c.toNat < 32 || c == '\\' then none else readInside (c :: acc) rest

/-- The character for the letter after a backslash. -/
def escaped (e : Char) : Char :=
  match e with
  | 'b' => '\x08'
  | 'f' => '\x0c'
  | 'n' => '\n'
  | 'r' => '\r'
  | 't' => '\t'
  | e => e

/-- The text for the characters between the quotes; `none` when a surrogate stands alone. -/
def unescape (acc : List Char) : List Char → Option (List Char)
  | [] => some acc.reverse
  | '\\' :: 'u' :: a :: b :: c :: d :: '\\' :: 'u' :: a' :: b' :: c' :: d' :: rest => do
    let high ← hexQuad? a b c d
    if 0xD800 ≤ high && high ≤ 0xDBFF then
      let low ← hexQuad? a' b' c' d'
      if 0xDC00 ≤ low && low ≤ 0xDFFF then
        unescape (Char.ofNat (0x10000 + (high - 0xD800) * 0x400 + (low - 0xDC00)) :: acc) rest
      else none
    else if 0xDC00 ≤ high && high ≤ 0xDFFF then none
    else unescape (Char.ofNat high :: acc) ('\\' :: 'u' :: a' :: b' :: c' :: d' :: rest)
  | '\\' :: 'u' :: a :: b :: c :: d :: rest => do
    let n ← hexQuad? a b c d
    if 0xD800 ≤ n && n ≤ 0xDFFF then none else unescape (Char.ofNat n :: acc) rest
  | '\\' :: e :: rest => unescape (escaped e :: acc) rest
  | c :: rest => unescape (c :: acc) rest

/-! ## §4. The grammar. -/

mutual

/-- One value and what follows. -/
def readValue : (fuel : Nat) → List Char → Option (Written × List Char)
  | 0, _ => none
  | fuel + 1, s =>
    match skipBlanks s with
    | 'n' :: 'u' :: 'l' :: 'l' :: rest => some (.null, rest)
    | 't' :: 'r' :: 'u' :: 'e' :: rest => some (.bool true, rest)
    | 'f' :: 'a' :: 'l' :: 's' :: 'e' :: rest => some (.bool false, rest)
    | '"' :: rest => (readInside [] rest).map fun (t, rest) => (.text t, rest)
    | '[' :: rest =>
      match skipBlanks rest with
      | ']' :: rest => some (.list [], rest)
      | rest => readItems fuel [] rest
    | '{' :: rest =>
      match skipBlanks rest with
      | '}' :: rest => some (.object [], rest)
      | rest => readMembers fuel [] rest
    | rest => (readNumber rest).map fun (n, rest) => (.number n, rest)

/-- The items of a list from the next one on, after those in `acc`. -/
def readItems : (fuel : Nat) → List Written → List Char → Option (Written × List Char)
  | 0, _, _ => none
  | fuel + 1, acc, s =>
    match readValue fuel s with
    | none => none
    | some (v, rest) =>
      match skipBlanks rest with
      | ']' :: rest => some (.list (v :: acc).reverse, rest)
      | ',' :: rest => readItems fuel (v :: acc) rest
      | _ => none

/-- The members of an object from the next one on, after those in `acc`. -/
def readMembers : (fuel : Nat) → List (List Char × Written) → List Char →
    Option (Written × List Char)
  | 0, _, _ => none
  | fuel + 1, acc, s =>
    match skipBlanks s with
    | '"' :: rest =>
      match readInside [] rest with
      | none => none
      | some (name, rest) =>
        match skipBlanks rest with
        | ':' :: rest =>
          match readValue fuel rest with
          | none => none
          | some (v, rest) =>
            match skipBlanks rest with
            | '}' :: rest => some (.object ((name, v) :: acc).reverse, rest)
            | ',' :: rest => readMembers fuel ((name, v) :: acc) rest
            | _ => none
        | _ => none
    | _ => none

end

/-- The one value that a text holds, with nothing but blanks around it. Every call takes a
character or closes a bracket, so twice the length is fuel enough. -/
def Written.read? (s : List Char) : Option Written :=
  match readValue (2 * s.length + 2) s with
  | some (v, rest) => if (skipBlanks rest).isEmpty then some v else none
  | none => none

/-! ## §5. The meaning. -/

/-- How many lists and objects may stand around a value. -/
def maxDepth : Nat := 127

/-- The number that the parts stand for. Digits alone give a whole number when it fits 64 bits; a
negative zero and anything larger give a double. -/
def Written.number? (p : Decimal.Parts) : Option Number :=
  if p.fraction.isEmpty && p.exponent.isNone then
    let n : Nat := p.whole.foldl (fun acc d => acc * 10 + d) 0
    if p.negative then
      if n ≠ 0 && n ≤ signedEnd then some (.int (-(n : Int))) else p.toFloat?.map .float
    else if n < unsignedEnd then some (.int n)
    else p.toFloat?.map .float
  else p.toFloat?.map .float

/-- The text for the characters between the quotes. -/
def Written.text? (inside : List Char) : Option String := (unescape [] inside).map String.ofList

mutual

/-- The value of what is written, inside at most `depth` further lists and objects. -/
def Written.valueIn? : (depth : Nat) → Written → Option Json
  | _, .null => some .null
  | _, .bool b => some (.bool b)
  | _, .number p => (Written.number? p).map .num
  | _, .text t => (Written.text? t).map .str
  | 0, .list _ => none
  | 0, .object _ => none
  | depth + 1, .list items => (Written.itemsIn? depth items).map .arr
  | depth + 1, .object members => (Written.membersIn? depth members).map .obj

/-- The values of the items. -/
def Written.itemsIn? : (depth : Nat) → List Written → Option (List Json)
  | _, [] => some []
  | depth, v :: rest => do
    let v ← Written.valueIn? depth v
    return v :: (← Written.itemsIn? depth rest)

/-- The values of the members. -/
def Written.membersIn? : (depth : Nat) → List (List Char × Written) →
    Option (List (String × Json))
  | _, [] => some []
  | depth, (name, v) :: rest => do
    let name ← Written.text? name
    let v ← Written.valueIn? depth v
    return (name, v) :: (← Written.membersIn? depth rest)

end

/-- The value of what is written. -/
def Written.value? (w : Written) : Option Json := Written.valueIn? maxDepth w

/-- The value that a text holds, in its normal form. -/
def read? (s : List Char) : Option Json :=
  (Written.read? s).bind Written.value? |>.map normalize

/-- Where a text nests too deep: the column, counted in bytes, of the bracket that opens one list or object
more than may stand around a value. `depth` of them are open so far, and `inText` says that the characters
are between quotes. -/
def overflowColumn? (inText : Bool) (depth column : Nat) : List Char → Option Nat
  | [] => none
  | '\\' :: c :: rest => overflowColumn? inText depth (column + 1 + c.utf8Size) rest
  | '"' :: rest => overflowColumn? (!inText) depth (column + 1) rest
  | c :: rest =>
    if inText then overflowColumn? true depth (column + c.utf8Size) rest
    else if c == '[' || c == '\x7b' then
      if depth = maxDepth then some column else overflowColumn? false (depth + 1) (column + 1) rest
    else if c == ']' || c == '\x7d' then overflowColumn? false (depth - 1) (column + 1) rest
    else overflowColumn? false depth (column + c.utf8Size) rest

end CodeIndex.Json
