import CodeIndex.Text.Blank

/-!
# Search expressions

The search engine reads an expression, in which quotes and operators mean something. A query that
people type means none of that: it is a list of words. So each word is quoted, a quote in it written
twice, and a star after the closing quote says that the word may go on.

  expression?   the expression that says what a query says
  readWords?    the words of an expression that has nothing but quoted words
-/

namespace CodeIndex.Search

/-- A word between quotes, quotes in it written twice. -/
def quoteWord (word : List Char) : List Char :=
  '"' :: word.flatMap (fun c => if c = '"' then ['"', '"'] else [c]) ++ ['"']

/-- A quoted word, with a star where it may go on. -/
def writeWord (open? : Bool) (word : List Char) : List Char :=
  if open? then quoteWord word ++ ['*'] else quoteWord word

/-- The expression for the words of a query; `none` where it has no words. Each word may go on where
`open?` is set. -/
def expression? (open? : Bool) (query : List Char) : Option (List Char) :=
  match Text.words query with
  | [] => none
  | words => some ([' '].intercalate (words.map (writeWord open?)))

/-- The text of an expression ends where a zero character stands. -/
def untilZero (s : List Char) : List Char := s.takeWhile (· ≠ '\x00')

/-- Read a quoted word after its opening quote: the characters so far, last first, and what remains.
A quote written twice stands for itself, and one alone closes the word. -/
def readQuoted (acc : List Char) : List Char → Option (List Char × List Char)
  | [] => none
  | ['"'] => some (acc.reverse, [])
  | '"' :: c :: rest =>
    if c = '"' then readQuoted ('"' :: acc) rest else some (acc.reverse, c :: rest)
  | c :: rest => readQuoted (c :: acc) rest

/-- Read quoted words, each with whether a star follows it, with spaces between them. A word takes
two characters at least, so `fuel` need not exceed their number. -/
def readFrom? : (fuel : Nat) → List Char → Option (List (List Char × Bool))
  | 0, _ => none
  | _ + 1, [] => some []
  | fuel + 1, c :: rest =>
    if c = ' ' then readFrom? fuel rest
    else if c = '"' then
      match readQuoted [] rest with
      | none => none
      | some (word, '*' :: rest) => (readFrom? fuel rest).map ((word, true) :: ·)
      | some (word, rest) => (readFrom? fuel rest).map ((word, false) :: ·)
    else none

/-- The words of an expression that has nothing but quoted words, each with whether it may go on. -/
def readWords? (expression : List Char) : Option (List (List Char × Bool)) :=
  let text := untilZero expression
  readFrom? (text.length + 1) text

end CodeIndex.Search
