/-!
# Blank characters, trimming and words

Everything this library reads is text that people typed: source lines, headings, queries, tool
results. The rule for what separates words is the same everywhere, and it is the Unicode
`White_Space` property. Texts are handled as lists of characters, so that every operation is a
recursion on the text itself.

  trim       : both ends lose their blanks
  words      : the maximal runs of characters that are not blank
  collapse   : the words again, one space between two of them
-/

namespace CodeIndex.Text

/-! ## §1. The class of blanks. -/

/-- The `White_Space` characters: tab to carriage return, space, next line, no-break space, the
Ogham space, the spaces of general punctuation, line and paragraph separator, and the ideographic
space. The zero width space and the byte order mark are not blank. -/
def isBlank (c : Char) : Bool :=
  let n := c.toNat
  (9 ≤ n && n ≤ 13) || n == 0x20 || n == 0x85 || n == 0xA0 || n == 0x1680
    || (0x2000 ≤ n && n ≤ 0x200A) || n == 0x2028 || n == 0x2029 || n == 0x202F || n == 0x205F
    || n == 0x3000

/-- A text with nothing but blanks in it; the empty text is one. -/
def allBlank (s : List Char) : Bool := s.all isBlank

/-! ## §2. Trimming. -/

/-- The text without the leading characters that satisfy `p`. -/
def dropLeading (p : Char → Bool) (s : List Char) : List Char := s.dropWhile p

/-- The text without the trailing characters that satisfy `p`. -/
def dropTrailing (p : Char → Bool) (s : List Char) : List Char := (s.reverse.dropWhile p).reverse

/-- The text without its leading blanks. -/
def trimStart (s : List Char) : List Char := dropLeading isBlank s

/-- The text without its trailing blanks. -/
def trimEnd (s : List Char) : List Char := dropTrailing isBlank s

/-- The text without the blanks at either end. -/
def trim (s : List Char) : List Char := trimEnd (trimStart s)

/-! ## §3. Words. -/

/-- The maximal runs of characters that are not blank, in order. -/
def words (s : List Char) : List (List Char) := (s.splitOnP isBlank).filter (!·.isEmpty)

/-- The words of a text with one space between neighbours. -/
def collapse (s : List Char) : List Char := [' '].intercalate (words s)

end CodeIndex.Text
