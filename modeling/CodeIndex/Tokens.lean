import CodeIndex.Text.Blank

/-!
# Token estimates

How many tokens a reader would spend on a text. Prose takes about four characters to a token and
dense code about three; the share of characters that are typical of code decides in between.
-/

namespace CodeIndex

/-- The characters that are typical of code. -/
def isCodeMark (c : Char) : Bool :=
  ['{', '}', '[', ']', '(', ')', ';', ':', '=', '<', '>', ',', '.', '|', '&', '!', '*', '+', '-',
   '/', '\\', '"', '\'', '\x60'].contains c

/-- An estimate of the tokens in a text: none for a blank one, and otherwise at least one. -/
def estimateTokens (s : List Char) : Nat :=
  if Text.allBlank s then 0
  else
    let total := Float.ofNat s.length
    let marks := Float.ofNat (s.filter isCodeMark).length
    let ratio := marks / total * 6.0
    let density := if ratio < 1.0 then ratio else 1.0
    max 1 (total / (4.0 - density)).ceil.toUInt64.toNat

end CodeIndex
