/-!
# Lines

A line feed ends a line, and a carriage return right before it belongs to the line end. A carriage
return anywhere else is part of the text, also at the end of a last line that no line feed closes.
A text that ends in a line feed has no empty last line.
-/

namespace CodeIndex.Text

/-- What is known of a text read from its end: the lines found so far, and whether the text read
so far starts with a line feed. -/
structure LinesRead where
  lines : List (List Char)
  atFeed : Bool

/-- Put one more character in front of what has been read. -/
def LinesRead.push (c : Char) (r : LinesRead) : LinesRead :=
  if c == '\n' then ⟨[] :: r.lines, true⟩
  else if c == '\r' && r.atFeed then ⟨r.lines, false⟩
  else match r.lines with
    | [] => ⟨[[c]], false⟩
    | line :: rest => ⟨(c :: line) :: rest, false⟩

/-- The lines of a text, without their line ends. -/
def lines (s : List Char) : List (List Char) :=
  (s.foldr LinesRead.push ⟨[], false⟩).lines

end CodeIndex.Text
