import CodeIndex.Json.Decode
import CodeIndex.Source.Language
import CodeIndex.Text.Blank
import CodeIndex.Text.Lines
import CodeIndex.Text.Search

/-!
# Chunks of documents

A document is searched by chunk. Markdown is split at its headings of the first three levels, and
any other text into windows of a fixed number of lines. A piece of nothing but blanks is dropped,
and the chunks that remain are numbered from zero.
-/

namespace CodeIndex

/-- A piece of a document. -/
structure Chunk where
  /-- The number of the chunk in its document, from zero. -/
  index : Nat
  heading : Option String
  /-- The first line, counted from one. -/
  startLine : Nat
  /-- The last line. -/
  endLine : Nat
  /-- The lines with line feeds between them. -/
  text : String
  deriving DecidableEq, Repr

/-- The members of a chunk as a value. -/
def Chunk.members (c : Chunk) : List (String × Json) :=
  [("index", .nat c.index), ("heading", .opt .str c.heading), ("start_line", .nat c.startLine),
   ("end_line", .nat c.endLine), ("text", .str c.text)]

/-- A chunk as a value. -/
def Chunk.toJson (c : Chunk) : Json := .obj c.members

namespace Document

/-- A piece of a document before it is numbered: its heading, the number of its first line, and its
lines. -/
structure Piece where
  heading : Option (List Char)
  start : Nat
  lines : List (List Char)
  deriving DecidableEq, Repr

/-- The lines of a piece with line feeds between them. -/
def Piece.text (p : Piece) : List Char := ['\n'].intercalate p.lines

/-- The chunk with the given number that a piece makes. -/
def Piece.chunk (p : Piece) (index : Nat) : Chunk where
  index := index
  heading := p.heading.map String.ofList
  startLine := p.start
  endLine := p.start + p.lines.length - 1
  text := String.ofList p.text

/-- The pieces that are not blank, numbered from zero. -/
def number (pieces : List Piece) : List Chunk :=
  (pieces.filter fun p => !Text.allBlank p.text).zipIdx.map fun (p, i) => p.chunk i

/-! ## §1. Markdown. -/

/-- The deepest level of heading that starts a new chunk. -/
def maxLevel : Nat := 3

/-- A line, without its leading blanks, that opens or closes a block of code. -/
def isFence (trimmed : List Char) : Bool :=
  (List.replicate 3 '\x60').isPrefixOf trimmed || (List.replicate 3 '~').isPrefixOf trimmed

/-- The text of the heading that a line, without its leading blanks, is. A space or the end of the
line follows the number signs; those at the end are not part of the text. -/
def heading? (trimmed : List Char) : Option (List Char) :=
  let level := (trimmed.takeWhile (· == '#')).length
  let rest := trimmed.drop level
  if level = 0 || maxLevel < level then none
  else if rest.isEmpty || rest.head? == some ' ' then
    some (Text.trim (Text.dropTrailing (· == '#') (Text.trim rest)))
  else none

/-- The pieces of a Markdown document from a line on: the number of that line, whether it stands in
a block of code, and the piece that is open, its lines last first. -/
def markdownFrom (number : Nat) (fenced : Bool) (current : Piece) :
    List (List Char) → List Piece
  | [] => [{ current with lines := current.lines.reverse }]
  | line :: rest =>
    let trimmed := Text.trimStart line
    let fenced := if isFence trimmed then !fenced else fenced
    match if fenced then none else heading? trimmed with
    | some heading =>
      { current with lines := current.lines.reverse }
        :: markdownFrom (number + 1) fenced ⟨some heading, number, [line]⟩ rest
    | none =>
      markdownFrom (number + 1) fenced { current with lines := line :: current.lines } rest

/-- The chunks of a Markdown document. -/
def markdownChunks (content : List Char) : List Chunk :=
  number (markdownFrom 1 false ⟨none, 1, []⟩ (Text.lines content))

/-! ## §2. Windows of lines. -/

/-- Lines cut into windows; the first line has the given number. A round takes a line at least, so
`fuel` need not exceed their number. -/
def windowsFrom (window : Nat) : (fuel number : Nat) → List (List Char) → List Piece
  | 0, _, _ => []
  | _ + 1, _, [] => []
  | fuel + 1, number, lines =>
    ⟨none, number, lines.take window⟩
      :: windowsFrom window fuel (number + window) (lines.drop window)

/-- The chunks of a text in windows of lines; a window has at least one line. -/
def lineChunks (content : List Char) (window : Nat) : List Chunk :=
  let lines := Text.lines content
  number (windowsFrom (max 1 window) lines.length 1 lines)

/-- The chunks of a document in the given language. -/
def chunks (language : Language) (window : Nat) (content : List Char) : List Chunk :=
  if language = .markdown then markdownChunks content else lineChunks content window

end Document

end CodeIndex
