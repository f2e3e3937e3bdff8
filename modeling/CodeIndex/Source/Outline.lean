import CodeIndex.Source.Declaration
import CodeIndex.Source.Extent
import CodeIndex.Text.Lines

/-!
# The outline of a source file

The symbols that a source file declares, in the order of their lines. A line declares at most one.
Lines that are comments, or stand inside a comment or a documentation string, declare nothing.
-/

namespace CodeIndex

/-! ## §1. Comments. -/

/-- What is known of a line before it is looked at for declarations: whether it is passed over, and
whether the next line starts inside a comment. -/
structure CommentStep where
  skip : Bool
  inside : Bool
  deriving DecidableEq, Repr

/-- A line of Python: three quotes open and close a documentation string, a number sign starts a
comment. -/
def pythonComment (inside : Bool) (trimmed : List Char) : CommentStep :=
  let double := "\"\"\""
  let single := "'''"
  let quotes := Text.occurrences double.toList trimmed + Text.occurrences single.toList trimmed
  let opens := Text.startsWith double trimmed || Text.startsWith single trimmed
  ⟨inside || opens || Text.startsWith "#" trimmed, if quotes % 2 = 1 then !inside else inside⟩

/-- A line of any other language: a comment between slashes and stars, or to the end of the line. -/
def blockComment (inside : Bool) (trimmed : List Char) : CommentStep :=
  let closes := Text.has "*/".toList trimmed
  if inside then ⟨true, !closes⟩
  else if Text.startsWith "/*" trimmed then ⟨true, !closes⟩
  else ⟨Text.startsWith "//" trimmed || Text.startsWith "*" trimmed, false⟩

/-- How a line, without its leading blanks, stands to comments. -/
def Language.comment (language : Language) (inside : Bool) (trimmed : List Char) : CommentStep :=
  if language = .python then pythonComment inside trimmed else blockComment inside trimmed

/-! ## §2. Signatures and visibility. -/

/-- The most characters a signature keeps. -/
def maxSignature : Nat := 240

/-- A trimmed line without the brace or colon that opens a body. -/
def dropOpener (line : List Char) : List Char :=
  match Text.before? ['{'] line with
  | some rest => rest
  | none => (Text.before? [':'] line).getD line

/-- The declaring line without what opens its body, cut to its first characters. -/
def signature (line : List Char) : List Char :=
  (Text.trimEnd (dropOpener (Text.trim line))).take maxSignature

/-- Whether a declaration can be seen outside its file. -/
def Language.exports (language : Language) (d : Declaration) (trimmed : List Char) : Bool :=
  match language with
  | .typeScript | .javaScript | .rust | .java => d.marked
  | .go => (d.name.head?.map fun c => decide ('A' ≤ c ∧ c ≤ 'Z')).getD false
  | .python => d.name.head? != some '_'
  | .c | .cpp => !Text.startsWith "static" trimmed
  | .markdown | .text | .unknown => false

/-! ## §3. The outline. -/

/-- The symbol that a declaration on the first of some lines makes; `number` counts that line. -/
def Declaration.symbol (d : Declaration) (language : Language) (number : Nat)
    (line : List Char) (rest : List (List Char)) : Symbol where
  name := String.ofList d.name
  kind := d.kind
  signature := String.ofList (signature line)
  startLine := number
  endLine := number + language.extent (line :: rest)
  exported := language.exports d (Text.trimStart line)

/-- The symbols that some lines declare; the first line has the given number, and starts inside a
comment or not. -/
def Language.symbolsFrom (language : Language) (number : Nat) (inside : Bool) :
    List (List Char) → List Symbol
  | [] => []
  | line :: rest =>
    let step := language.comment inside (Text.trimStart line)
    let later := language.symbolsFrom (number + 1) step.inside rest
    if step.skip then later
    else
      match declaration? language.rules line with
      | some d => d.symbol language number line rest :: later
      | none => later

/-- The symbols that a file declares. -/
def Language.symbols (language : Language) (content : List Char) : List Symbol :=
  if language.rules.isEmpty then [] else language.symbolsFrom 1 false (Text.lines content)

end CodeIndex
