import CodeIndex.Source.Language
import CodeIndex.Source.Machine
import CodeIndex.Source.Symbol
import CodeIndex.Text.Search

/-!
# Declarations

Which lines declare something is said per language by a table of rules. A rule gives the kind of
the symbol, whether it applies to indented lines, and the pattern of the line; the first rule that
a line meets counts, so the more specific patterns come first.

Patterns that look like a call also meet statements such as `if (x)`. A function or a method is
therefore refused when its name, or the first word of its line, is a word that opens a statement.
-/

namespace CodeIndex

/-! ## §1. Rules. -/

/-- The lines that a rule applies to. -/
inductive Scope where
  /-- Lines that start at the margin. -/
  | topLevel
  /-- Lines that start with a blank. -/
  | nested
  /-- All lines. -/
  | any
  deriving DecidableEq, Repr

/-- A rule of a table. -/
structure Rule where
  kind : SymbolKind
  scope : Scope
  program : Program

/-- The rule for lines that meet a pattern. -/
def Rule.of (kind : SymbolKind) (scope : Scope) (pattern : Pattern) : Rule :=
  ⟨kind, scope, pattern.program⟩

/-- A declaration found on a line. -/
structure Declaration where
  kind : SymbolKind
  name : List Char
  /-- The line holds the word that makes the declaration visible outside its file. -/
  marked : Bool
  deriving Repr

/-- Words that open statements, never declarations. -/
def controlWords : List String :=
  ["if", "else", "for", "while", "do", "switch", "case", "catch", "try", "return", "throw",
   "new", "delete", "typeof", "await", "yield", "function", "super", "sizeof", "with",
   "elif", "except", "finally", "match", "loop", "defer", "go", "select"]

/-- Whether a text is one of those words. -/
def isControlWord (s : List Char) : Bool := controlWords.any fun w => w.toList == s

/-- The first word of a line: its leading letters, digits and underscores. -/
def firstWord (line : List Char) : List Char :=
  (Text.trimStart line).takeWhile fun c => Text.isAlphanumeric c || c == '_'

/-- Whether a name found on a line makes a declaration of the given kind. The word `function` leads
a real declaration, so as a first word it does no harm. -/
def SymbolKind.admits (kind : SymbolKind) (name line : List Char) : Bool :=
  !name.isEmpty &&
    match kind with
    | .function | .method =>
      !isControlWord name
        && (firstWord line == "function".toList || !isControlWord (firstWord line))
    | .variable => !isControlWord name
    | _ => true

/-- A line that starts with a blank. -/
def isIndented (line : List Char) : Bool := (line.head?.map Text.isBlank).getD false

/-- Whether a rule applies to a line. -/
def Scope.covers (scope : Scope) (line : List Char) : Bool :=
  match scope with
  | .topLevel => !isIndented line
  | .nested => isIndented line
  | .any => true

/-- What a rule finds on a line. -/
def Rule.find? (rule : Rule) (line : List Char) : Option Declaration :=
  if rule.scope.covers line then
    match rule.program.meets? (Place.start line) with
    | some m =>
      if rule.kind.admits (m.text .name) line then
        some ⟨rule.kind, m.text .name, (m.part? .marker).isSome⟩
      else none
    | none => none
  else none

/-- What the first rule that finds something finds on a line. -/
def declaration? (rules : List Rule) (line : List Char) : Option Declaration :=
  rules.findSome? fun rule => rule.find? line

/-! ## §2. Common patterns. -/

namespace Pattern

/-- The declared name. -/
def declares (p : Pattern) : Pattern := named .name p

/-- A word, with the gap after it, that makes the declaration visible outside. -/
def marker (p : Pattern) : Pattern := maybe (named .marker p)

/-- A name that may hold dollar signs. -/
def dollarName : Pattern :=
  one (fun c => Text.isAsciiLetter c || c == '_' || c == '$')
    ++ many (one fun c => Text.isWordChar c || c == '$')

/-- A name in capitals. -/
def capitalName : Pattern :=
  one (fun c => 'A' ≤ c && c ≤ 'Z')
    ++ many (one fun c => ('A' ≤ c && c ≤ 'Z') || c.isDigit || c == '_')

/-- A bracketed piece without its closing bracket inside. -/
def bracketed (opening closing : Char) : Pattern :=
  one (· == opening) ++ many (except [closing]) ++ one (· == closing)

/-- A type annotation: a colon and anything up to an equals sign. -/
def annotation : Pattern := text ":" ++ several (except ['='])

end Pattern

open Pattern

/-! ## §3. The tables. -/

/-- Rules for JavaScript and TypeScript. -/
def scriptRules : List Rule :=
  let exported := marker (word "export")
  let name := declares dollarName
  [.of .function .any
      (blanks ++ exported ++ maybe (word "default") ++ maybe (word "declare") ++ maybe (word "async")
        ++ text "function" ++ blanks ++ maybe (text "*") ++ blanks ++ name),
   .of .classLike .any
      (blanks ++ exported ++ maybe (word "default") ++ maybe (word "declare")
        ++ maybe (word "abstract") ++ word "class" ++ name),
   .of .interface .any
      (blanks ++ exported ++ maybe (word "declare") ++ word "interface" ++ name),
   .of .type .topLevel
      (exported ++ maybe (word "declare") ++ word "type" ++ name ++ blanks
        ++ maybe (text "<" ++ many (except ['=']) ++ text ">") ++ blanks ++ text "="),
   .of .enum .any
      (blanks ++ exported ++ maybe (word "declare") ++ maybe (word "const") ++ word "enum" ++ name),
   .of .function .topLevel
      (exported ++ oneOf [text "const", text "let", text "var"] ++ gap ++ name ++ blanks
        ++ maybe annotation ++ text "=" ++ blanks ++ maybe (word "async")
        ++ oneOf [text "function" ++ wordEdge,
             bracketed '(' ')' ++ blanks ++ maybe annotation ++ text "=>",
             dollarName ++ blanks ++ text "=>"]),
   .of .const .topLevel (exported ++ maybe (word "declare") ++ word "const" ++ name),
   .of .variable .topLevel
      (exported ++ maybe (word "declare") ++ oneOf [text "let", text "var"] ++ gap ++ name),
   .of .method .nested
      (gap ++ anyWords ["public", "private", "protected", "static", "async", "readonly", "override",
             "abstract", "get", "set"]
        ++ declares (maybe (text "#") ++ dollarName) ++ blanks
        ++ maybe (bracketed '<' '>') ++ blanks ++ bracketed '(' ')' ++ blanks
        ++ maybe (text ":" ++ blanks ++ several (except ['{', ';', '='])) ++ one (· == '{') ++ blanks
        ++ textEnd)]

/-- Rules for Python. -/
def pythonRules : List Rule :=
  let assigned := blanks ++ maybe annotation ++ text "=" ++ except ['=']
  [.of .function .topLevel
      (maybe (word "async") ++ word "def" ++ declares wordRun ++ blanks ++ text "("),
   .of .method .nested
      (gap ++ maybe (word "async") ++ word "def" ++ declares wordRun ++ blanks ++ text "("),
   .of .classLike .any (blanks ++ word "class" ++ declares wordRun),
   .of .const .topLevel (declares capitalName ++ assigned),
   .of .variable .topLevel
      (declares (one (fun c => ('a' ≤ c && c ≤ 'z') || c == '_') ++ many (one Text.isWordChar))
        ++ assigned)]

/-- Rules for Rust. -/
def rustRules : List Rule :=
  let exported := marker (text "pub" ++ maybe (bracketed '(' ')') ++ gap)
  let name := declares wordRun
  let qualifiers := maybe (word "default") ++ maybe (word "const") ++ maybe (word "async")
    ++ maybe (word "unsafe") ++ maybe (word "extern" ++ bracketed '"' '"' ++ gap)
  [.of .function .topLevel (exported ++ qualifiers ++ word "fn" ++ name),
   .of .method .nested (gap ++ exported ++ qualifiers ++ word "fn" ++ name),
   .of .classLike .any
      (blanks ++ exported ++ oneOf [text "struct", text "union"] ++ gap ++ name),
   .of .enum .any (blanks ++ exported ++ word "enum" ++ name),
   .of .interface .any (blanks ++ exported ++ maybe (word "unsafe") ++ word "trait" ++ name),
   .of .type .any
      (blanks ++ exported ++ word "type" ++ name ++ blanks
        ++ maybe (text "<" ++ many (except ['=']) ++ text ">") ++ blanks ++ text "="),
   .of .const .any
      (blanks ++ exported ++ oneOf [text "const", text "static"] ++ gap ++ maybe (word "mut")
        ++ name ++ blanks ++ text ":")]

/-- Rules for Go. -/
def goRules : List Rule :=
  let name := declares wordRun
  [.of .method .topLevel (word "func" ++ bracketed '(' ')' ++ blanks ++ name),
   .of .function .topLevel (word "func" ++ name),
   .of .classLike .topLevel (word "type" ++ name ++ gap ++ text "struct" ++ wordEdge),
   .of .interface .topLevel (word "type" ++ name ++ gap ++ text "interface" ++ wordEdge),
   .of .type .topLevel (word "type" ++ name ++ wordEdge),
   .of .const .topLevel (word "const" ++ name),
   .of .variable .topLevel (word "var" ++ name)]

/-- Rules for Java. -/
def javaRules : List Rule :=
  let exported := marker (word "public")
  let dotted := several (one fun c => Text.isWordChar c || c == '.')
  let arrays := many (text "[]")
  [.of .classLike .any
      (blanks ++ exported
        ++ anyWords ["protected", "private", "abstract", "final", "static", "sealed"]
        ++ oneOf [text "class", text "record"] ++ gap ++ declares wordRun),
   .of .interface .any
      (blanks ++ exported ++ anyWords ["protected", "private", "abstract", "static", "sealed"]
        ++ maybe (text "@") ++ word "interface" ++ declares wordRun),
   .of .enum .any
      (blanks ++ exported ++ anyWords ["protected", "private", "static"] ++ word "enum"
        ++ declares wordRun),
   .of .const .nested
      (gap ++ exported ++ maybe (oneOf [text "protected", text "private"] ++ gap)
        ++ word "static" ++ word "final" ++ dotted
        ++ maybe (text "<" ++ many (except ['=']) ++ text ">") ++ arrays ++ gap
        ++ declares capitalName ++ blanks ++ text "="),
   .of .method .nested
      (gap ++ exported
        ++ anyWords ["protected", "private", "static", "final", "abstract", "synchronized",
             "native", "default"]
        ++ maybe (text "<" ++ several (except ['>']) ++ text ">" ++ gap) ++ dotted
        ++ maybe (text "<" ++ many (except ['(', ')']) ++ text ">") ++ arrays ++ gap
        ++ declares wordRun ++ blanks ++ text "(" ++ many (except [';']) ++ textEnd)]

/-- Rules for C and C++. -/
def cRules : List Rule :=
  let asciiName := one (fun c => Text.isAsciiLetter c || c == '_')
  [.of .const .topLevel
      (text "#" ++ blanks ++ word "define" ++ declares (asciiName ++ many (one Text.isWordChar))),
   .of .enum .any
      (blanks ++ maybe (word "typedef") ++ word "enum"
        ++ maybe (oneOf [word "class", word "struct"]) ++ declares wordRun),
   .of .classLike .any
      (blanks ++ maybe (word "typedef") ++ oneOf [text "class", text "struct", text "union"] ++ gap
        ++ declares wordRun ++ blanks ++ maybe (text "final" ++ blanks)
        ++ maybe (text ":" ++ many (except [';', '{'])) ++ maybe (one (· == '{')) ++ blanks
        ++ textEnd),
   .of .type .topLevel
      (word "typedef" ++ few (except [';', '{']) ++ wordEdge ++ declares wordRun ++ blanks
        ++ text ";"),
   .of .function .topLevel
      (maybe (word "static") ++ anyWords ["inline", "extern", "virtual", "constexpr"]
        ++ severalFew (one fun c => Text.isWordChar c || Text.isBlank c
             || [':', '<', '>', ',', '*', '&'].contains c)
        ++ several (one fun c => Text.isBlank c || c == '*' || c == '&')
        ++ declares (asciiName ++ many (one fun c => Text.isWordChar c || c == ':' || c == '~'))
        ++ blanks ++ text "(" ++ many (except [';']) ++ textEnd)]

/-- The table of a language; empty for a language without declarations. -/
def Language.rules : Language → List Rule
  | .typeScript | .javaScript => scriptRules
  | .python => pythonRules
  | .rust => rustRules
  | .go => goRules
  | .java => javaRules
  | .c | .cpp => cRules
  | .markdown | .text | .unknown => []

end CodeIndex
