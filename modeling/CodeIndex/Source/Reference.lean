import CodeIndex.Source.Language
import CodeIndex.Source.Machine
import CodeIndex.Source.Symbol
import CodeIndex.Text.Search

/-!
# Imports

The imports that a source file makes, in the order in which they stand. Each language has its
patterns, and each pattern says how the module and the names are read off the parts it meets. Where
a language writes relative modules in a notation of its own, the module is given as the relative
path that it stands for.
-/

namespace CodeIndex

open Pattern

/-- An import and the place where it stands. -/
structure Reference where
  offset : Nat
  imported : Import

/-- The imports in the order of their places; of two at one place the first found comes first. -/
def Reference.inOrder (found : List Reference) : List Import :=
  (found.mergeSort fun a b => a.offset ≤ b.offset).map (·.imported)

/-- The imports that a pattern finds, one for each match. -/
def Pattern.references (pattern : Pattern) (content : List Char) (read : Met → Import) :
    List Reference :=
  (pattern.matches content).map fun m => ⟨m.offset, read m⟩

/-- The text of a part as a string. -/
def Met.string (m : Met) (part : Part) : String := String.ofList (m.text part)

/-- A character other than a quote or an apostrophe. -/
def notQuote : Pattern := except ['\'', '"']

/-- A quote or an apostrophe. -/
def anyQuote : Pattern := one fun c => c == '\'' || c == '"'

/-- A module between quotes of either kind. -/
def quotedSource : Pattern := anyQuote ++ named .source (several notQuote) ++ anyQuote

/-! ## §1. JavaScript and TypeScript. -/

namespace Script

/-- A character of a name. -/
def nameChar : Pattern := one fun c => Text.isWordChar c || c == '$'

/-- A list between braces. -/
def braced : Pattern := one (· == '{') ++ many (except ['}']) ++ one (· == '}')

/-- `import … from '…'`. -/
def importFrom : Pattern :=
  lineStart ++ blanks ++ word "import" ++ maybe (word "type")
    ++ named .clause (few (except [';', '\'', '"'])) ++ blanks ++ text "from" ++ blanks
    ++ quotedSource

/-- `export … from '…'`. -/
def exportFrom : Pattern :=
  lineStart ++ blanks ++ word "export" ++ maybe (word "type")
    ++ named .clause
        (oneOf [text "*" ++ maybe (gap ++ text "as" ++ gap ++ several nameChar), braced])
    ++ blanks ++ text "from" ++ blanks ++ quotedSource

/-- `const … = require('…')`. -/
def required : Pattern :=
  oneOf [text "const", text "let", text "var"] ++ gap
    ++ named .clause (oneOf [braced, several nameChar])
    ++ blanks ++ text "=" ++ blanks ++ text "require(" ++ blanks ++ quotedSource ++ blanks
    ++ text ")"

/-- `import '…'`. -/
def sideEffect : Pattern := lineStart ++ blanks ++ text "import" ++ blanks ++ quotedSource

/-- The piece of a clause before its first opening brace, and what stands between that and its last
closing brace. -/
def splitClause (clause : List Char) : List Char × Option (List Char) :=
  match Text.cut? ['{'] clause with
  | some (head, rest) =>
    match Text.cutLast? ['}'] rest with
    | some (inside, _) => (head, some inside)
    | none => (clause, none)
  | none => (clause, none)

/-- The name that an item of a braced list imports: the first word, after a `type` in front. -/
def itemName (item : List Char) : Option (List Char) :=
  let item := Text.trim item
  let item := Text.trim ((Text.after? "type ".toList item).getD item)
  (Text.words item).head?

/-- The names that a clause imports: `default` for each default binding, then the names in the
braced list as they are called in the module. -/
def clauseNames (clause : List Char) : List String :=
  let (head, inside) := splitClause (Text.trim clause)
  let bindings := ((head.splitOn ',').map Text.trim).filter fun part =>
    !part.isEmpty && part.head? != some '*'
  bindings.map (fun _ => "default")
    ++ ((inside.map fun list => (list.splitOn ',').filterMap itemName).getD []).map String.ofList

/-- The imports of a file. -/
def imports (content : List Char) : List Import :=
  let withClause (m : Met) : Import := ⟨m.string .source, clauseNames (m.text .clause)⟩
  Reference.inOrder <|
    importFrom.references content withClause ++ exportFrom.references content withClause
      ++ required.references content withClause
      ++ sideEffect.references content fun m => .whole (m.string .source)

end Script

/-! ## §2. Python. -/

namespace Python

/-- `from … import …`, the names between parentheses or up to a comment. -/
def fromImport : Pattern :=
  lineStart ++ blanks ++ word "from"
    ++ named .source (several (one fun c => Text.isWordChar c || c == '.')) ++ gap
    ++ word "import"
    ++ named .clause
        (oneOf [text "(" ++ many (except [')']) ++ text ")", several (except ['\n', '#'])])

/-- `import …, …`. -/
def plainImport : Pattern :=
  lineStart ++ blanks ++ word "import"
    ++ named .source (several (one fun c => Text.isWordChar c || c == '.' || c == ',' || c == ' '))

/-- The relative path for a module with dots in front: one dot is the importing file's directory,
each further dot one directory up. A module without dots in front stays as it is. -/
def modulePath (name : List Char) : List Char :=
  let dots := (name.takeWhile (· == '.')).length
  if dots = 0 then name
  else
    let rest := Text.replaceChar '.' '/' (name.drop dots)
    let base := if dots = 1 then ['.']
      else ['/'].intercalate (List.replicate (dots - 1) ['.', '.'])
    if rest.isEmpty then base else base ++ '/' :: rest

/-- The names of a list, as they are called in the module; a star names nothing. -/
def listNames (list : List Char) : List String :=
  let inside := Text.dropTrailing (· == ')') (Text.dropLeading (· == '(') (Text.trim list))
  (((inside.splitOn ',').filterMap fun part => (Text.words part).head?).filter
    fun name => name != ['*']).map String.ofList

/-- The imports of a file. -/
def imports (content : List Char) : List Import :=
  let modules (m : Met) : List Reference :=
    (((m.text .source).splitOn ',').filterMap fun part => (Text.words part).head?).map
      fun name => ⟨m.offset, .whole (String.ofList name)⟩
  Reference.inOrder <|
    fromImport.references content
        (fun m => ⟨String.ofList (modulePath (m.text .source)), listNames (m.text .clause)⟩)
      ++ (plainImport.matches content).flatMap modules

end Python

/-! ## §3. Rust. -/

namespace Rust

/-- `pub`, perhaps with a restriction. -/
def visibility : Pattern :=
  maybe (text "pub" ++ maybe (text "(" ++ many (except [')']) ++ text ")") ++ gap)

/-- `mod …;`. -/
def modItem : Pattern :=
  lineStart ++ blanks ++ visibility ++ word "mod" ++ named .source wordRun ++ blanks ++ text ";"

/-- `use …;`. -/
def useItem : Pattern :=
  lineStart ++ blanks ++ visibility ++ word "use" ++ named .source (several (except [';']))
    ++ text ";"

/-- The last segment of a path. -/
def lastSegment (path : List Char) : List Char :=
  match Text.cutLast? "::".toList path with
  | some (_, last) => last
  | none => path

/-- The name that an item of a braced list imports. -/
def itemName (item : List Char) : Option (List Char) := do
  let first ← (Text.words item).head?
  let isBrace (c : Char) : Bool := c == '{' || c == '}'
  let name := Text.dropTrailing isBrace (Text.dropLeading isBrace (lastSegment first))
  if name.isEmpty || name == "self".toList || name == ['*'] then none else some name

/-- The import that a path stands for. -/
def useImport (path : List Char) : Import :=
  let path := Text.collapse path
  match Text.cut? [':', ':', '{'] path with
  | some (source, list) =>
    ⟨String.ofList source,
      (((Text.dropTrailing (· == '}') list).splitOn ',').filterMap itemName).map String.ofList⟩
  | none =>
    match Text.cutLast? "::".toList path with
    | some (source, last) =>
      let name := (Text.words last).head?.getD last
      ⟨String.ofList source, if name == ['*'] then [] else [String.ofList name]⟩
    | none => .whole (String.ofList path)

/-- The imports of a file. -/
def imports (content : List Char) : List Import :=
  Reference.inOrder <|
    modItem.references content (fun m => .whole (String.ofList ('.' :: '/' :: m.text .source)))
      ++ useItem.references content fun m => useImport (m.text .source)

end Rust

/-! ## §4. Go, Java and C. -/

namespace Go

/-- `import "…"`, perhaps with a name in front of the module. -/
def single : Pattern :=
  lineStart ++ blanks ++ word "import"
    ++ maybe (several (one fun c => Text.isWordChar c || c == '.') ++ gap)
    ++ text "\"" ++ named .source (several (except ['"'])) ++ text "\""

/-- `import ( … )`. -/
def block : Pattern :=
  wordEdge ++ text "import" ++ blanks ++ text "("
    ++ named .clause (few (one fun _ => true)) ++ text ")"

/-- A module between quotes. -/
def quotedModule : Pattern := text "\"" ++ named .source (several (except ['"'])) ++ text "\""

/-- The imports of a file. -/
def imports (content : List Char) : List Import :=
  let inBlock (m : Met) : List Reference :=
    match m.part? .clause with
    | some body =>
      (quotedModule.matches body.text).map fun s =>
        ⟨body.start.offset + s.offset, .whole (s.string .source)⟩
    | none => []
  Reference.inOrder <|
    single.references content (fun m => .whole (m.string .source))
      ++ (block.matches content).flatMap inBlock

end Go

namespace Java

/-- `import …;`. -/
def item : Pattern :=
  lineStart ++ blanks ++ word "import" ++ maybe (word "static")
    ++ named .source
        (several (one fun c => Text.isWordChar c || c == '.') ++ maybe (text ".*"))
    ++ blanks ++ text ";"

/-- The import that a qualified name stands for. -/
def nameImport (path : List Char) : Import :=
  match Text.cutLast? ['.'] path with
  | some (package, last) =>
    if last == ['*'] then .whole (String.ofList package)
    else ⟨String.ofList package, [String.ofList last]⟩
  | none => .whole (String.ofList path)

/-- The imports of a file. -/
def imports (content : List Char) : List Import :=
  (item.matches content).map fun m => nameImport (m.text .source)

end Java

namespace C

/-- `#include "…"` or `#include <…>`. -/
def item : Pattern :=
  lineStart ++ blanks ++ text "#" ++ blanks ++ text "include" ++ blanks
    ++ oneOf [text "\"" ++ named .source (several (except ['"'])) ++ text "\"",
         text "<" ++ named .system (several (except ['>'])) ++ text ">"]

/-- A header between quotes is looked for beside the including file. -/
def localHeader (path : List Char) : List Char :=
  if Text.startsWith "./" path || Text.startsWith "../" path then path else '.' :: '/' :: path

/-- The imports of a file. -/
def imports (content : List Char) : List Import :=
  (item.matches content).map fun m =>
    match m.part? .source with
    | some header => .whole (String.ofList (localHeader header.text))
    | none => .whole (m.string .system)

end C

/-- The imports that a file makes. -/
def Language.imports (language : Language) (content : List Char) : List Import :=
  match language with
  | .typeScript | .javaScript => Script.imports content
  | .python => Python.imports content
  | .rust => Rust.imports content
  | .go => Go.imports content
  | .java => Java.imports content
  | .c | .cpp => C.imports content
  | .markdown | .text | .unknown => []

end CodeIndex
