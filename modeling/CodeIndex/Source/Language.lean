import CodeIndex.Path
import CodeIndex.Vocabulary

/-!
# Languages

A file's language is told by the extension of its name, whatever the case of its letters.
-/

namespace CodeIndex

/-- The languages that files are told apart by. -/
inductive Language where
  | typeScript
  | javaScript
  | python
  | rust
  | go
  | java
  | c
  | cpp
  | markdown
  | text
  | unknown
  deriving DecidableEq, Repr

namespace Language

/-- The name of a language, in lower case. -/
def name : Language → String
  | .typeScript => "typescript"
  | .javaScript => "javascript"
  | .python => "python"
  | .rust => "rust"
  | .go => "go"
  | .java => "java"
  | .c => "c"
  | .cpp => "cpp"
  | .markdown => "markdown"
  | .text => "text"
  | .unknown => "unknown"

instance : Vocabulary Language where
  what := "language"
  all := [.typeScript, .javaScript, .python, .rust, .go, .java, .c, .cpp, .markdown, .text, .unknown]
  name := name

/-- The extensions of each language that has any. -/
def extensions : List (Language × List String) :=
  [(.typeScript, ["ts", "tsx", "mts", "cts"]),
   (.javaScript, ["js", "jsx", "mjs", "cjs"]),
   (.python, ["py", "pyi"]),
   (.rust, ["rs"]),
   (.go, ["go"]),
   (.java, ["java"]),
   (.c, ["c", "h"]),
   (.cpp, ["cpp", "cc", "cxx", "hpp", "hh", "hxx"]),
   (.markdown, ["md", "mdx", "markdown"]),
   (.text, ["txt", "rst", "json", "yaml", "yml", "toml", "ini", "cfg"])]

/-- The language with the given extension, in lower case. -/
def ofExtension (extension : String) : Language :=
  match extensions.find? fun (_, known) => known.contains extension with
  | some (language, _) => language
  | none => .unknown

/-- The language of the file at a path. -/
def ofPath (path : String) : Language :=
  match Path.extension? path.toList with
  | some extension => ofExtension (String.ofList (extension.map Char.toLower))
  | none => .unknown

/-- A language in which declarations are found. -/
def isSource : Language → Bool
  | .markdown | .text | .unknown => false
  | _ => true

end Language

end CodeIndex
