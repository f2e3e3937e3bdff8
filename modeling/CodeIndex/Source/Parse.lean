import CodeIndex.Source.Outline
import CodeIndex.Source.Reference
import CodeIndex.Tokens

/-!
# Reading a source file

Everything that is kept of a source file: what it declares, what it imports, and how many tokens it
would take to read. The language goes by the name of the file. A file in no known language declares
and imports nothing.
-/

namespace CodeIndex

/-- What reading a source file yields. -/
structure Parsed where
  symbols : List Symbol
  imports : List Import
  tokens : Nat
  deriving Repr

/-- What reading yields, as a value. -/
def Parsed.toJson (p : Parsed) : Json :=
  .obj [("symbols", .list Symbol.toJson p.symbols), ("imports", .list Import.toJson p.imports),
    ("token_estimate", .nat p.tokens)]

/-- Read the content of the file at a path. -/
def parse (path : String) (content : List Char) : Parsed :=
  let language := Language.ofPath path
  ⟨language.symbols content, language.imports content, estimateTokens content⟩

end CodeIndex
