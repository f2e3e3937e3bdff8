import CodeIndex.Json.Decode

/-!
# Symbols and imports

What reading a source file yields: the symbols it declares, each with the lines it covers, and the
imports it makes.
-/

namespace CodeIndex

/-- What kind of thing a declaration declares. -/
inductive SymbolKind where
  | function
  /-- A class, or what the language has in its place, such as a structure. -/
  | classLike
  | method
  | const
  | type
  | interface
  | enum
  | variable
  deriving DecidableEq, Repr

/-- The word for a kind of symbol. -/
def SymbolKind.name : SymbolKind → String
  | .function => "function"
  | .classLike => "class"
  | .method => "method"
  | .const => "const"
  | .type => "type"
  | .interface => "interface"
  | .enum => "enum"
  | .variable => "variable"

instance : Vocabulary SymbolKind where
  what := "symbol kind"
  all := [.function, .classLike, .method, .const, .type, .interface, .enum, .variable]
  name := SymbolKind.name

/-- A declaration found in a source file. -/
structure Symbol where
  name : String
  kind : SymbolKind
  /-- The declaring line without what opens its body. -/
  signature : String
  /-- The declaring line, counted from one. -/
  startLine : Nat
  /-- The last line of the declaration. -/
  endLine : Nat
  exported : Bool
  deriving DecidableEq, Repr

/-- The members of a symbol as a value. -/
def Symbol.members (s : Symbol) : List (String × Json) :=
  [("name", .str s.name), ("kind", .str s.kind.name), ("signature", .str s.signature),
   ("start_line", .nat s.startLine), ("end_line", .nat s.endLine), ("exported", .bool s.exported)]

/-- A symbol as a value. -/
def Symbol.toJson (s : Symbol) : Json := .obj s.members

/-- The symbol that a value gives. -/
def Symbol.ofJson? (v : Json) : Option Symbol := do
  match ← v.record? ["name", "kind", "signature", "start_line", "end_line", "exported"] with
  | [name, kind, signature, first, last, exported] =>
    return ⟨← Json.required? Json.asStr? name, ← Json.required? Json.word? kind,
      ← Json.required? Json.asStr? signature, ← Json.required? (Json.unsigned? 64) first,
      ← Json.required? (Json.unsigned? 64) last, ← Json.required? Json.bool? exported⟩
  | _ => none

/-- An import: where from, and which names. -/
structure Import where
  /-- The module as it is written, or as a relative path where the language has its own notation. -/
  source : String
  /-- The imported names; none when the module is imported as a whole. -/
  names : List String
  deriving DecidableEq, Repr

/-- An import of a file by its place relative to the importing one, not of a package by name. -/
def Import.isRelative (i : Import) : Bool :=
  "./".toList.isPrefixOf i.source.toList || "../".toList.isPrefixOf i.source.toList
    || i.source == "." || i.source == ".."

/-- An import of a whole module. -/
def Import.whole (source : String) : Import := ⟨source, []⟩

/-- An import as a value. -/
def Import.toJson (i : Import) : Json :=
  .obj [("source", .str i.source), ("names", .list .str i.names)]

/-- The import that a value gives. -/
def Import.ofJson? (v : Json) : Option Import := do
  match ← v.record? ["source", "names"] with
  | [source, names] =>
    return ⟨← Json.required? Json.asStr? source, ← Json.orElse? (Json.list? Json.asStr?) [] names⟩
  | _ => none

end CodeIndex
