import CodeIndex.Source.Symbol

/-!
# Changes of a file's symbols

What happened to the symbols of a file between two readings of it. A symbol is told by its name; it
was added, or removed, or its signature changed.
-/

namespace CodeIndex

/-- What happened to a symbol. -/
inductive ChangeKind where
  | added
  | removed
  | sigChanged
  deriving DecidableEq, Repr

/-- The word for what happened. -/
def ChangeKind.name : ChangeKind → String
  | .added => "added"
  | .removed => "removed"
  | .sigChanged => "sig_changed"

instance : Vocabulary ChangeKind where
  what := "change kind"
  all := [.added, .removed, .sigChanged]
  name := ChangeKind.name

/-- What is said of the symbol. -/
def ChangeKind.verb : ChangeKind → String
  | .added => "added"
  | .removed => "removed"
  | .sigChanged => "signature changed"

/-- Whether what was observed about the symbol no longer holds. -/
def ChangeKind.invalidates : ChangeKind → Bool
  | .added => false
  | .removed | .sigChanged => true

/-- A change of one symbol. -/
structure SymbolChange where
  kind : ChangeKind
  symbol : String
  symbolKind : SymbolKind
  oldSignature : Option String
  newSignature : Option String
  /-- The change in words. -/
  description : String
  deriving DecidableEq, Repr

/-- A change, described by the kind and name of the symbol and what happened to it. -/
def SymbolChange.of (kind : ChangeKind) (symbol : String) (symbolKind : SymbolKind)
    (oldSignature newSignature : Option String) : SymbolChange where
  kind := kind
  symbol := symbol
  symbolKind := symbolKind
  oldSignature := oldSignature
  newSignature := newSignature
  description := symbolKind.name ++ " \x60" ++ symbol ++ "\x60 " ++ kind.verb

/-- A change as a value. -/
def SymbolChange.toJson (c : SymbolChange) : Json :=
  .obj [("kind", .str c.kind.name), ("symbol", .str c.symbol),
    ("symbol_kind", .str c.symbolKind.name), ("old_signature", .opt .str c.oldSignature),
    ("new_signature", .opt .str c.newSignature), ("description", .str c.description)]

/-- The change that a value gives. -/
def SymbolChange.ofJson? (v : Json) : Option SymbolChange := do
  match ← v.record?
      ["kind", "symbol", "symbol_kind", "old_signature", "new_signature", "description"] with
  | [kind, symbol, symbolKind, old, new, description] =>
    return ⟨← Json.required? Json.word? kind, ← Json.required? Json.asStr? symbol,
      ← Json.required? Json.word? symbolKind, ← Json.optional? Json.asStr? old,
      ← Json.optional? Json.asStr? new, ← Json.required? Json.asStr? description⟩
  | _ => none

/-- The changes of a file since it was last read. -/
structure FileDiff where
  path : String
  /-- Whether the file had not been read before, so that there is nothing to compare with. -/
  isFirst : Bool
  changes : List SymbolChange
  deriving DecidableEq, Repr

/-- Changes as a value. -/
def FileDiff.toJson (d : FileDiff) : Json :=
  .obj [("file_path", .str d.path), ("first_observation", .bool d.isFirst),
    ("changes", .list SymbolChange.toJson d.changes)]

/-- The changes that a value gives. -/
def FileDiff.ofJson? (v : Json) : Option FileDiff := do
  match ← v.record? ["file_path", "first_observation", "changes"] with
  | [path, isFirst, changes] =>
    return ⟨← Json.required? Json.asStr? path, ← Json.required? Json.bool? isFirst,
      ← Json.required? (Json.list? SymbolChange.ofJson?) changes⟩
  | _ => none

end CodeIndex
