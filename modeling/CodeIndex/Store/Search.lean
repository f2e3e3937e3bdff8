import CodeIndex.Search.Rank
import CodeIndex.Store.Basic

/-!
# Searching the store

Symbols are searched by name and signature, documents by the heading and text of their chunks, and
observations by their text and what they are about. Only in symbols may a word of the query go on.
-/

namespace CodeIndex.Store

/-- The terms of a column that may be absent. -/
def column (text : Option String) : List (List Char) :=
  match text with
  | some s => Text.terms s.toList
  | none => []

/-- The columns that a symbol is found by. -/
def symbolColumns (r : SymbolRow) : Search.Columns :=
  [column (some r.symbol.name), column (some r.symbol.signature)]

/-- The columns that a chunk is found by. -/
def chunkColumns (r : ChunkRow) : Search.Columns :=
  [column r.chunk.heading, column (some r.chunk.text)]

/-- The columns that an observation is found by. -/
def observationColumns (r : ObservationRow) : Search.Columns :=
  [column (some r.observation.text), column r.observation.file, column r.observation.symbol]

/-- The rows that a query finds, best first. -/
def hits (columns : α → Search.Columns) (openEnded : Bool) (query : String) (rows : List α) :
    List α :=
  match Search.expression? openEnded query.toList with
  | some expression => Search.rank columns expression rows
  | none => []

/-- The symbols that a query finds. -/
def searchSymbols (s : Store) (query : String) (limit : Nat) : List SymbolRecord :=
  takeLimit limit ((hits symbolColumns true query s.symbols).filterMap s.symbolRecord?)

/-- The chunks that a query finds. -/
def searchChunks (s : Store) (query : String) (limit : Nat) : List ChunkRecord :=
  takeLimit limit ((hits chunkColumns false query s.chunks).filterMap s.chunkRecord?)

/-- The observations that a query finds. -/
def searchObservations (s : Store) (query : String) (limit : Nat) : List ObservationRow :=
  takeLimit limit (hits observationColumns false query s.observations)

end CodeIndex.Store
