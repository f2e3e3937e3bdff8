import CodeIndex.Store.Session
import CodeIndex.Text.Utf8

/-!
# A store in a file

The bytes in which a store is kept between runs: a byte that no text has, a line that tells what the
file is, and the rows of each kind as one data value, with blanks up to the end of a block. A file that
does not begin so, or does not go on with such a value, is no store.
-/

namespace CodeIndex

open Text (Bytes)

namespace Archive

/-! ## §1. Rows. -/

/-- A file. -/
def file (f : FileRow) : Json :=
  .arr [.int f.id, .str f.path, .str f.language, .str f.hash, .nat f.size, .nat f.tokens,
    .str f.fileClass.name]

/-- The file that a value gives. -/
def file? : Json → Option FileRow
  | .arr [id, path, language, hash, size, tokens, c] => do
    return ⟨⟨← path.asStr?, ← language.asStr?, ← hash.asStr?, ← Json.unsigned? 64 size,
      ← Json.unsigned? 64 tokens, ← Json.word? c⟩, ← Json.signed? id⟩
  | _ => none

/-- A symbol. -/
def symbol (r : SymbolRow) : Json := .arr [.int r.id, .int r.fileId, r.symbol.toJson]

/-- The symbol that a value gives. -/
def symbol? : Json → Option SymbolRow
  | .arr [id, fileId, symbol] => do
    return ⟨← Json.signed? id, ← Json.signed? fileId, ← Symbol.ofJson? symbol⟩
  | _ => none

/-- A chunk. -/
def chunk (r : ChunkRow) : Json :=
  .arr [.int r.id, .int r.fileId, .nat r.chunk.index, .opt .str r.chunk.heading,
    .nat r.chunk.startLine, .nat r.chunk.endLine, .str r.chunk.text]

/-- The chunk that a value gives. -/
def chunk? : Json → Option ChunkRow
  | .arr [id, fileId, index, heading, first, last, text] => do
    return ⟨← Json.signed? id, ← Json.signed? fileId,
      ⟨← Json.unsigned? 64 index, ← Json.optional? Json.asStr? (some heading),
        ← Json.unsigned? 64 first, ← Json.unsigned? 64 last, ← text.asStr?⟩⟩
  | _ => none

/-- An edge. -/
def edge (e : EdgeRow) : Json := .arr [.int e.fromId, .int e.toId, .str e.symbol]

/-- The edge that a value gives. -/
def edge? : Json → Option EdgeRow
  | .arr [fromId, toId, symbol] => do
    return ⟨← Json.signed? fromId, ← Json.signed? toId, ← symbol.asStr?⟩
  | _ => none

/-- An entry of a snapshot. -/
def snapshot (r : SnapshotRow) : Json := .arr [.str r.path, r.entry.toJson]

/-- The entry of a snapshot that a value gives. -/
def snapshot? : Json → Option SnapshotRow
  | .arr [path, entry] => do return ⟨← path.asStr?, ← SnapshotEntry.ofJson? entry⟩
  | _ => none

/-- A number of any size, by its digits. -/
def digits (n : Int) : Json := .str (String.ofList (Json.intText n))

/-- The number of given digits. -/
def digits? (v : Json) : Option Int := v.asStr?.bind String.toInt?

/-- A session. -/
def session (r : SessionRow) : Json :=
  .arr [.str r.id, .str r.mode.name, .opt .str r.label,
    match r.served with
    | .exact sum => .arr [.bool true, digits sum]
    | .rounded sum => .arr [.bool false, digits sum]]

/-- The tokens served that a value gives. -/
def served? : Json → Option Served
  | .arr [.bool true, sum] => (digits? sum).map .exact
  | .arr [.bool false, sum] => (digits? sum).map .rounded
  | _ => none

/-- The session that a value gives. -/
def session? : Json → Option SessionRow
  | .arr [id, mode, label, served] => do
    return ⟨← id.asStr?, ← Json.word? mode, ← Json.optional? Json.asStr? (some label), ← served? served⟩
  | _ => none

mutual

/-- A value with every double given by its bits, which no reading rounds: a double is a list of
`false` and its bits, and a list has `true` in front of its items. -/
def withBits : Json → Json
  | .num (.float f) => .arr [.bool false, .nat f.toBits.toNat]
  | .arr items => .arr (.bool true :: bitsItems items)
  | .obj members => .obj (bitsMembers members)
  | v => v

/-- Every item with its doubles by their bits. -/
def bitsItems : List Json → List Json
  | [] => []
  | v :: rest => withBits v :: bitsItems rest

/-- Every member with its doubles by their bits. -/
def bitsMembers : List (String × Json) → List (String × Json)
  | [] => []
  | (name, v) :: rest => (name, withBits v) :: bitsMembers rest

end

mutual

/-- The value whose doubles are given by their bits. -/
def plain? : Json → Option Json
  | .arr [.bool false, .num (.int bits)] => some (.num (.float (Float.ofBits bits.toNat.toUInt64)))
  | .arr (.bool true :: items) => (plainItems? items).map .arr
  | .arr _ => none
  | .obj members => (plainMembers? members).map .obj
  | v => some v

/-- The items whose doubles are given by their bits. -/
def plainItems? : List Json → Option (List Json)
  | [] => some []
  | v :: rest => do return (← plain? v) :: (← plainItems? rest)

/-- The members whose doubles are given by their bits. -/
def plainMembers? : List (String × Json) → Option (List (String × Json))
  | [] => some []
  | (name, v) :: rest => do return (name, ← plain? v) :: (← plainMembers? rest)

end

/-- The details of an event, as a text of their own: however deep they are, the rows around them
are not deeper for it. -/
def details (v : Json) : Json := .str (String.ofList (withBits v).compact)

/-- The details of an event that a value gives. -/
def details? (v : Json) : Option Json := do
  let text := (← v.asStr?).toList
  plain? (← Json.Written.valueIn? text.length (← Json.Written.read? text))

/-- An event. -/
def event (e : EventRow) : Json :=
  .arr [.int e.id, .str e.sessionId, .str e.event.type.name, .opt .str e.event.file,
    .opt .str e.event.symbol, .opt details e.event.extra, .int e.time]

/-- The event that a value gives. -/
def event? : Json → Option EventRow
  | .arr [id, session, type, file, symbol, extra, time] => do
    let extra ← Json.optional? details? (some extra)
    return ⟨← Json.signed? id, ← session.asStr?,
      ⟨← Json.word? type, ← Json.optional? Json.asStr? (some file),
        ← Json.optional? Json.asStr? (some symbol), extra⟩,
      ← Json.signed? time⟩
  | _ => none

/-- An observation. -/
def observation (o : ObservationRow) : Json :=
  .arr [.int o.id, .str o.sessionId, .str o.observation.type.name, .opt .str o.observation.file,
    .opt .str o.observation.symbol, .str o.observation.text, .bool o.stale, .opt .str o.staleReason,
    .int o.time]

/-- The observation that a value gives. -/
def observation? : Json → Option ObservationRow
  | .arr [id, session, type, file, symbol, text, stale, reason, time] => do
    return ⟨← Json.signed? id, ← session.asStr?,
      ⟨← Json.word? type, ← Json.optional? Json.asStr? (some file),
        ← Json.optional? Json.asStr? (some symbol), ← text.asStr?⟩,
      ← Json.bool? stale, ← Json.optional? Json.asStr? (some reason), ← Json.signed? time⟩
  | _ => none

end Archive

/-! ## §2. Stores. -/

namespace Store

/-- A store as a value. -/
def toJson (s : Store) : Json :=
  .arr [.list Archive.file s.files, .list Archive.symbol s.symbols, .list Archive.chunk s.chunks,
    .list Archive.edge s.edges, .list .str s.snapshotFiles, .list Archive.snapshot s.snapshots,
    .list Archive.session s.sessions, .list Archive.event s.events,
    .list Archive.observation s.observations]

/-- The store that a value gives. -/
def ofJson? : Json → Option Store
  | .arr [files, symbols, chunks, edges, compared, snapshots, sessions, events, observations] => do
    return ⟨← Json.list? Archive.file? files, ← Json.list? Archive.symbol? symbols,
      ← Json.list? Archive.chunk? chunks, ← Json.list? Archive.edge? edges,
      ← compared.strings?, ← Json.list? Archive.snapshot? snapshots, ← Json.list? Archive.session? sessions,
      ← Json.list? Archive.event? events, ← Json.list? Archive.observation? observations⟩
  | _ => none

/-- The byte that a file with a store begins with. -/
def signatureByte : UInt8 := 0xFF

/-- The line after that byte. -/
def signatureLine : List Char := "code index, first format\n".toList

/-- A file with a store has a whole number of blocks of this size. -/
def blockSize : Nat := 4096

/-- Bytes with blanks after them up to the end of a block. -/
def fillBlock (bytes : Bytes) : Bytes :=
  bytes ++ List.replicate ((blockSize - bytes.length % blockSize) % blockSize) 32

/-- The bytes of a store. -/
def toBytes (s : Store) : Bytes :=
  fillBlock (signatureByte :: Text.encode (signatureLine ++ s.toJson.compact))

/-- The store that bytes hold. -/
def ofBytes? : Bytes → Option Store
  | [] => none
  | first :: rest => do
    if first ≠ signatureByte then none
    else
      let text ← Text.decode? rest
      ofJson? (← Json.read? (← Text.after? signatureLine text))

end Store

end CodeIndex
