import CodeIndex.Disk.Basic
import CodeIndex.Json.Writer
import CodeIndex.Session.Detector
import CodeIndex.Session.ToolCall
import CodeIndex.Tokens

/-!
# Observing a session

An observer turns the calls of tools and the changes of files into events and observations of one
session. The session is put into the store when there is something to write for the first time. A
write that the store refuses ends the handling of what was observed, and nothing else.
-/

namespace CodeIndex

/-- An observer of one session. -/
structure Observer where
  /-- The root of the project. -/
  root : String
  thresholds : Thresholds
  mode : SessionMode
  label : Option String
  /-- The name of the session. -/
  session : String
  /-- Whether the session is in the store. -/
  begun : Bool
  tally : Tally

/-- An observer and the store after something was observed. -/
structure Observed where
  observer : Observer
  store : Store
  /-- Whether the handling was cut short because a window reaches past the times that can be told. -/
  crashed : Bool

namespace Observer

/-- An observer that has seen nothing. -/
def new (root : String) (thresholds : Thresholds) (mode : SessionMode) (label : Option String)
    (session : String) : Observer :=
  ⟨root, thresholds, mode, label, session, false, Tally.empty⟩

/-- Put the session into the store, unless it is there. -/
def begin (o : Observer) (s : Store) : Observer × Store :=
  if o.begun then (o, s)
  else ({ o with begun := true }, (s.createSession o.session o.mode o.label).1)

/-- The session as it was when it began. What is counted as served later is not in it. -/
def record? (o : Observer) : Option Session :=
  if o.begun then some ⟨o.session, o.mode, o.label, 0⟩ else none

/-- What is left of the store after a check: a check that fails has changed nothing. -/
def afterCheck (s : Store) : Except CheckError (Store × Bool) → Store
  | .ok (s, _) => s
  | .error _ => s

/-! ## §1. Calls. -/

/-- Count the tokens of a result as served. -/
def countTokens (o : Observer) (s : Store) (call : ToolCall) : Store :=
  s.addTokens o.session (estimateTokens call.result.compact)

/-- The tool as details of an event. -/
def toolDetails (call : ToolCall) : Json := .obj [("tool", .str call.tool)]

/-- A lookup of a file or a symbol in it. Where it found nothing although the file is there, the
index is behind. -/
def onLookup (o : Observer) (d : Disk) (s : Store) (call : ToolCall) (file : String) (now : Time) :
    Observer × Store :=
  let symbol := call.symbolArg?
  let (o, s) := o.begin s
  if call.foundNothing then
    if d.isFile (Path.under o.root file) then
      match s.insertEvent o.session ⟨.indexBlindSpot, some file, symbol, some (toolDetails call)⟩ now with
      | .ok (s, _) => (o, s)
      | .error _ => (o, s)
    else (o, s)
  else
    match s.insertEvent o.session ⟨.accessed, some file, symbol, some (toolDetails call)⟩ now with
    | .error _ => (o, s)
    | .ok (s, _) =>
      let s := o.countTokens s call
      let o := { o with tally := o.tally.recordAccess file symbol }
      let count := o.tally.accessCount file symbol
      (o, afterCheck s (checkRedundantAccess o.thresholds false s o.session file symbol count now))

/-- A search. -/
def onSearch (o : Observer) (s : Store) (call : ToolCall) (query : String) (now : Time) :
    Observer × Store :=
  let (o, s) := o.begin s
  if !call.foundNothing then (o, o.countTokens s call)
  else
    let o := { o with tally := o.tally.recordFailedSearch query }
    let attempts := o.tally.failedSearchCount query
    (o, afterCheck s (checkFailedSearch o.thresholds false s o.session query attempts now))

/-- The failure of a call as details of an event: what it came to, and the tool. -/
def errorDetails (call : ToolCall) : Json := .obj [("error", call.result), ("tool", .str call.tool)]

/-- A call that failed. -/
def onError (o : Observer) (s : Store) (call : ToolCall) (file : Option String) (now : Time) :
    Observer × Store :=
  let (o, s) := o.begin s
  match s.insertEvent o.session ⟨.toolError, file, none, some (errorDetails call)⟩ now with
  | .error _ => (o, s)
  | .ok (s, _) =>
    let o := { o with tally := o.tally.recordToolError call.tool (file.getD "") }
    let count := o.tally.toolErrorCount call.tool (file.getD "")
    (o, afterCheck s (checkToolErrors o.thresholds s o.session call.tool file count now))

/-- Observe a call of a tool. -/
def onToolCall (o : Observer) (d : Disk) (s : Store) (call : ToolCall) (now : Time) :
    Observer × Store :=
  let file := call.targetFile?.map (Path.relative o.root)
  if call.isError then o.onError s call file now
  else
    match call.kind with
    | .lookup =>
      match file with
      | some file => o.onLookup d s call file now
      | none => (o, s)
    | .search =>
      match call.queryArg? with
      | some query => o.onSearch s call query now
      | none => (o, s)
    | .other => (o, s)

/-! ## §2. Changes of files. -/

/-- A change as details of an event. -/
def changeDetails (c : SymbolChange) : Json :=
  .obj [("description", .str c.description), ("new_signature", .opt .str c.newSignature),
    ("old_signature", .opt .str c.oldSignature)]

/-- Observe one change of a file. What was observed of the symbol before is marked as stale first, so
that what is observed now is not. -/
def onChange (o : Observer) (s : Store) (file : String) (c : SymbolChange) (now : Time) :
    Except StoreError Store := do
  let (s, _) ← s.insertEvent o.session
    ⟨c.kind.eventType, some file, some c.symbol, some (changeDetails c)⟩ now
  let s := if c.kind.invalidates then (s.markStale file (some c.symbol) c.description).1 else s
  let s ← if o.tally.wasAccessed file (some c.symbol) then
      (·.1) <$> s.insertObservation o.session ⟨.change, some file, some c.symbol, c.description⟩ now
    else pure s
  return if c.kind = .removed then
      afterCheck s (checkDeadEnd false s o.session file c.symbol now)
    else s

/-- Observe changes of a file, one after another. -/
def onChanges (o : Observer) (s : Store) (file : String) (now : Time) :
    List SymbolChange → Store × Except StoreError Unit
  | [] => (s, .ok ())
  | c :: rest =>
    match o.onChange s file c now with
    | .ok s => o.onChanges s file now rest
    | .error e => (s, .error e)

/-- Observe the changes of a file. A first reading and one without changes say nothing. -/
def onFileDiff (o : Observer) (s : Store) (diff : FileDiff) (now : Time) : Observed :=
  if diff.isFirst || diff.changes.isEmpty then ⟨o, s, false⟩
  else
    let (o, s) := o.begin s
    match o.onChanges s diff.path now diff.changes with
    | (s, .error _) => ⟨o, s, false⟩
    | (s, .ok ()) =>
      match checkThrash o.thresholds false s o.session diff.path now with
      | .ok (s, _) => ⟨o, s, false⟩
      | .error .timeOverflow => ⟨o, s, true⟩
      | .error (.store _) => ⟨o, s, false⟩

end Observer

end CodeIndex
