import CodeIndex.Session.Tally
import CodeIndex.Store.Session

/-!
# Patterns of unproductive work

Each check looks at what a session has logged and decides whether a pattern is to be reported now. A
report is an event and an observation, written together or not at all; a tool that keeps failing is
only observed. What has been reported is not reported again, with one exception: work on a file that
goes back and forth is reported again once a whole window has passed.
-/

namespace CodeIndex

/-- Why a check fails. -/
inductive CheckError where
  /-- The store refused to write. -/
  | store (e : StoreError)
  /-- The window reaches past the times that can be told. -/
  | timeOverflow
  deriving DecidableEq, Repr

/-! ## §1. Times. -/

/-- The first time that can be told. -/
def minTime : Time := -8334601228800000

/-- The last time that can be told. -/
def maxTime : Time := 8210266876799999

/-- Whether a time can be told. -/
def Time.inRange (t : Time) : Bool := minTime ≤ t && t ≤ maxTime

/-- The longest window, in seconds. -/
def maxWindow : Int := 9223372036854775

/-- The time at which the window that ends now began. -/
def windowStart (t : Thresholds) (now : Time) : Except CheckError Time :=
  if t.thrashWindow < -maxWindow || maxWindow < t.thrashWindow then .error .timeOverflow
  else
    let since : Time := now - t.thrashWindow * 1000
    if since.inRange then .ok since else .error .timeOverflow

/-! ## §2. Reports. -/

/-- Write an event and an observation in one transaction. -/
def emit (nested : Bool) (s : Store) (session : String) (event : NewEvent)
    (observation : NewObservation) (now : Time) : Except CheckError Store :=
  if nested then .error (.store .nestedTransaction)
  else
    match s.insertEvent session event now with
    | .error e => .error (.store e)
    | .ok (s, _) =>
      match s.insertObservation session observation now with
      | .error e => .error (.store e)
      | .ok (s, _) => .ok s

/-- A report was made. -/
def reported (s : Except CheckError Store) : Except CheckError (Store × Bool) := s.map (·, true)

/-! ## §3. Checks. -/

/-- A symbol was added and removed again. It is reported once. -/
def checkDeadEnd (nested : Bool) (s : Store) (session file symbol : String) (now : Time) :
    Except CheckError (Store × Bool) :=
  if !s.hasEvent session .symbolAdded (some file) (some symbol)
      || !s.hasEvent session .symbolRemoved (some file) (some symbol)
      || s.hasEvent session .deadEnd (some file) (some symbol) then .ok (s, false)
  else
    let text := "\x60" ++ symbol ++ "\x60 in " ++ file
      ++ " was added and removed again in this session (dead end)"
    reported (emit nested s session ⟨.deadEnd, some file, some symbol, none⟩
      ⟨.antiPattern, some file, some symbol, text⟩ now)

/-- There was much work on a file within the window. It is reported again once a whole window has
passed. -/
def checkThrash (t : Thresholds) (nested : Bool) (s : Store) (session file : String) (now : Time) :
    Except CheckError (Store × Bool) := do
  let since ← windowStart t now
  let count := s.countEventsSince session EventType.activity file since
  let armed := (s.lastEventTime? session .thrashDetected file).all fun last =>
    t.thrashWindow * 1000 ≤ now - last
  if count < t.thrashEvents.toNat || !armed then return (s, false)
  else
    let text := file ++ " was changed or read " ++ toString count ++ " times within "
      ++ toString t.thrashWindow ++ " seconds (thrashing)"
    reported (emit nested s session ⟨.thrashDetected, some file, none, some (.obj [("events", .nat count)])⟩
      ⟨.antiPattern, some file, none, text⟩ now)

/-- A subject was accessed for the time that makes it too often. -/
def checkRedundantAccess (t : Thresholds) (nested : Bool) (s : Store) (session file : String)
    (symbol : Option String) (count : UInt32) (now : Time) : Except CheckError (Store × Bool) :=
  if count ≠ t.redundantAccess || s.hasEvent session .redundantAccess (some file) symbol then
    .ok (s, false)
  else
    let text := subjectKey file symbol ++ " was accessed " ++ toString count.toNat
      ++ " times in this session (redundant access)"
    reported (emit nested s session
      ⟨.redundantAccess, some file, symbol, some (.obj [("count", .nat count)])⟩
      ⟨.antiPattern, some file, symbol, text⟩ now)

/-- A search came back empty for the time that makes it too often. It is reported once. -/
def checkFailedSearch (t : Thresholds) (nested : Bool) (s : Store) (session query : String)
    (attempts : UInt32) (now : Time) : Except CheckError (Store × Bool) :=
  if attempts ≠ t.failedSearch || s.hasEventFor session .failedSearch query then .ok (s, false)
  else
    let text := "search for \"" ++ query ++ "\" returned no results " ++ toString attempts.toNat ++ " times"
    reported (emit nested s session
      ⟨.failedSearch, none, none, some (.obj [("attempts", .nat attempts), ("query", .str query)])⟩
      ⟨.antiPattern, none, none, text⟩ now)

/-- A tool failed on a file for the time that makes it too often. It is observed once. -/
def checkToolErrors (t : Thresholds) (s : Store) (session tool : String) (file : Option String)
    (count : UInt32) (now : Time) : Except CheckError (Store × Bool) :=
  let text := tool ++ " failed " ++ toString count.toNat ++ " times"
    ++ (match file with
      | some file => " on " ++ file
      | none => "")
  if count ≠ t.toolError || s.hasObservation session .environment file text then .ok (s, false)
  else
    match s.insertObservation session ⟨.environment, file, none, text⟩ now with
    | .ok (s, _) => .ok (s, true)
    | .error e => .error (.store e)

end CodeIndex
