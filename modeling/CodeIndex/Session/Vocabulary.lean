import CodeIndex.Change

/-!
# The words of a session

What a session logs, what it concludes, and how it uses the project.
-/

namespace CodeIndex

/-- How a session uses the project. -/
inductive SessionMode where
  /-- Through the index. -/
  | indexed
  /-- By reading files, for comparison. -/
  | baseline
  deriving DecidableEq, Repr

/-- The word for a mode. -/
def SessionMode.name : SessionMode → String
  | .indexed => "indexed"
  | .baseline => "baseline"

instance : Vocabulary SessionMode where
  what := "session mode"
  all := [.indexed, .baseline]
  name := SessionMode.name

/-- What a session logs. -/
inductive EventType where
  | accessed
  | symbolAdded
  | symbolRemoved
  | sigChanged
  | failedSearch
  | toolError
  | deadEnd
  | thrashDetected
  | redundantAccess
  | indexBlindSpot
  deriving DecidableEq, Repr

/-- The word for a type of event. -/
def EventType.name : EventType → String
  | .accessed => "accessed"
  | .symbolAdded => "symbol_added"
  | .symbolRemoved => "symbol_removed"
  | .sigChanged => "sig_changed"
  | .failedSearch => "failed_search"
  | .toolError => "tool_error"
  | .deadEnd => "dead_end"
  | .thrashDetected => "thrash_detected"
  | .redundantAccess => "redundant_access"
  | .indexBlindSpot => "index_blind_spot"

instance : Vocabulary EventType where
  what := "event type"
  all := [.accessed, .symbolAdded, .symbolRemoved, .sigChanged, .failedSearch, .toolError,
    .deadEnd, .thrashDetected, .redundantAccess, .indexBlindSpot]
  name := EventType.name

/-- The events that count as work on a file. -/
def EventType.activity : List EventType := [.accessed, .symbolAdded, .symbolRemoved, .sigChanged]

/-- The event that logs a change of a symbol. -/
def ChangeKind.eventType : ChangeKind → EventType
  | .added => .symbolAdded
  | .removed => .symbolRemoved
  | .sigChanged => .sigChanged

/-- What a session concludes. -/
inductive ObservationType where
  /-- A symbol that was looked at has changed. -/
  | change
  /-- A pattern of work leads nowhere. -/
  | antiPattern
  /-- Something in the surroundings does not work. -/
  | environment
  deriving DecidableEq, Repr

/-- The word for a type of observation. -/
def ObservationType.name : ObservationType → String
  | .change => "change"
  | .antiPattern => "anti_pattern"
  | .environment => "environment"

instance : Vocabulary ObservationType where
  what := "observation type"
  all := [.change, .antiPattern, .environment]
  name := ObservationType.name

end CodeIndex
