import CodeIndex.Word

/-!
# What a session remembers

Counts that a session keeps between two calls: how often each subject was accessed, each search came
back empty, and each tool failed on each file. An access to a file as a whole covers every symbol in
it; an access to a symbol covers that symbol only.

A count is a 32 bit number, and the one after the greatest is zero again.
-/

namespace CodeIndex

/-- A count for each key that has been counted. -/
abbrev Counts (α : Type) := List (α × UInt32)

namespace Counts

/-- How often a key has been counted. -/
def get [BEq α] (c : Counts α) (key : α) : UInt32 := (c.lookup key).getD 0

/-- Count a key once more. -/
def bump [BEq α] (key : α) : Counts α → Counts α
  | [] => [(key, 1)]
  | (other, n) :: rest =>
    if other == key then (other, n + 1) :: rest else (other, n) :: bump key rest

end Counts

/-- The text that a subject is counted under: a file, or a symbol in a file. -/
def subjectKey (file : String) : Option String → String
  | some symbol => file ++ "::" ++ symbol
  | none => file

/-- What a session remembers. -/
structure Tally where
  /-- The accesses to each subject, by its key. -/
  accesses : Counts String
  /-- The subjects that were accessed. -/
  seen : List (String × Option String)
  /-- The empty results of each search. -/
  failedSearches : Counts String
  /-- The failures of each tool on each file; a failure without a file has the empty one. -/
  toolErrors : Counts (String × String)
  deriving Repr

namespace Tally

/-- Nothing has happened. -/
def empty : Tally := ⟨[], [], [], []⟩

/-- Count an access. -/
def recordAccess (t : Tally) (file : String) (symbol : Option String) : Tally :=
  { t with
    accesses := t.accesses.bump (subjectKey file symbol)
    seen := (file, symbol) :: t.seen }

/-- How often a subject was accessed. -/
def accessCount (t : Tally) (file : String) (symbol : Option String) : UInt32 :=
  t.accesses.get (subjectKey file symbol)

/-- Whether a subject was accessed, by itself or with its file. -/
def wasAccessed (t : Tally) (file : String) (symbol : Option String) : Bool :=
  t.seen.contains (file, none) || t.seen.contains (file, symbol)

/-- How many files were accessed, as a whole or in part. -/
def accessedFiles (t : Tally) : Nat := (t.seen.map (·.1)).eraseDups.length

/-- Count an empty result of a search. -/
def recordFailedSearch (t : Tally) (query : String) : Tally :=
  { t with failedSearches := t.failedSearches.bump query }

/-- How often a search came back empty. -/
def failedSearchCount (t : Tally) (query : String) : UInt32 := t.failedSearches.get query

/-- Count a failure of a tool. -/
def recordToolError (t : Tally) (tool file : String) : Tally :=
  { t with toolErrors := t.toolErrors.bump (tool, file) }

/-- How often a tool failed on a file. -/
def toolErrorCount (t : Tally) (tool file : String) : UInt32 := t.toolErrors.get (tool, file)

end Tally

end CodeIndex
