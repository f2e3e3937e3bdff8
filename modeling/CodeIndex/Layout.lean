import CodeIndex.Path

/-!
# Where a project's data lives

The index, its configuration and the exports of a project are in a directory of their own below the
project root. Settings for all projects of a user are in a second place.
-/

namespace CodeIndex

/-- A project and the place of its user's settings. -/
structure Layout where
  root : String
  /-- The directory of the settings for all projects, where one is known. -/
  userDir : Option String
  deriving DecidableEq, Repr

namespace Layout

/-- The name of a directory for data. -/
def dataName : String := ".vigil"

/-- The directory of the project's data. -/
def dataDir (l : Layout) : String := Path.under l.root dataName

/-- The file of the index. -/
def indexFile (l : Layout) : String := Path.under l.dataDir "index.db"

/-- The name of a file of settings. -/
def configName : String := "config.json"

/-- The settings of the project. -/
def configFile (l : Layout) : String := Path.under l.dataDir configName

/-- The files of settings, those of the project first. -/
def configFiles (l : Layout) : List String :=
  l.configFile :: (l.userDir.map (Path.under · configName)).toList

/-- The file that a session's events are exported to. -/
def exportFile (l : Layout) (session : String) : String :=
  Path.under (Path.under l.dataDir "exports") (session ++ ".jsonl")

/-- The key of a file of the project. -/
def relative (l : Layout) (path : String) : String := Path.relative l.root path

end Layout

end CodeIndex
