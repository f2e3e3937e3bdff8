import CodeIndex.Command.Help
import CodeIndex.Project.Report

/-!
# Running a command

A command acts on a disk, which it leaves changed, and finishes with what it prints and the code that
it exits with. The project is opened for the command and its index is written back when the command
is done, whether or not it failed: what was done before a failure stays.
-/

namespace CodeIndex.CommandLine

/-- What a command is told by its surroundings. -/
structure Environment where
  /-- The directory of the user's own files. -/
  home : Option String
  now : Time
  /-- The name that a session is to have, if the command begins one. -/
  session : String

/-- What a command prints. -/
inductive Printed where
  | text (s : String)
  | value (v : Json)

/-- Why a command fails. -/
inductive CommandFailure where
  /-- The root does not lead anywhere. -/
  | noRoot (path : String)
  /-- The disk refused. -/
  | disk (e : DiskError)
  | project (e : ProjectFailure)
  deriving DecidableEq, Repr

/-- The message about a command that fails. -/
def CommandFailure.message? : CommandFailure → Option String
  | .noRoot path => some ("no such directory: " ++ path)
  | .disk e => some e.message
  | .project e => e.message?

/-- How a command ends. -/
structure Finished where
  disk : Disk
  result : Except CommandFailure Printed
  /-- Whether the command has begun a session. -/
  begun : Bool

/-- The code that a command exits with. -/
def Finished.code (f : Finished) : Nat :=
  match f.result with
  | .ok _ => 0
  | .error (.project .crashed) => 101
  | .error _ => 1

/-! ## §1. The parts of a command. -/

/-- The path of a place. -/
def pathOf (place : Location) : String := String.ofList ('/' :: Path.joinSegments place)

/-- The root of the project, by the names that lead to it. -/
def rootOf (d : Disk) (given : Option String) : Except CommandFailure String :=
  let path := given.getD (pathOf d.here)
  match d.locate path with
  | .ok place => .ok (pathOf place)
  | .error _ => .error (.noRoot path)

/-- Where the data of a project and of its user live. -/
def layoutOf (e : Environment) (root : String) : Layout :=
  ⟨root, e.home.map (Path.under · Layout.dataName)⟩

/-- The settings of a project. -/
def loadConfig (d : Disk) (l : Layout) : Config :=
  Config.load (l.configFiles.map fun path => (d.read path).toOption.bind Text.decode?)

/-- The default settings as the text of a file. -/
def defaultConfigText : List Char := Config.default.toJson.pretty

/-- Write the default settings, unless there are settings that are to be kept; the result says
whether they were written. -/
def writeDefaultConfig (d : Disk) (l : Layout) (force : Bool) : Written Bool :=
  if d.exists? l.configFile && !force then ⟨d, .ok false⟩
  else
    let w := d.replaceFile l.configFile (Text.encode defaultConfigText)
    ⟨w.disk, w.result.map fun _ => true⟩

/-- Set a project up. -/
def runInit (d : Disk) (l : Layout) (force : Bool) : Finished :=
  match writeDefaultConfig d l force with
  | ⟨d, .error e⟩ => ⟨d, .error (.disk e), false⟩
  | ⟨d, .ok wrote⟩ =>
    match Project.openIndex d l with
    | (d, .error e) => ⟨d, .error (.project e), false⟩
    | (d, .ok _) =>
      let config := if wrote then "✓ Wrote " ++ l.configFile
        else "Config already present at " ++ l.configFile ++ " (use --force to reset)"
      ⟨d, .ok (.text (config ++ "\n✓ Index database at " ++ l.indexFile ++ "\n\nNext: vigil index\n")),
        false⟩

/-- What a command does with an open project. -/
abbrev Action := Project → Disk → Disk × Project × Except ProjectFailure Printed

/-- A command that changes nothing. -/
def query (question : Project → Except ProjectFailure Json) : Action := fun p d =>
  (d, p, (question p).map .value)

/-- A command that changes the index only. -/
def update (change : Project → Disk → Project × Except ProjectFailure Json) : Action := fun p d =>
  let (p, result) := change p d
  (d, p, result.map .value)

/-- Open the project, act, and write the index back. -/
def withProject (e : Environment) (d : Disk) (l : Layout) (act : Action) : Finished :=
  match Project.openOn d l.root (loadConfig d l) e.session with
  | (d, .error failure) => ⟨d, .error (.project failure), false⟩
  | (d, .ok p) =>
    let (d, p, result) := act p d
    ⟨p.save d, result.mapError .project, p.observer.begun⟩

/-! ## §2. Commands. -/

/-- The version of the program. -/
def versionText : String := "vigil 0.1.0\n"

/-- The member for a rank. -/
def showRank (rank : Float) : String × Json := ("rank", .num (.float rank))

/-- Export a session and tell where to. -/
def exportAction (session : Option String) : Action := fun p d =>
  let (d, result) := p.exportSession d session
  (d, p, result.map fun x =>
    .text ("✓ Exported " ++ toString x.written ++ " events to " ++ x.path ++ "\n"))

/-- Bring the index up to date before files are watched. -/
def watchAction (e : Environment) : Action := fun p d =>
  let (p, result) := p.indexAndResolve d ⟨false, []⟩ e.now
  (d, p, result.map fun _ => .text ("Watching " ++ p.root ++ " (Ctrl-C to stop)\n"))

/-- Run a command in a project. -/
def Command.run (e : Environment) (d : Disk) (l : Layout) : Command → Finished
  | .init force => runInit d l force
  | .index force paths =>
    withProject e d l (update fun p d => p.indexAndResolve d ⟨force, paths⟩ e.now)
  | .resolve => withProject e d l (update fun p d =>
      let (p, result) := p.resolve d
      (p, result.map (·.toJson)))
  | .status top => withProject e d l (query fun p => (p.status top).map (·.toJson showRank))
  | .search text docs limit => withProject e d l (query fun p => p.search text docs limit)
  | .deps path => withProject e d l (query fun p => p.deps path)
  | .observations session all text toFile limit =>
    withProject e d l (if toFile then exportAction session
      else query fun p =>
        (p.observations ⟨session, all, text, limit⟩).map (Json.list (·.toJson .int)))
  | .watch => withProject e d l (watchAction e)
  | .version => ⟨d, .ok (.text versionText), false⟩

/-- Run an invocation. -/
def Invocation.run (e : Environment) (d : Disk) (i : Invocation) : Finished :=
  match rootOf d i.root with
  | .error failure => ⟨d, .error failure, false⟩
  | .ok root => i.command.run e d (layoutOf e root)

/-- The code that a command line which is not read exits with, and what it prints. -/
def Refusal.outcome : Refusal → Nat × String
  | .displayVersion => (0, versionText)
  | .displayHelp topic => (0, helpOn topic)
  | _ => (2, "")

end CodeIndex.CommandLine
