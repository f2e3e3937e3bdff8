import CodeIndex.Project.Basic

/-!
# Watching a project

A watcher gives notice of what happens to files. A notice is turned into events about single paths;
notices that arrive close together make one batch, in which a path has only its latest event. Applying
an event brings the index in line with the one file that it is about.
-/

namespace CodeIndex

/-! ## §1. Notices. -/

/-- What a notice says to have happened. -/
inductive NoticeKind where
  | created
  | removed
  /-- The content was modified. -/
  | content
  /-- Something about the file was modified, but not its content. -/
  | metadata
  /-- The file got or lost its name. -/
  | renamed
  /-- The file was modified in a way that is not told. -/
  | modified
  /-- The file was read. -/
  | accessed
  /-- Nothing is told. -/
  | unspecified
  /-- Something that is not about a file. -/
  | other
  deriving DecidableEq, Repr

/-- A notice of what has happened to some paths. -/
structure Notice where
  kind : NoticeKind
  paths : List String
  deriving DecidableEq, Repr

/-- What has happened to a path, as far as the index is concerned. -/
inductive WatchEventKind where
  | added
  | changed
  | removed
  deriving DecidableEq, Repr

/-- The word for what has happened to a path. -/
def WatchEventKind.name : WatchEventKind → String
  | .added => "added"
  | .changed => "changed"
  | .removed => "removed"

instance : Vocabulary WatchEventKind where
  what := "watch event"
  all := [.added, .changed, .removed]
  name := WatchEventKind.name

/-- An event about a path. -/
structure WatchEvent where
  kind : WatchEventKind
  path : String
  deriving DecidableEq, Repr

/-- An event as a value. -/
def WatchEvent.toJson (e : WatchEvent) : Json := .arr [.str e.kind.name, .str e.path]

/-- What a notice says to have happened to a path. A name that leads to something was got, and one
that leads nowhere was lost. -/
def NoticeKind.event? (d : Disk) (path : String) : NoticeKind → Option WatchEventKind
  | .created => some .added
  | .removed => some .removed
  | .renamed => some (if d.exists? path then .added else .removed)
  | .content => some .changed
  | .modified => some .changed
  | .metadata => none
  | .accessed => none
  | .unspecified => none
  | .other => none

/-- The events of a notice. -/
def Notice.events (d : Disk) (n : Notice) : List WatchEvent :=
  n.paths.filterMap fun path => (n.kind.event? d path).map fun kind => ⟨kind, path⟩

/-! ## §2. Batches. -/

/-- Whether two paths are written with the same components. -/
def samePath (a b : String) : Bool :=
  (Path.components a.toList).map (·.1) == (Path.components b.toList).map (·.1)

/-- Put an event at the end of a batch, in the place of an earlier one about the same path. -/
def pushLatest (batch : List WatchEvent) (e : WatchEvent) : List WatchEvent :=
  batch.filter (fun pending => !samePath pending.path e.path) ++ [e]

/-- Put the events of a notice into a batch. -/
def collectNotice (d : Disk) (batch : List WatchEvent) (n : Notice) : List WatchEvent :=
  (n.events d).foldl pushLatest batch

/-- The batch of some notices. -/
def batchOf (d : Disk) (notices : List Notice) : List WatchEvent :=
  notices.foldl (collectNotice d) []

/-! ## §3. Applying events. -/

namespace Project

/-- Index a file that was added or changed, if it is selected, and resolve its imports. What stands
in the way of the file alone is passed over. -/
def onFileWritten (p : Project) (d : Disk) (path : String) (now : Time) :
    Project × Except ProjectFailure Unit :=
  let key := p.indexer.relative path
  match p.indexer.filter.classify? key with
  | none => (p, .ok ())
  | some c =>
    match p.index d c key false now with
    | (p, .ok o) =>
      if o.status = .skipped || c = .doc then (p, .ok ())
      else
        let (p, result) := p.resolveFile d key
        (p, result.map fun _ => ())
    | (p, .error (.file (.store e))) => (p, .error (.store e))
    | (p, .error (.file _)) => (p, .ok ())
    | (p, .error e) => (p, .error e)

/-- Apply an event. -/
def onWatchEvent (p : Project) (d : Disk) (e : WatchEvent) (now : Time) :
    Project × Except ProjectFailure Unit :=
  match e.kind with
  | .removed =>
    let (p, result) := p.removeFile e.path now
    (p, result.map fun _ => ())
  | _ => p.onFileWritten d e.path now

/-- Apply the events of a batch, up to one that fails. -/
def onBatch (p : Project) (d : Disk) (now : Time) :
    List WatchEvent → Project × Except ProjectFailure Unit
  | [] => (p, .ok ())
  | e :: rest =>
    match p.onWatchEvent d e now with
    | (p, .ok ()) => p.onBatch d now rest
    | failed => failed

end Project

end CodeIndex
