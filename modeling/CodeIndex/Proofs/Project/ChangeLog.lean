import Mathlib
import CodeIndex.Proofs.Index.Accounting
import CodeIndex.Proofs.Project.Run

/-!
# No change is lost or logged twice

Over a whole run of a project, the log of one name in one file tells its story from the first snapshot
of the file on: it comes and goes in turns, its signature changes only while it is there, and where
the story ends is where the name stands in the current snapshot. All sessions are read together, in
the order of the rows.

The invariant (`Told`) says that the log can be replayed from the first snapshot and leads to the
current one. Every action keeps it, since what an action logs of a file is what one comparison of its
snapshot found (`step_advances`, `replay_changesBetween`).

Main result: `changes_logged_once`.
-/

namespace CodeIndex

/-! ## §1. Logs that can be replayed. -/

/-- The entries of a log by which a name comes and goes. -/
def toggles (log : List ChangeKind) : List ChangeKind := log.filter (· ≠ .sigChanged)

/-- Whether a name is there after the changes of a log, given whether it was there before: it has come
if it came last, and gone if it went last. -/
def presentAfter (present : Bool) (log : List ChangeKind) : Bool :=
  match (toggles log).getLast? with
  | none => present
  | some kind => kind == .added

/-- A log tells a story of a name that was there at the start, or was not. -/
structure Consistent (present : Bool) (log : List ChangeKind) : Prop where
  /-- The name comes and goes in turns. -/
  turns : (toggles log).IsChain (· ≠ ·)
  /-- It goes first if it was there, and comes first if it was not. -/
  start : ∀ kind ∈ (toggles log).head?, kind = if present then .removed else .added
  /-- Its signature changes only while it is there. -/
  meanwhile : ∀ before after, log = before ++ .sigChanged :: after → presentAfter present before = true

theorem toggles_added (rest : List ChangeKind) : toggles (.added :: rest) = .added :: toggles rest := rfl

theorem toggles_removed (rest : List ChangeKind) :
    toggles (.removed :: rest) = .removed :: toggles rest := rfl

theorem presentAfter_added (present : Bool) (rest : List ChangeKind) :
    presentAfter present (.added :: rest) = presentAfter true rest := by
  unfold presentAfter
  rw [toggles_added, List.getLast?_cons]
  cases (toggles rest).getLast? <;> rfl

theorem presentAfter_removed (present : Bool) (rest : List ChangeKind) :
    presentAfter present (.removed :: rest) = presentAfter false rest := by
  unfold presentAfter
  rw [toggles_removed, List.getLast?_cons]
  cases (toggles rest).getLast? <;> rfl

theorem presentAfter_sigChanged (present : Bool) (rest : List ChangeKind) :
    presentAfter present (.sigChanged :: rest) = presentAfter present rest := rfl

/-- A replay leads to where the log says. -/
theorem replay_eq_presentAfter (log : List ChangeKind) :
    ∀ {present after : Bool}, replay present log = some after → after = presentAfter present log := by
  induction log with
  | nil => intro present after h; injection h with h; exact h.symm
  | cons kind rest ih =>
    intro present after h
    -- of the six cases, three cannot be replayed
    cases present <;> cases kind
    case false.added => rw [presentAfter_added]; exact ih h
    case true.removed => rw [presentAfter_removed]; exact ih h
    case true.sigChanged => rw [presentAfter_sigChanged]; exact ih h
    all_goals exact absurd h (by simp [replay])

/-- What comes after a toggle is told from the other side. -/
theorem Consistent.toggle {present : Bool} {kind : ChangeKind} {rest : List ChangeKind}
    (hkind : kind = if present then .removed else .added) (h : Consistent (!present) rest) :
    Consistent present (kind :: rest) := by
  have htoggles : toggles (kind :: rest) = kind :: toggles rest := by
    subst hkind
    cases present <;> rfl
  refine ⟨?_, ?_, ?_⟩
  · rw [htoggles, List.isChain_cons]
    refine ⟨fun next hnext heq => ?_, h.turns⟩
    have hstart := h.start next hnext
    rw [← heq, hkind] at hstart
    cases present <;> exact absurd hstart (by simp)
  · intro first hfirst
    rw [htoggles] at hfirst
    obtain rfl : kind = first := by simpa using hfirst
    exact hkind
  · intro before after hsplit
    cases before with
    | nil =>
      injection hsplit with hhead _
      subst hhead
      cases present <;> exact absurd hkind (by simp)
    | cons first before =>
      injection hsplit with hhead hrest
      subst hhead
      have hmeanwhile := h.meanwhile before after hrest
      subst hkind
      cases present with
      | true => rw [if_pos rfl, presentAfter_removed]; exact hmeanwhile
      | false => rw [if_neg (by simp), presentAfter_added]; exact hmeanwhile

/-- A log that can be replayed tells a story. -/
theorem consistent_of_replay (log : List ChangeKind) :
    ∀ {present after : Bool}, replay present log = some after → Consistent present log := by
  induction log with
  | nil =>
    intro present after _
    exact ⟨List.IsChain.nil, by simp [toggles], by simp⟩
  | cons kind rest ih =>
    intro present after h
    cases present <;> cases kind
    case false.added => exact Consistent.toggle rfl (ih h)
    case true.removed => exact Consistent.toggle rfl (ih h)
    case true.sigChanged =>
      have hrest := ih h
      refine ⟨hrest.turns, hrest.start, ?_⟩
      intro before after hsplit
      cases before with
      | nil => rfl
      | cons first before =>
        injection hsplit with hhead htail
        subst hhead
        exact hrest.meanwhile before after htail
    all_goals exact absurd h (by simp [replay])

/-- What can be replayed can be replayed up to any point. -/
theorem replay_of_prefix {present after : Bool} {log seen : List ChangeKind} (hseen : seen <+: log)
    (h : replay present log = some after) : ∃ mid, replay present seen = some mid := by
  obtain ⟨unseen, rfl⟩ := hseen
  rw [replay_append] at h
  obtain ⟨mid, hmid, -⟩ := Option.bind_eq_some_iff.mp h
  exact ⟨mid, hmid⟩

/-! ## §2. One file and one name. -/

/-- The first snapshot of a file that is seen on the way. -/
def World.baseline? (file : String) : World → List Action → Option (List SnapshotEntry)
  | w, [] => w.project.store.snapshot? file
  | w, a :: rest => (w.project.store.snapshot? file).or (baseline? file (w.step a) rest)

/-- The log of a name tells what has happened to it since the file was first read, and ends, as long
as the project is sound, with what the snapshot says now. -/
structure Told (baseline : List SnapshotEntry) (file name : String) (p : Project) : Prop where
  good : p.Good
  story : ∃ present current,
    replay (declares baseline name) (p.store.changeLogOf file name) = some present
      ∧ p.store.snapshot? file = some current
      ∧ (p.isSound = true → present = declares current name)

/-- Nothing is known of a file. -/
structure Unread (file : String) (p : Project) : Prop where
  good : p.Good
  snapshot : p.store.snapshot? file = none
  log : ∀ name, p.store.changeLogOf file name = []

theorem Told.advance {baseline : List SnapshotEntry} {file name : String} {p p' : Project}
    (h : Told baseline file name p) (hadvances : Project.Advances p p') :
    Told baseline file name p' := by
  refine ⟨hadvances.good, ?_⟩
  obtain ⟨present, current, hreplay, hcurrent, hpresent⟩ := h.story
  cases hsound : p.isSound with
  | false =>
    obtain ⟨hstore, hstill⟩ := hadvances.broken hsound
    rw [hstore]
    exact ⟨present, current, hreplay, hcurrent, fun hs => absurd (hstill.symm.trans hs) (by simp)⟩
  | true =>
    obtain ⟨changes, seen, hreread, hseen, hall, hlog⟩ := hadvances.files file
    have hbefore := hpresent hsound
    rw [hcurrent] at hreread
    generalize hnew : p'.store.snapshot? file = new at hreread
    cases hreread with
    | same =>
      -- nothing was found, so nothing was logged
      have hnone : seen = [] := List.prefix_nil.mp hseen
      rw [hlog, hnone]
      exact ⟨present, current, by simpa [changesOf] using hreplay, rfl, fun _ => hbefore⟩
    | compared previous symbols =>
      -- what was logged is a first part of a story that leads to the new snapshot
      have hnames := h.good.intact.snapshot?_names hcurrent
      have hdelta := replay_changesBetween hnames symbols name
      have hkinds : changesOf name seen
          <+: changesOf name (changesBetween current (firstDeclarations symbols)) :=
        (hseen.filter _).map _
      obtain ⟨mid, hmid⟩ := replay_of_prefix hkinds hdelta
      refine ⟨mid, snapshotOf symbols, ?_, rfl, fun hstill => ?_⟩
      · rw [hlog, replay_append, hreplay, Option.bind_some, hbefore, hmid]
      · rw [hall hstill, hdelta] at hmid
        exact (Option.some.inj hmid).symm

theorem Unread.advance {file : String} {p p' : Project} (h : Unread file p)
    (hadvances : Project.Advances p p') :
    Unread file p' ∨ ∃ baseline, p'.store.snapshot? file = some baseline
      ∧ ∀ name, Told baseline file name p' := by
  obtain ⟨changes, seen, hreread, hseen, hall, hlog⟩ := hadvances.files file
  rw [h.snapshot] at hreread
  generalize hnew : p'.store.snapshot? file = new at hreread
  -- whatever happened, no change was found
  have hempty : ∀ name, seen = [] → p'.store.changeLogOf file name = [] := by
    intro name hnone
    rw [hlog, hnone, h.log name]
    rfl
  cases hreread with
  | same => exact .inl ⟨hadvances.good, hnew, fun name => hempty name (List.prefix_nil.mp hseen)⟩
  | first symbols =>
    refine .inr ⟨snapshotOf symbols, rfl, fun name => ⟨hadvances.good, ?_⟩⟩
    refine ⟨declares (snapshotOf symbols) name, snapshotOf symbols, ?_, hnew, fun _ => rfl⟩
    rw [hempty name (List.prefix_nil.mp hseen)]
    rfl

/-! ## §3. Runs. -/

theorem run_told {baseline : List SnapshotEntry} {file name : String} (actions : List Action) :
    ∀ {w : World}, Told baseline file name w.project →
      Told baseline file name (w.run actions).project := by
  induction actions with
  | nil => intro w h; exact h
  | cons a rest ih => intro w h; exact ih (h.advance (step_advances h.good a))

theorem baseline?_of_snapshot {file : String} {baseline : List SnapshotEntry} {w : World}
    (h : w.project.store.snapshot? file = some baseline) (actions : List Action) :
    w.baseline? file actions = some baseline := by
  cases actions with
  | nil => exact h
  | cons a rest =>
    unfold World.baseline?
    rw [h]
    rfl

theorem run_unread {file : String} (actions : List Action) :
    ∀ {w : World}, Unread file w.project →
      (w.baseline? file actions = none ∧ Unread file (w.run actions).project)
        ∨ ∃ baseline, w.baseline? file actions = some baseline
          ∧ ∀ name, Told baseline file name (w.run actions).project := by
  induction actions with
  | nil => intro w h; exact .inl ⟨h.snapshot, h⟩
  | cons a rest ih =>
    intro w h
    -- the first snapshot is still to come, and may come with this action
    have hbaseline : w.baseline? file (a :: rest) = (w.step a).baseline? file rest := by
      rw [World.baseline?, h.snapshot]
      rfl
    rw [hbaseline]
    rcases h.advance (step_advances h.good a) with hunread | ⟨baseline, hsnapshot, htold⟩
    · exact ih hunread
    · exact .inr ⟨baseline, baseline?_of_snapshot hsnapshot rest,
        fun name => run_told rest (htold name)⟩

theorem unread_ofStore {root : String} {config : Config} {session : String} {p : Project}
    (h : Project.ofStore root config session Store.empty = .ok p) (file : String) :
    Unread file p := by
  obtain ⟨filter, -, rfl⟩ := Project.ofStore_eq_ok h
  exact ⟨⟨Store.intact_empty, fun hbegun => absurd hbegun (by simp [Observer.new])⟩, rfl,
    fun _ => rfl⟩

/-- **No change is lost or logged twice.** A project starts with an empty store and goes through any
actions. Events stand in the order of their numbers. A file that was never read has no changes in the
log. Of any other file, the log of each name is consistent with the first snapshot of the file, and
leads to the current one. A project that broke answers no more questions; of its store only the first
part is said. -/
theorem changes_logged_once {root : String} {config : Config} {session : String} {p : Project}
    (hopen : Project.ofStore root config session Store.empty = .ok p) (d : Disk)
    (actions : List Action) (file name : String) :
    let w := World.run ⟨d, p⟩ actions
    let log := w.project.store.changeLogOf file name
    (w.project.store.events.map (·.id)).Pairwise (· < ·)
      ∧ match World.baseline? file ⟨d, p⟩ actions with
        | none => log = [] ∧ w.project.store.snapshot? file = none
        | some baseline => Consistent (declares baseline name) log
          ∧ ∃ current, w.project.store.snapshot? file = some current
            ∧ (w.project.isSound = true →
              declares current name = presentAfter (declares baseline name) log) := by
  intro w log
  rcases @run_unread file actions ⟨d, p⟩ (unread_ofStore hopen file) with
    ⟨hbaseline, hunread⟩ | ⟨baseline, hbaseline, htold⟩
  · rw [hbaseline]
    exact ⟨hunread.good.intact.eventOrder, hunread.log name, hunread.snapshot⟩
  · obtain ⟨present, current, hreplay, hcurrent, hpresent⟩ := (htold name).story
    rw [hbaseline]
    refine ⟨(htold name).good.intact.eventOrder, consistent_of_replay _ hreplay, current, hcurrent, ?_⟩
    intro hsound
    rw [← hpresent hsound]
    exact replay_eq_presentAfter _ hreplay

/-- A function is there when its file is first read. It goes, comes back in another session, and goes
again with the file. -/
def comesAndGoes : List Action :=
  [.index .code "a.py" false 0, .edit (pythonTree []), .indexAll ⟨false, []⟩ 1,
    .startSession .indexed none "second", .edit (pythonTree definesF),
    .watch ⟨.changed, "a.py"⟩ 2, .edit ⟨[([['p']], .directory)], []⟩, .indexAll ⟨false, []⟩ 3]

theorem changes_logged_once_coming_and_going :
    Project.ofStore "/p" pythonConfig "first" Store.empty = .ok pythonProject
      ∧ (let w := World.run ⟨pythonTree definesF, pythonProject⟩ comesAndGoes
        let log := w.project.store.changeLogOf "a.py" "f"
        (w.project.store.events.map (·.id)).Pairwise (· < ·)
          ∧ match World.baseline? "a.py" ⟨pythonTree definesF, pythonProject⟩ comesAndGoes with
            | none => log = [] ∧ w.project.store.snapshot? "a.py" = none
            | some baseline => Consistent (declares baseline "f") log
              ∧ ∃ current, w.project.store.snapshot? "a.py" = some current
                ∧ (w.project.isSound = true →
                  declares current "f" = presentAfter (declares baseline "f") log))
      ∧ (World.run ⟨pythonTree definesF, pythonProject⟩
          comesAndGoes).project.store.changeLogOf "a.py" "f" = [.removed, .added, .removed] := by
  have hopen : Project.ofStore "/p" pythonConfig "first" Store.empty = .ok pythonProject := rfl
  refine ⟨hopen, ?_, by decide +kernel⟩
  exact changes_logged_once hopen (pythonTree definesF) comesAndGoes "a.py" "f"

/-- Two files are indexed. One of them is emptied and the other removed. -/
def bothLose : List Action :=
  [.index .code "a.py" false 0, .index .code "b.py" false 0, .edit (pythonTree [])]

/-- The project where they are lost, before it looks at them again. -/
def bothLost : World := World.run ⟨pythonPair definesF, endlessProject⟩ bothLose

/-- The pass that looks again: the visit of what is left, and what it takes away. -/
def secondLook : Pass :=
  let p := bothLost.project.indexer.advance bothLost.disk false
    ⟨bothLost.project.store, PassReport.empty, none⟩ ⟨"a.py", .code⟩
  p.store.files.foldl (bothLost.project.indexer.prune bothLost.disk) p

theorem bothLost_indexAll : bothLost.project.indexer.indexAll bothLost.disk bothLost.project.store ⟨false, []⟩
    = (secondLook.store, .ok secondLook.report) := by
  have hselected : bothLost.project.indexer.selected bothLost.disk (PassOptions.mk false []).additional
      = .ok [⟨"a.py", .code⟩] := by
    refine @Indexer.selected_of_sorted _ _ _ [['p']] [] _ ?_ rfl ?_ ?_ (by decide)
    all_goals decide +kernel
  exact Indexer.indexAll_of_sorted hselected (by decide +kernel) (by decide +kernel)

/-- What is in the store after it. -/
def bothToldOnce : Store :=
  ({ bothLost.project with store := secondLook.store }.onFileDiffs secondLook.report.diffs 1).store

theorem bothLose_run : (World.run ⟨pythonPair definesF, endlessProject⟩
    (bothLose ++ [.indexAll ⟨false, []⟩ 1])).project.store = bothToldOnce := by
  rw [World.run_concat]
  exact Project.indexAll_store (p := bothLost.project) (by decide +kernel) bothLost_indexAll 1

/-- **A change is lost** when the settings have a window past all times. A pass takes new snapshots of both
files before it observes what has changed, and the project breaks over the first of them: the function of the
second is gone from its snapshot and, to the log, still there. -/
theorem change_lost_to_long_window :
    Project.ofStore "/p" endlessConfig "first" Store.empty = .ok endlessProject
      ∧ let start : World := ⟨pythonPair definesF, endlessProject⟩
        let actions := bothLose ++ [.indexAll ⟨false, []⟩ 1]
        let store := (World.run start actions).project.store
        store.changeLogOf "a.py" "f" = [.removed] ∧ store.changeLogOf "b.py" "f" = []
          ∧ (World.baseline? "b.py" start actions).map (declares · "f") = some true
          ∧ (store.snapshot? "b.py").map (declares · "f") = some false
          ∧ presentAfter true (store.changeLogOf "b.py" "f") = true := by
  have hbaseline : (World.baseline? "b.py" ⟨pythonPair definesF, endlessProject⟩
      (bothLose ++ [.indexAll ⟨false, []⟩ 1])).map (declares · "f") = some true := by
    decide +kernel
  refine ⟨rfl, ?_⟩
  simp only [bothLose_run, hbaseline]
  decide +kernel

end CodeIndex
