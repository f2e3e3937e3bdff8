import Mathlib
import CodeIndex.Proofs.Session.Growth

/-!
# The memory of sessions only grows

A project, other observers of its store and those who ask the store do anything with it, one after another.
What was remembered at one moment is there at any later one. What was read of the events of a session is the
first part of what is read of them later, as long as they can be read: one event whose details nest too deep
for the reader, and those of its session are refused from then on.

Main results:
  * `memory_only_grows` — what a run of deeds leaves of what was remembered, and of what was read of it;
  * `events_read_no_more` — a call that fails with lists inside lists, after which the events of its session
    are not read any more, and a project that breaks and tells them no more.
-/

namespace CodeIndex

open Store (Recalls Appends LogsLegibly Grows)

/-! ## §1. All that is done with a store. -/

/-- A project on its disk, others that observe sessions in the same store, and how many sessions those who
ask the store have begun. -/
structure Scene (ι : Type) where
  world : World
  observers : ι → Observer
  begun : Nat

/-- What is done with a store. -/
inductive Deed (ι : Type) where
  /-- The project is used in a world, or opened again. -/
  | turn (t : Turn)
  /-- The project resolves the imports of one file. -/
  | resolveFile (path : String)
  /-- The project compares a file with its snapshot. -/
  | compare (path : String) (symbols : List Symbol)
  /-- The project observes a call, or the changes of a file. -/
  | observe (sight : Observer.Sight)
  /-- Another observer does. -/
  | watch (who : ι) (sight : Observer.Sight)
  /-- A file is indexed, without a project that observes it. -/
  | index (x : Indexer) (c : FileClass) (path : String) (force : Bool)
  | indexAll (x : Indexer) (options : PassOptions)
  | remove (path : String)
  /-- The store is asked. `nested` says that this is in the middle of a transaction. -/
  | ask (t : Thresholds) (nested : Bool) (request : Request)

/-- What is done about files, and not in a session. -/
def Deed.isAboutFiles {ι : Type} : Deed ι → Bool
  | .observe _ => false
  | .watch _ _ => false
  | .ask _ _ request => request.isAboutFiles
  | _ => true

/-- What is seen can be read back from what is logged of it. -/
def Observer.Sight.IsLegible : Observer.Sight → Prop
  | .call made _ => made.IsLegible
  | .changes _ _ => True

/-- The events that a deed logs as they are given can be read back. -/
def Deed.IsLegible {ι : Type} : Deed ι → Prop
  | .observe sight => sight.IsLegible
  | .watch _ sight => sight.IsLegible
  | .ask _ _ request => request.IsLegible
  | _ => True

theorem Observer.see_logs (o : Observer) (d : Disk) (s : Store) {sight : Observer.Sight}
    (h : sight.IsLegible) : LogsLegibly s (o.see d s sight).2 := by
  cases sight with
  | call call now => exact o.onToolCall_logs d s now h
  | changes diff now => exact (o.onFileDiff_appends s diff now).logs

namespace Scene

variable {ι : Type} [DecidableEq ι]

/-- The store that is shared. -/
def store (w : Scene ι) : Store := w.world.project.store

/-- The scene with another project. -/
def withProject (w : Scene ι) (p : Project) : Scene ι := { w with world := { w.world with project := p } }

/-- The scene with another store. -/
def withStore (w : Scene ι) (s : Store) : Scene ι := w.withProject { w.world.project with store := s }

/-- What a deed leaves. One that fails leaves the store as it was. -/
def step (w : Scene ι) : Deed ι → Scene ι
  | .turn t => { w with world := w.world.turn t }
  | .resolveFile path => w.withProject (w.world.project.resolveFile w.world.disk path).1
  | .compare path symbols => w.withProject (w.world.project.computeDiff path symbols).1
  | .observe sight => w.withProject (w.world.project.see w.world.disk sight)
  | .watch who sight =>
    let (o, s) := (w.observers who).see w.world.disk w.store sight
    { w.withStore s with observers := Function.update w.observers who o }
  | .index x c path force =>
    w.withStore ((x.index w.world.disk w.store c path force).toOption.elim w.store (·.1))
  | .indexAll x options => w.withStore (x.indexAll w.world.disk w.store options).1
  | .remove path => w.withStore ((w.store.removeFile path).elim w.store (·.1))
  | .ask t nested request =>
    let state := (Request.run t nested ⟨w.store, w.begun⟩ request).1
    { w.withStore state.store with begun := state.sessions }

/-- What deeds leave, one after another. -/
def run (w : Scene ι) (deeds : List (Deed ι)) : Scene ι := deeds.foldl step w

variable {w : Scene ι}

theorem see_recalls (p : Project) (d : Disk) (hs : p.store.Intact) (sight : Observer.Sight) :
    Recalls p.store (p.see d sight).store ∧ (p.see d sight).store.Intact := by
  have hwrites := Observer.see_writes p.observer d p.store sight
  rcases p.see_store d sight with hstore | hstore
  · rw [hstore]
    exact ⟨hwrites.recalls, hwrites.intact hs⟩
  · rw [hstore]
    exact ⟨.refl _, hs⟩

/-- What is done about files only adds to sessions. -/
theorem step_grows (hs : w.store.Intact) {deed : Deed ι} (h : deed.isAboutFiles = true) :
    Grows w.store (w.step deed).store := by
  cases deed with
  | turn t => exact World.turn_grows hs t
  | resolveFile path => exact Project.resolvePaths_grows hs w.world.disk _
  | compare path symbols =>
    show Grows w.store (w.world.project.computeDiff path symbols).1.store
    unfold Project.computeDiff
    split
    · exact .refl hs
    · exact (Store.computeDiff_rewrites hs _ symbols).grows
  | observe | watch => exact absurd h (by simp [Deed.isAboutFiles])
  | index x c path force =>
    show Grows w.store ((x.index w.world.disk w.store c path force).toOption.elim w.store (·.1))
    cases hindex : x.index w.world.disk w.store c path force with
    | ok done => exact Indexer.index_grows (o := done.2) hs hindex
    | error e => exact .refl hs
  | indexAll x options => exact Indexer.indexAll_grows hs x w.world.disk options
  | remove path =>
    show Grows w.store ((w.store.removeFile path).elim w.store (·.1))
    cases hremove : w.store.removeFile path with
    | some done =>
      obtain ⟨s', diff⟩ := done
      exact Store.removeFile_grows hs hremove
    | none => exact .refl hs
  | ask t nested request =>
    -- what is asked about files begins no session and no transaction
    have hrun : (Request.run t nested ⟨w.store, w.begun⟩ request).1.store
        = (Request.runSimple t nested w.store request).1 := by
      rw [Request.run_of_simple]
      cases request with
      | createSession | transaction => exact absurd h (by simp [Deed.isAboutFiles, Request.isAboutFiles])
      | _ => rfl
    refine ⟨?_, Request.intact_run t nested ⟨w.store, w.begun⟩ hs request⟩
    show Appends w.store (Request.run t nested ⟨w.store, w.begun⟩ request).1.store
    rw [hrun]
    exact Request.appends_aboutFiles t nested w.store h

/-- **A deed leaves all that is remembered there.** -/
theorem step_recalls (hs : w.store.Intact) (deed : Deed ι) :
    Recalls w.store (w.step deed).store ∧ (w.step deed).store.Intact := by
  by_cases hfiles : deed.isAboutFiles = true
  · have hgrows := step_grows hs hfiles
    exact ⟨hgrows.toRecalls, hgrows.intact⟩
  · -- what is left are the deeds in a session, which may count tokens too
    cases deed with
    | observe sight => exact see_recalls w.world.project w.world.disk hs sight
    | watch who sight =>
      have hwrites := Observer.see_writes (w.observers who) w.world.disk w.store sight
      exact ⟨hwrites.recalls, hwrites.intact hs⟩
    | ask t nested request =>
      exact ⟨(Request.does_recall t).run nested ⟨w.store, w.begun⟩ request trivial,
        Request.intact_run t nested ⟨w.store, w.begun⟩ hs request⟩
    | _ => exact absurd rfl hfiles

theorem run_recalls (deeds : List (Deed ι)) :
    ∀ {w : Scene ι}, w.store.Intact → Recalls w.store (w.run deeds).store ∧ (w.run deeds).store.Intact := by
  induction deeds with
  | nil => intro w hs; exact ⟨.refl _, hs⟩
  | cons deed rest ih =>
    intro w hs
    obtain ⟨hfirst, hs'⟩ := step_recalls hs deed
    obtain ⟨hrest, hs''⟩ := ih hs'
    exact ⟨hfirst.trans hrest, hs''⟩

/-- **A deed whose own events can be read back** logs nothing that cannot. -/
theorem step_logs (hs : w.store.Intact) {deed : Deed ι} (h : deed.IsLegible) :
    LogsLegibly w.store (w.step deed).store := by
  by_cases hfiles : deed.isAboutFiles = true
  · exact (step_grows hs hfiles).logs
  · cases deed with
    | observe sight =>
      rcases w.world.project.see_store w.world.disk sight with hstore | hstore
      · show LogsLegibly w.store (w.world.project.see w.world.disk sight).store
        rw [hstore]
        exact w.world.project.observer.see_logs w.world.disk w.store h
      · exact .of_same (congrArg Store.events hstore)
    | watch who sight => exact Observer.see_logs (w.observers who) w.world.disk w.store h
    | ask t nested request => exact (Request.does_logLegibly t).run nested ⟨w.store, w.begun⟩ request h
    | _ => exact absurd rfl hfiles

theorem run_logs (deeds : List (Deed ι)) (h : ∀ deed ∈ deeds, deed.IsLegible) :
    ∀ {w : Scene ι}, w.store.Intact → LogsLegibly w.store (w.run deeds).store := by
  induction deeds with
  | nil => intro w _; exact .refl _
  | cons deed rest ih =>
    intro w hs
    have hfirst := step_logs hs (h deed List.mem_cons_self)
    exact hfirst.trans
      (ih (fun other hother => h other (List.mem_cons_of_mem _ hother)) (step_recalls hs deed).2)

theorem run_grows (deeds : List (Deed ι)) (h : ∀ deed ∈ deeds, deed.isAboutFiles = true) :
    ∀ {w : Scene ι}, w.store.Intact → Grows w.store (w.run deeds).store := by
  induction deeds with
  | nil => intro w hs; exact .refl hs
  | cons deed rest ih =>
    intro w hs
    have hfirst := step_grows hs (h deed List.mem_cons_self)
    exact hfirst.trans (ih (fun other hother => h other (List.mem_cons_of_mem _ hother)) hfirst.intact)

end Scene

/-! ## §2. The theorem. -/

/-- What is remembered at one moment and at a later one. -/
structure Store.OnlyGrows (s s' : Store) : Prop where
  /-- A session stays, and keeps its mode and its label. -/
  sessions : ∀ row ∈ s.sessions, ∃ row' ∈ s'.sessions, row.Continues row'
  /-- What a session has logged is the first part of what it has logged later. -/
  events : ∀ session, s.eventsOf session <+: s'.eventsOf session
  eventOrder : ∀ session, ((s'.eventsOf session).map (·.id)).Pairwise (· < ·)
  /-- What is read of it is the first part of what is read of it later. -/
  read : ∀ session shown shown', s.eventsFor session = .ok shown → s'.eventsFor session = .ok shown' →
    shown <+: shown'
  readOrder : ∀ session shown, s'.eventsFor session = .ok shown → (shown.map (·.id)).Pairwise (· < ·)
  /-- It is read exactly if the details of each event are read back. -/
  readable : ∀ session, (∃ shown, s'.eventsFor session = .ok shown)
    ↔ ∀ e ∈ s'.eventsOf session, e.event.ReadsBack
  /-- Once it is refused it stays so. -/
  refused : ∀ session failure, s.eventsFor session = .error failure →
    s'.eventsFor session = .error failure
  /-- An observation stays. The row of its number is the one, and all that may change about it is that it gets
  stale, for a reason that it keeps. -/
  observations : ∀ o ∈ s.observations, ∃ o' ∈ s'.observations, o.Continues o'
    ∧ ∀ other ∈ s'.observations, other.id = o.id → other = o'

theorem Store.Recalls.onlyGrows {s s' : Store} (h : Recalls s s') (hs' : s'.Intact) : s.OnlyGrows s' where
  sessions row hrow := by
    obtain ⟨i, hi⟩ := List.mem_iff_getElem?.mp hrow
    obtain ⟨row', hrow', hcontinues⟩ := h.sessions i row hi
    exact ⟨row', List.mem_of_getElem? hrow', hcontinues⟩
  events session := h.events.filter _
  eventOrder session := hs'.eventOrder.sublist (List.filter_sublist.map _)
  read session := (eventsFor_of_start (h.events.filter _)).1
  readOrder session shown hshown := by
    rw [eventsFor_ids hshown]
    exact hs'.eventOrder.sublist (List.filter_sublist.map _)
  readable session := eventsFor_isOk_iff
  refused session := (eventsFor_of_start (h.events.filter _)).2
  observations o ho := by
    obtain ⟨i, hi⟩ := List.mem_iff_getElem?.mp ho
    obtain ⟨o', ho', hcontinues⟩ := h.observations i o hi
    refine ⟨o', List.mem_of_getElem? ho', hcontinues, fun other hother hid => ?_⟩
    have hdistinct : (s'.observations.map (·.id)).Nodup := hs'.observationOrder.imp fun hlt => ne_of_lt hlt
    exact List.inj_on_of_nodup_map hdistinct hother (List.mem_of_getElem? ho')
      (hid.trans hcontinues.id.symm)

/-- What was read of a session is read of it later, if nothing was logged that cannot be. -/
theorem Store.LogsLegibly.eventsFor_isOk {s s' : Store} (h : LogsLegibly s s')
    (hcount : s'.events.length < unsignedEnd) {session : String} {shown : List EventRow}
    (hshown : s.eventsFor session = .ok shown) : ∃ shown', s'.eventsFor session = .ok shown' := by
  obtain ⟨more, hmore, hreads⟩ := h
  refine eventsFor_isOk_iff.mpr fun e he => ?_
  rw [eventsOf, hmore, List.filter_append] at he
  rcases List.mem_append.mp he with he | he
  · exact eventsFor_isOk_iff.mp ⟨shown, hshown⟩ e he
  · exact hreads hcount e (List.mem_of_mem_filter he)

/-- A project reads what its store does, unless it is broken. -/
theorem Project.eventsFor_eq_ok_iff {p : Project} {session : String} {shown : List EventRow} :
    p.eventsFor session = .ok shown ↔ p.isSound = true ∧ p.store.eventsFor session = .ok shown := by
  unfold Project.eventsFor Project.ask
  cases hsound : p.isSound with
  | false => simp [bind, Except.bind]
  | true =>
    simp only [if_true, bind, Except.bind, true_and]
    cases p.store.eventsFor session with
    | error failure => simp [throw, throwThe, MonadExceptOf.throw]
    | ok read => simp [pure, Except.pure]

/-- **The memory of sessions only grows.** A store hangs together, and a project, other observers and those who
ask it do anything with it, one thing after another; a transaction that is given up counts as one thing that
has done nothing. What was remembered at any moment is there at any later one: a session has logged what it
had logged and perhaps more, in the order of growing numbers, and an observation is as it was, but that it may
have become stale. What was done about files in between has not even changed the row of a session.

The events of a session are read exactly if the details of each can be read back, and what is read begins with
what was read before. They can be read as long as no call has failed with a result that nests too deep, nobody
has asked for an event with such details to be logged, and the log is no longer than can be counted. A project
reads what its store does, unless it has broken. -/
theorem memory_only_grows {ι : Type} [DecidableEq ι] (w : Scene ι) (hs : w.store.Intact)
    (before after : List (Deed ι)) :
    let s := (w.run before).store
    let later := w.run (before ++ after)
    let s' := later.store
    s.OnlyGrows s' ∧ ((∀ deed ∈ after, deed.isAboutFiles = true) → s.sessions <+: s'.sessions)
      ∧ ((∀ deed ∈ after, deed.IsLegible) → s'.events.length < unsignedEnd →
        ∀ session shown, s.eventsFor session = .ok shown →
          ∃ shown', s'.eventsFor session = .ok shown' ∧ shown <+: shown')
      ∧ ∀ session shown, later.world.project.eventsFor session = .ok shown
        ↔ later.world.project.isSound = true ∧ s'.eventsFor session = .ok shown := by
  intro s later s'
  -- the later moment is reached from the earlier one
  have hrun : later = (w.run before).run after := by
    show w.run (before ++ after) = _
    unfold Scene.run
    rw [List.foldl_append]
  obtain ⟨-, hbefore⟩ := Scene.run_recalls before hs
  obtain ⟨hrecalls, hafter⟩ := Scene.run_recalls after hbefore
  have hgrows : s.OnlyGrows s' := by
    show s.OnlyGrows later.store
    rw [hrun]
    exact hrecalls.onlyGrows hafter
  refine ⟨hgrows, fun hfiles => ?_, fun hlegible hcount session shown hshown => ?_,
    fun session shown => Project.eventsFor_eq_ok_iff⟩
  · show s.sessions <+: later.store.sessions
    rw [hrun]
    exact (Scene.run_grows after hfiles hbefore).rows
  · have hlogs : LogsLegibly s s' := by
      show LogsLegibly s later.store
      rw [hrun]
      exact Scene.run_logs after hlegible hbefore
    obtain ⟨shown', hshown'⟩ := hlogs.eventsFor_isOk hcount hshown
    exact ⟨shown', hshown', hgrows.read session shown shown' hshown hshown'⟩

/-- A project that was just opened, and one other observer. -/
def firstScene : Scene Unit :=
  ⟨⟨pythonTree definesF, pythonProject⟩, fun _ => .new "/p" .default .indexed none "second", 0⟩

/-- The file is indexed, both look at it, and the other one notes that it is important. -/
def lookDeeds : List (Deed Unit) :=
  let call : ToolCall := ⟨"get_symbol", .obj [("file", .str "a.py"), ("symbol", .str "f")], .str "def f", false⟩
  [.turn (.act (.indexAll ⟨false, []⟩ 0)), .observe (.call call 1), .watch () (.call call 2),
    .ask .default false (.insertObservation "second" ⟨.environment, some "a.py", some "f", "important"⟩ 3)]

/-- The file is emptied and indexed again, and at last removed. -/
def emptyDeeds : List (Deed Unit) :=
  [.turn (.act (.edit (pythonTree []))), .turn (.act (.indexAll ⟨false, []⟩ 4)),
    .turn (.act (.remove "a.py" 5))]

/-- What both have logged and observed is there after the file has gone, and the observation is stale. -/
theorem memory_only_grows_over_removal :
    let w := firstScene
    let s := (w.run lookDeeds).store
    let s' := (w.run (lookDeeds ++ emptyDeeds)).store
    w.store.Intact ∧ s.OnlyGrows s' ∧ s.sessions <+: s'.sessions
      ∧ (∃ shown shown', s.eventsFor "first" = .ok shown ∧ s'.eventsFor "first" = .ok shown'
        ∧ shown <+: shown' ∧ shown.length = 1 ∧ shown'.length = 2)
      ∧ s'.files = [] ∧ s.observations.map (·.stale) = [false]
      ∧ s'.observations.map (·.stale) = [true, false] := by
  intro w s s'
  have hs : w.store.Intact := Store.intact_empty
  obtain ⟨hgrows, hfiles, hread, -⟩ := memory_only_grows w hs lookDeeds emptyDeeds
  have hlogged : (s.eventsFor "first").toOption.isSome = true ∧ (s.eventsOf "first").length = 1
      ∧ (s'.eventsOf "first").length = 2 := by decide +kernel
  obtain ⟨hsome, hone, htwo⟩ := hlogged
  refine ⟨hs, hgrows, hfiles (by simp [emptyDeeds, Deed.isAboutFiles]), ?_, by decide +kernel⟩
  cases hshown : s.eventsFor "first" with
  | error failure => rw [hshown] at hsome; cases hsome
  | ok shown =>
    obtain ⟨shown', hshown', hprefix⟩ :=
      hread (by simp [emptyDeeds, Deed.IsLegible]) (by decide +kernel) "first" shown hshown
    exact ⟨shown, shown', rfl, hshown', hprefix, (Store.eventsFor_length hshown).trans hone,
      (Store.eventsFor_length hshown').trans htwo⟩

/-- Lists inside each other. -/
def nested : Nat → Json
  | 0 => .arr []
  | n + 1 => .arr [nested n]

/-- A call that fails with lists nested as deep as the reader follows. It is logged in an object. -/
def deepFailure : Deed Unit := .observe (.call ⟨"run", .obj [], nested 126, true⟩ 4)

/-- A project whose window reaches past all times, and another observer of its store. -/
def endlessScene : Scene Unit :=
  ⟨⟨pythonTree definesF, endlessProject⟩, fun _ => .new "/p" .default .indexed none "second", 0⟩

/-- It looks at a function. -/
def oneLook : List (Deed Unit) :=
  [.observe (.call ⟨"get_symbol", .obj [("file", .str "a.py"), ("symbol", .str "f")], .str "def f", false⟩ 1)]

/-- It observes that another has come, and breaks. -/
def oneAddition : Deed Unit :=
  .observe (.changes ⟨"a.py", false, [.of .added "g" .function none none]⟩ 2)

theorem exists_of_length {ε α : Type} {result : Except ε (List α)} {n : Nat}
    (h : result.toOption.map List.length = some n) : ∃ shown, result = .ok shown ∧ shown.length = n := by
  cases result with
  | error e => cases h
  | ok shown => exact ⟨shown, rfl, Option.some.inj h⟩

theorem eq_error_of_length {ε α : Type} {result : Except ε (List α)} {e : ε}
    (h : result.map List.length = .error e) : result = .error e := by
  cases result with
  | error other => exact congrArg Except.error (Except.error.inj h)
  | ok shown => cases h

/-- **What was read is read no more.** A call that fails with a deep result is logged, and the events of its
session, which could be read before, are refused with all that was logged of it. And a project that has broken
over a window past all times refuses them, where its store would tell them. -/
theorem events_read_no_more :
    (let s := (firstScene.run lookDeeds).store
      let s' := (firstScene.run (lookDeeds ++ [deepFailure])).store
      (∃ shown, s.eventsFor "first" = .ok shown ∧ shown.length = 1)
        ∧ (s'.eventsOf "first").length = 2
        ∧ s'.eventsFor "first" = .error (.deepDetails 136))
      ∧ let p := (endlessScene.run oneLook).world.project
        let p' := (endlessScene.run (oneLook ++ [oneAddition])).world.project
        (∃ shown, p.eventsFor "first" = .ok shown ∧ shown.length = 1)
          ∧ (∃ shown', p'.store.eventsFor "first" = .ok shown' ∧ shown'.length = 2)
          ∧ p'.eventsFor "first" = .error .broken := by
  -- the runs are evaluated as far as the number of events, which can be compared
  have hdeep : ((firstScene.run lookDeeds).store.eventsFor "first").toOption.map List.length = some 1
      ∧ ((firstScene.run (lookDeeds ++ [deepFailure])).store.eventsOf "first").length = 2
      ∧ ((firstScene.run (lookDeeds ++ [deepFailure])).store.eventsFor "first").map List.length
        = .error (.deepDetails 136) := by decide +kernel
  have hbroken : ((endlessScene.run oneLook).world.project.eventsFor "first").toOption.map List.length = some 1
      ∧ ((endlessScene.run (oneLook ++ [oneAddition])).world.project.store.eventsFor "first").toOption.map
        List.length = some 2
      ∧ ((endlessScene.run (oneLook ++ [oneAddition])).world.project.eventsFor "first").map List.length
        = .error .broken := by decide +kernel
  obtain ⟨hone, htwo, hrefused⟩ := hdeep
  obtain ⟨hread, hstored, hbroken⟩ := hbroken
  exact ⟨⟨exists_of_length hone, htwo, eq_error_of_length hrefused⟩, exists_of_length hread,
    exists_of_length hstored, eq_error_of_length hbroken⟩

end CodeIndex
