import Mathlib
import CodeIndex.Proofs.Session.Entries

/-!
# Any number of observers on one store

A crowd is a family of observers that share a store. Its run is a list of encounters: one of the
observers sees a call or the changes of a file, on the disk as it is then.

The changes of a file are seen one after another, and what is observed of one of them may already be
out of date by the next. So a run is also told in moments, which are the calls, the single changes and
the check after the last change of a file.

Main result: `run_eq_liveAll`, a run is the run of its moments.
-/

namespace CodeIndex

namespace Observer

/-! ## §1. Moments of an observer. -/

/-- What an observer does at once. -/
inductive Moment where
  | call (disk : Disk) (call : ToolCall) (now : Time)
  /-- One change of a file is observed. -/
  | change (file : String) (c : SymbolChange) (now : Time)
  /-- The changes of a file have been observed, and it is checked for thrashing. -/
  | closes (file : String) (now : Time)

/-- Live through a moment. -/
def live (o : Observer) (s : Store) : Moment → Observer × Store
  | .call d call now => o.onToolCall d s call now
  | .change file c now =>
    let (o, s) := o.begin s
    match o.onChange s file c now with
    | .ok s => (o, s)
    | .error _ => (o, s)
  | .closes file now => (o, afterCheck s (checkThrash o.thresholds false s o.session file now))

/-- Live through one moment after another. -/
def liveAll : Observer → Store → List Moment → Observer × Store
  | o, s, [] => (o, s)
  | o, s, m :: rest => liveAll (o.live s m).1 (o.live s m).2 rest

/-- The moments of what is seen. A first reading of a file has none. -/
def Sight.moments (d : Disk) : Sight → List Moment
  | .call made now => [.call d made now]
  | .changes diff now =>
    if diff.isFirst || diff.changes.isEmpty then []
    else diff.changes.map (.change diff.path · now) ++ [.closes diff.path now]

/-- Whether a moment is a call. -/
def Moment.isCall : Moment → Bool
  | .call _ _ _ => true
  | .change _ _ _ => false
  | .closes _ _ => false

/-- There is a call among the moments of what is seen if that is a call. -/
theorem Sight.moments_calls (d : Disk) (sight : Sight) :
    (sight.moments d).filter Moment.isCall
      = match sight with
        | .call made now => [.call d made now]
        | .changes _ _ => [] := by
  cases sight with
  | call made now => rfl
  | changes diff now =>
    simp only [moments]
    split
    · rfl
    · simp [List.filter_append, List.filter_map, Moment.isCall]

variable {o : Observer} {s : Store}

theorem liveAll_append (before after : List Moment) :
    ∀ (o : Observer) (s : Store), o.liveAll s (before ++ after)
      = (o.liveAll s before).1.liveAll (o.liveAll s before).2 after := by
  induction before with
  | nil => intro o s; rfl
  | cons m rest ih => intro o s; exact ih _ _

theorem live_session (o : Observer) (s : Store) (m : Moment) :
    (o.live s m).1.session = o.session := by
  cases m with
  | call d call now => exact onToolCall_session o d s call now
  | change file c now =>
    unfold live
    simp only [begin_fst]
    split <;> rfl
  | closes file now => rfl

theorem live_writes (o : Observer) (s : Store) (m : Moment) :
    SessionWrites o.session s (o.live s m).2 := by
  cases m with
  | call d call now => exact onToolCall_writes o d s call now
  | change file c now =>
    have hbegin := begin_writes o s
    unfold live
    simp only [begin_fst]
    split
    next s' hok => exact hbegin.trans (onChange_writes hok)
    next => exact hbegin
  | closes file now => exact .of_afterCheck (checkThrash_outcome _ _ _ _ _ _)

theorem Ready.of_writes {session : String} {s' : Store} (h : o.Ready s)
    (hwrites : SessionWrites session s s') : o.Ready s' :=
  fun hbegun => hwrites.hasSession (h hbegun)

/-- An observer that writes has put its session into the store before. -/
theorem live_ready (h : o.Ready s) (m : Moment) : (o.live s m).1.Ready (o.live s m).2 := by
  have hsession := begin_hasSession h
  cases m with
  | call d call now =>
    rcases onToolCall_entered o d s call now with hpassed | hentered
    · show (o.onToolCall d s call now).1.Ready (o.onToolCall d s call now).2
      rw [hpassed]
      exact h
    · intro _
      show (o.onToolCall d s call now).2.hasSession (o.onToolCall d s call now).1.session = true
      rw [onToolCall_session]
      exact hentered.writes.hasSession hsession
  | change file c now =>
    intro _
    rw [live_session]
    unfold live
    simp only [begin_fst]
    split
    next s' hok => exact (onChange_writes hok).hasSession hsession
    next => exact hsession
  | closes file now => exact h.of_writes (live_writes o s (.closes file now))

/-! ## §2. What is seen, in moments. -/

theorem begin_of_begun (h : o.begun = true) : o.begin s = (o, s) := by
  unfold begin
  rw [if_pos h]

/-- An observer whose session is in the store observes all changes of a file. -/
theorem liveAll_changes (hbegun : o.begun = true) (file : String) (now : Time)
    (changes : List SymbolChange) :
    ∀ {s : Store}, s.hasSession o.session = true →
      o.liveAll s (changes.map (.change file · now)) = (o, (o.onChanges s file now changes).1) := by
  induction changes with
  | nil => intro s _; rfl
  | cons c rest ih =>
    intro s h
    obtain ⟨s', hchange, hs', -⟩ := onChange_log h file c now
    have hlive : o.live s (.change file c now) = (o, s') := by
      unfold live
      simp only [begin_of_begun hbegun, hchange]
    rw [List.map_cons, liveAll, hlive, onChanges, hchange]
    exact ih hs'

/-- The first change that an observer sees begins the session, as if it had been begun before. -/
theorem liveAll_begin (o : Observer) (s : Store) (file : String) (now : Time)
    {changes : List SymbolChange} (h : changes ≠ []) (rest : List Moment) :
    o.liveAll s (changes.map (.change file · now) ++ rest)
      = (o.begin s).1.liveAll (o.begin s).2 (changes.map (.change file · now) ++ rest) := by
  have hbegun : (o.begin s).1.begun = true := by rw [begin_fst]
  cases changes with
  | nil => exact absurd rfl h
  | cons c others =>
    have hlive : o.live s (.change file c now)
        = (o.begin s).1.live (o.begin s).2 (.change file c now) := by
      simp only [live, begin_of_begun hbegun]
    rw [List.map_cons, List.cons_append, liveAll, liveAll, hlive]

theorem see_eq_liveAll (h : o.Ready s) (d : Disk) (sight : Sight) :
    o.see d s sight = o.liveAll s (sight.moments d) := by
  cases sight with
  | call call now => rfl
  | changes diff now =>
    simp only [see, onFileDiff, Sight.moments]
    split
    · rfl
    next hsome =>
      have hsession := begin_hasSession h
      have hchanges : diff.changes ≠ [] := by
        rintro hnil
        simp [hnil] at hsome
      rw [liveAll_begin o s diff.path now hchanges, liveAll_append]
      -- from here on the session has begun, on both sides
      have hbegun : (o.begin s).1.begun = true := by rw [begin_fst]
      replace hsession : (o.begin s).2.hasSession (o.begin s).1.session = true := by
        rw [begin_fst]
        exact hsession
      generalize (o.begin s).1 = o, (o.begin s).2 = s at hbegun hsession ⊢
      obtain ⟨last, hlast, -, -⟩ := onChanges_log diff.path now diff.changes hsession
      rw [liveAll_changes hbegun diff.path now diff.changes hsession, hlast]
      simp only [liveAll, live]
      generalize checkThrash o.thresholds false last o.session diff.path now = result
      cases result with
      | ok passed => rfl
      | error e => cases e <;> rfl

end Observer

/-! ## §3. Crowds. -/

open Observer (Sight Moment)

/-- Observers that share a store. -/
structure Crowd (ι : Type) where
  observers : ι → Observer
  store : Store

/-- One of the observers sees something. -/
structure Encounter (ι : Type) where
  who : ι
  disk : Disk
  sight : Sight

/-- The moments of an encounter, with the observer that lives through them. -/
def Encounter.moments {ι : Type} (e : Encounter ι) : List (ι × Moment) :=
  (e.sight.moments e.disk).map (e.who, ·)

/-- The call that one of the observers sees. -/
def Encounter.call? {ι : Type} [DecidableEq ι] (i : ι) (e : Encounter ι) : Option Moment :=
  match e.sight with
  | .call made now => if e.who = i then some (.call e.disk made now) else none
  | .changes _ _ => none

namespace Crowd

variable {ι : Type} [DecidableEq ι]

/-- The crowd after one of the observers has come to something. -/
def put (w : Crowd ι) (i : ι) (r : Observer × Store) : Crowd ι :=
  ⟨Function.update w.observers i r.1, r.2⟩

/-- One of the observers sees something. -/
def step (w : Crowd ι) (e : Encounter ι) : Crowd ι :=
  w.put e.who ((w.observers e.who).see e.disk w.store e.sight)

/-- The observers see one thing after another. -/
def run (w : Crowd ι) (encounters : List (Encounter ι)) : Crowd ι := encounters.foldl step w

/-- One of the observers lives through a moment. -/
def live (w : Crowd ι) (m : ι × Moment) : Crowd ι :=
  w.put m.1 ((w.observers m.1).live w.store m.2)

/-- The observers live through one moment after another. -/
def liveAll (w : Crowd ι) (moments : List (ι × Moment)) : Crowd ι := moments.foldl live w

/-- Every observer whose session has begun finds it in the store. Observers that have seen nothing do
so on any store. -/
def Ready (w : Crowd ι) : Prop := ∀ i, (w.observers i).Ready w.store

theorem liveAll_append (w : Crowd ι) (before after : List (ι × Moment)) :
    w.liveAll (before ++ after) = (w.liveAll before).liveAll after := List.foldl_append

theorem Ready.live {w : Crowd ι} (h : w.Ready) (m : ι × Moment) : (w.live m).Ready := by
  obtain ⟨i, m⟩ := m
  intro j
  by_cases hj : j = i
  · subst hj
    simpa [Crowd.live, put] using Observer.live_ready (h j) m
  · simpa [Crowd.live, put, hj] using (h j).of_writes (Observer.live_writes (w.observers i) w.store m)

theorem Ready.liveAll {w : Crowd ι} (h : w.Ready) (moments : List (ι × Moment)) :
    (w.liveAll moments).Ready := by
  induction moments generalizing w with
  | nil => exact h
  | cons m rest ih => exact ih (h.live m)

/-- One observer after another moment: the others and their sessions wait. -/
theorem liveAll_one (i : ι) (moments : List Moment) :
    ∀ w : Crowd ι, w.liveAll (moments.map (i, ·))
      = w.put i ((w.observers i).liveAll w.store moments) := by
  induction moments with
  | nil => intro w; simp [Crowd.liveAll, put, Observer.liveAll]
  | cons m rest ih =>
    intro w
    rw [List.map_cons]
    show (w.live (i, m)).liveAll (rest.map (i, ·)) = _
    rw [ih]
    simp [Crowd.live, put, Observer.liveAll]

/-- **A run is the run of its moments.** -/
theorem run_eq_liveAll {w : Crowd ι} (h : w.Ready) (encounters : List (Encounter ι)) :
    w.run encounters = w.liveAll (encounters.flatMap Encounter.moments) := by
  induction encounters generalizing w with
  | nil => rfl
  | cons e rest ih =>
    have hstep : w.step e = w.liveAll e.moments := by
      unfold step Encounter.moments
      rw [liveAll_one, Observer.see_eq_liveAll (h e.who)]
    rw [List.flatMap_cons, liveAll_append, ← hstep]
    exact ih (hstep ▸ h.liveAll e.moments)

end Crowd

/-! ## §4. What is kept in a crowd. -/

/-- What an observer does with a store, one item after another: it stays with its session, and writes
to that session only. -/
structure Activity (α : Type) where
  act : Observer → Store → α → Observer × Store
  session : ∀ o s x, (act o s x).1.session = o.session
  writes : ∀ o s x, SessionWrites o.session s (act o s x).2

/-- To live through moments. -/
def Observer.living : Activity Moment := ⟨live, live_session, live_writes⟩

/-- To see calls and changes of files, each on the disk as it is then. -/
def Observer.seeing : Activity (Disk × Sight) where
  act o s x := o.see x.1 s x.2
  session o s x := see_session o x.1 s x.2
  writes o s x := see_writes o x.1 s x.2

namespace Crowd

variable {ι α : Type} [DecidableEq ι]

/-- The observers do one thing after another. -/
def doAll (a : Activity α) (w : Crowd ι) (items : List (ι × α)) : Crowd ι :=
  items.foldl (fun w x => w.put x.1 (a.act (w.observers x.1) w.store x.2)) w

theorem liveAll_eq_doAll (w : Crowd ι) (moments : List (ι × Moment)) :
    w.liveAll moments = w.doAll Observer.living moments := rfl

theorem run_eq_doAll (w : Crowd ι) (encounters : List (Encounter ι)) :
    w.run encounters
      = w.doAll Observer.seeing (encounters.map fun e => (e.who, e.disk, e.sight)) := by
  unfold run doAll
  rw [List.foldl_map]
  rfl

/-- Of what all observers do, what one of them does. -/
def own (i : ι) (items : List (ι × α)) : List α :=
  (items.filter (·.1 = i)).map (·.2)

/-- The moments of one observer in a run are those of what it sees. -/
theorem own_moments (i : ι) (encounters : List (Encounter ι)) :
    own i (encounters.flatMap Encounter.moments)
      = encounters.flatMap fun e => if e.who = i then e.sight.moments e.disk else [] := by
  induction encounters with
  | nil => rfl
  | cons e rest ih =>
    have hfirst : own i e.moments = if e.who = i then e.sight.moments e.disk else [] := by
      by_cases hwho : e.who = i <;>
        simp [own, Encounter.moments, hwho, List.filter_map, Function.comp_def]
    rw [List.flatMap_cons, List.flatMap_cons, ← ih, ← hfirst, own, List.filter_append, List.map_append]
    rfl

/-- The calls among the moments of one observer in a run are those that it sees. -/
theorem own_calls (i : ι) (encounters : List (Encounter ι)) :
    (own i (encounters.flatMap Encounter.moments)).filter Moment.isCall
      = encounters.filterMap (·.call? i) := by
  rw [own_moments, List.filter_flatMap, List.filterMap_eq_flatMap_toList]
  refine List.flatMap_congr fun e _ => ?_
  unfold Encounter.call?
  by_cases hwho : e.who = i
  · rw [if_pos hwho, Sight.moments_calls]
    cases e.sight <;> simp [hwho]
  · rw [if_neg hwho]
    cases e.sight <;> simp [hwho]

variable (a : Activity α)

/-- An observer stays with its session, whatever the others do. -/
theorem doAll_session (i : ι) (items : List (ι × α)) :
    ∀ w : Crowd ι, ((w.doAll a items).observers i).session = (w.observers i).session := by
  induction items with
  | nil => intro w; rfl
  | cons x rest ih =>
    intro w
    refine (ih _).trans ?_
    by_cases hi : i = x.1
    · subst hi
      simp [put, a.session]
    · simp [put, hi]

omit [DecidableEq ι] in
/-- What one observer does leaves what is remembered of another's session alone. -/
theorem act_memory_of_ne {w : Crowd ι} (hsessions : Function.Injective fun j => (w.observers j).session)
    {i j : ι} (hi : i ≠ j) (x : α) :
    (a.act (w.observers j) w.store x).2.memory (w.observers i).session
      = w.store.memory (w.observers i).session :=
  (a.writes (w.observers j) w.store x).memory_of_ne fun heq => hi (hsessions heq)

variable {a}

/-- What an observer keeps by what it does, of itself and of what is remembered of its session, is kept
in the crowd: the others write to other sessions. -/
theorem doAll_keeps {P : List α → Observer → Memory → Prop}
    (hstep : ∀ past (o : Observer) (s : Store) (x : α), P past o (s.memory o.session) →
      P (past ++ [x]) (a.act o s x).1 ((a.act o s x).2.memory o.session))
    (i : ι) (items : List (ι × α)) :
    ∀ (w : Crowd ι) (past : List α), Function.Injective (fun j => (w.observers j).session) →
      P past (w.observers i) (w.store.memory (w.observers i).session) →
      P (past ++ own i items) ((w.doAll a items).observers i)
        ((w.doAll a items).store.memory (w.observers i).session) := by
  induction items with
  | nil =>
    intro w past _ h
    rw [own, List.filter_nil, List.map_nil, List.append_nil]
    exact h
  | cons x rest ih =>
    obtain ⟨j, x⟩ := x
    intro w past hsessions h
    have hsession : ∀ k, ((w.doAll a [(j, x)]).observers k).session = (w.observers k).session :=
      fun k => doAll_session a k [(j, x)] w
    have hrest := ih (w.doAll a [(j, x)]) (past ++ own i [(j, x)])
      (by simpa only [hsession] using hsessions)
    rw [hsession i, List.append_assoc, own, own, ← List.map_append, ← List.filter_append] at hrest
    refine hrest ?_
    -- the item is the observer's own, or it is another's and nothing of the observer changes
    by_cases hi : i = j
    · subst hi
      simpa [doAll, put, own] using hstep past _ w.store x h
    · simpa [doAll, put, own, hi, Ne.symm hi, act_memory_of_ne a hsessions hi] using h

/-- The same of the moments of a crowd, where what is kept says nothing of the past. -/
theorem liveAll_keeps {P : Observer → Memory → Prop}
    (hstep : ∀ (o : Observer) (s : Store) (m : Moment), P o (s.memory o.session) →
      P (o.live s m).1 ((o.live s m).2.memory o.session))
    (i : ι) (moments : List (ι × Moment)) (w : Crowd ι)
    (hsessions : Function.Injective fun j => (w.observers j).session)
    (h : P (w.observers i) (w.store.memory (w.observers i).session)) :
    P ((w.liveAll moments).observers i)
      ((w.liveAll moments).store.memory (w.observers i).session) := by
  rw [liveAll_eq_doAll]
  exact doAll_keeps (P := fun _ => P) (fun _ => hstep) i moments w [] hsessions h

end Crowd

end CodeIndex
