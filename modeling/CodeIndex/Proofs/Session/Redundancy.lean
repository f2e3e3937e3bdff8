import Mathlib
import CodeIndex.Proofs.Session.Reports

/-!
# Redundant accesses

Accesses to a subject are counted under a text that is made of its file and its symbol. Different
subjects may have the same text: the file `a::b` has that of the symbol `b` in the file `a`. They are
counted together then, and the access that makes it too many is reported for its own subject only. A
subject that shares its text with no other that was accessed is counted alone.

Main results: `subjects_counted_together`, `redundant_accesses_by_key`.
-/

namespace CodeIndex

/-! ## §1. Accesses in the log. -/

/-- An access that is counted under a key. -/
def isUnder (key : String) (e : NewEvent × Time) : Bool :=
  e.1.type == .accessed && e.1.file.any (subjectKey · e.1.symbol == key)

/-- Where a log has an access to a subject with which the count under its key is `n`. -/
structure Reaches (n : UInt32) (file : String) (symbol : Option String)
    (events before : List (NewEvent × Time)) (e : NewEvent × Time) (after : List (NewEvent × Time)) :
    Prop where
  split : events = before ++ e :: after
  subject : ofSubject .accessed (some file) symbol e = true
  nth : UInt32.ofNat (before.countP (isUnder (subjectKey file symbol)) + 1) = n

/-- An access to a subject is counted under its key. -/
theorem isUnder_of_ofSubject {file : String} {symbol : Option String} {e : NewEvent × Time}
    (h : ofSubject .accessed (some file) symbol e = true) :
    isUnder (subjectKey file symbol) e = true := by
  simp only [ofSubject, Bool.and_eq_true, beq_iff_eq] at h
  simp [isUnder, h]

namespace Reaches

variable {n : UInt32} {file : String} {symbol : Option String}
  {events new before after : List (NewEvent × Time)} {e : NewEvent × Time}

/-- The count after the access is no greater than that of the whole log. -/
theorem lt_countP (h : Reaches n file symbol events before e after) :
    before.countP (isUnder (subjectKey file symbol))
      < events.countP (isUnder (subjectKey file symbol)) := by
  rw [h.split, List.countP_append, List.countP_cons_of_pos (isUnder_of_ofSubject h.subject)]
  omega

/-- Events that are no accesses to the subject do not matter. -/
theorem append_iff (hnew : ∀ e ∈ new, ofSubject .accessed (some file) symbol e = false) :
    Reaches n file symbol (events ++ new) before e after
      ↔ ∃ rest, after = rest ++ new ∧ Reaches n file symbol events before e rest := by
  constructor
  · intro h
    rcases split_append h.split with ⟨rest, hold, hafter⟩ | ⟨rest, -, hrest⟩
    · exact ⟨rest, hafter, hold, h.subject, h.nth⟩
    · -- the access would be among the new events
      have hnot := hnew e (by simp [hrest])
      rw [h.subject] at hnot
      exact absurd hnot Bool.noConfusion
  · rintro ⟨rest, rfl, h⟩
    exact ⟨by rw [h.split, List.append_assoc, List.cons_append], h.subject, h.nth⟩

/-- A new event is such an access, or there was one before. -/
theorem concat_iff {e' : NewEvent × Time} :
    Reaches n file symbol (events ++ [e]) before e' after
      ↔ (∃ rest, after = rest ++ [e] ∧ Reaches n file symbol events before e' rest)
        ∨ (before = events ∧ e' = e ∧ after = []
          ∧ Reaches n file symbol (events ++ [e]) events e []) := by
  constructor
  · intro h
    rcases split_append h.split with ⟨rest, hold, hafter⟩ | ⟨rest, hbefore, hrest⟩
    · exact .inl ⟨rest, hafter, hold, h.subject, h.nth⟩
    · cases rest with
      | nil =>
        rw [List.nil_append, List.cons.injEq] at hrest
        rw [List.append_nil] at hbefore
        obtain ⟨rfl, rfl⟩ := hrest
        subst hbefore
        exact .inr ⟨rfl, rfl, rfl, h⟩
      | cons first rest => simp at hrest
  · rintro (⟨rest, rfl, h⟩ | ⟨rfl, rfl, rfl, h⟩)
    · exact ⟨by rw [h.split, List.append_assoc, List.cons_append], h.subject, h.nth⟩
    · exact h

/-- Where there is such an access, there is a first one. -/
theorem exists_first (h : ∃ before e after, Reaches n file symbol events before e after) :
    ∃ before e after, Reaches n file symbol events before e after
      ∧ ∀ earlier e' later, ¬Reaches n file symbol before earlier e' later := by
  induction events using List.reverseRecOn with
  | nil =>
    obtain ⟨before, e, after, hreaches⟩ := h
    exact absurd hreaches.split (by simp)
  | append_singleton events last ih =>
    by_cases hbefore : ∃ before e after, Reaches n file symbol events before e after
    · obtain ⟨before, e, rest, hreaches, hfirst⟩ := ih hbefore
      exact ⟨before, e, rest ++ [last], concat_iff.mpr (.inl ⟨rest, rfl, hreaches⟩), hfirst⟩
    · -- the last event is the only one
      obtain ⟨before, e, after, hreaches⟩ := h
      rcases concat_iff.mp hreaches with ⟨rest, -, hold⟩ | ⟨-, -, -, hlast⟩
      · exact absurd ⟨before, e, rest, hold⟩ hbefore
      · exact ⟨events, last, [], hlast,
          fun earlier e' later hearlier => hbefore ⟨earlier, e', later, hearlier⟩⟩

end Reaches

/-! ## §2. Counts and reports. -/

theorem Tally.accessCount_recordAccess (tally : Tally) (file path : String)
    (symbol subject : Option String) :
    (tally.recordAccess path subject).accessCount file symbol
      = tally.accessCount file symbol
        + if subjectKey file symbol = subjectKey path subject then 1 else 0 :=
  Counts.get_bump _ _ _

/-- The reports of different subjects are different. -/
theorem PatternReport.redundantAccess_other {path file : String} {subject symbol : Option String}
    (h : ¬(path = file ∧ subject = symbol)) (n : Nat) (now : Time) :
    ofSubject .redundantAccess (some file) symbol
        ((PatternReport.redundantAccess path subject n).event, now) = false
      ∧ (PatternReport.redundantAccess path subject n).observation
        ≠ (PatternReport.redundantAccess file symbol n).observation := by
  rw [not_and] at h
  refine ⟨by simpa [ofSubject, PatternReport.redundantAccess] using h, fun hsame => ?_⟩
  simp only [PatternReport.redundantAccess, NewObservation.mk.injEq, Option.some.injEq] at hsame
  exact h hsame.2.1 hsame.2.2.1

/-- The accesses to a subject are counted by key, up to the turn of the counter, and of the accesses to
the subject that make the count `n` the first is reported. -/
structure RedundancyExact (n : UInt32) (is : Standing) (file : String) (symbol : Option String) :
    Prop where
  counted : is.tally.accessCount file symbol
    = UInt32.ofNat (is.events.countP (isUnder (subjectKey file symbol)))
  /-- The report follows the access in the log. -/
  reported : ∀ before e after, Reaches n file symbol is.events before e after →
    (∀ earlier e' later, ¬Reaches n file symbol before earlier e' later) →
    (∃ rest, after = ((PatternReport.redundantAccess file symbol n).event, e.2) :: rest)
      ∧ is.Made (ofSubject .redundantAccess (some file) symbol) (.redundantAccess file symbol n) [e.2]
  quiet : (∀ before e after, ¬Reaches n file symbol is.events before e after) →
    is.Made (ofSubject .redundantAccess (some file) symbol) (.redundantAccess file symbol n) []

namespace RedundancyExact

variable {n : UInt32} {was : Standing} {file : String} {symbol : Option String} {tally : Tally}
  {events : List NewEvent} {observations : List NewObservation} {reports : List PatternReport} {now : Time}

/-- A report has been made exactly if there was an access to be reported. -/
theorem any_events_iff (h : RedundancyExact n was file symbol) :
    was.events.any (ofSubject .redundantAccess (some file) symbol) = true
      ↔ ∃ before e after, Reaches n file symbol was.events before e after := by
  constructor
  · intro hany
    by_contra hnone
    have hquiet := h.quiet fun before e after hreaches => hnone ⟨before, e, after, hreaches⟩
    rw [hquiet.any_events] at hany
    exact absurd hany (by simp)
  · intro hreached
    obtain ⟨before, e, after, hreaches, hfirst⟩ := Reaches.exists_first hreached
    rw [(h.reported before e after hreaches hfirst).2.any_events]
    rfl

/-- Where the log goes on without an access that is to be reported, what was exact stays so. -/
theorem extended (h : RedundancyExact n was file symbol) {is : Standing} (new : List (NewEvent × Time))
    (hcounted : is.tally.accessCount file symbol
      = UInt32.ofNat (is.events.countP (isUnder (subjectKey file symbol))))
    (hold : ∀ {before e rest}, Reaches n file symbol was.events before e rest →
      Reaches n file symbol is.events before e (rest ++ new))
    (hfirst : ∀ {before e after}, Reaches n file symbol is.events before e after →
      (∀ earlier e' later, ¬Reaches n file symbol before earlier e' later) →
      ∃ rest, after = rest ++ new ∧ Reaches n file symbol was.events before e rest)
    (hmade : ∀ {times},
      was.Made (ofSubject .redundantAccess (some file) symbol) (.redundantAccess file symbol n) times →
      is.Made (ofSubject .redundantAccess (some file) symbol) (.redundantAccess file symbol n) times) :
    RedundancyExact n is file symbol := by
  refine ⟨hcounted, ?_, ?_⟩
  · intro before e after hreached hnone
    obtain ⟨rest, rfl, hreaches⟩ := hfirst hreached hnone
    obtain ⟨⟨others, rfl⟩, hreported⟩ := h.reported before e rest hreaches hnone
    exact ⟨⟨_, rfl⟩, hmade hreported⟩
  · intro hnot
    exact hmade (h.quiet fun before e rest hreaches => hnot before e _ (hold hreaches))

/-- Entries and reports that are about something else do not matter, but they may be counted. -/
theorem kept (h : RedundancyExact n was file symbol)
    (hcounted : tally.accessCount file symbol = UInt32.ofNat
      ((was.after tally events observations reports now).events.countP
        (isUnder (subjectKey file symbol))))
    (hevents : ∀ e ∈ events, ofSubject .accessed (some file) symbol (e, now) = false
      ∧ ofSubject .redundantAccess (some file) symbol (e, now) = false)
    (hobservations : ∀ o ∈ observations, o ≠ (PatternReport.redundantAccess file symbol n).observation)
    (hreports : ∀ r ∈ reports, ofSubject .accessed (some file) symbol (r.event, now) = false
      ∧ ofSubject .redundantAccess (some file) symbol (r.event, now) = false
      ∧ r.observation ≠ (PatternReport.redundantAccess file symbol n).observation) :
    RedundancyExact n (was.after tally events observations reports now) file symbol := by
  have hnew : ∀ e ∈ (events ++ reports.map (·.event)).map (·, now),
      ofSubject .accessed (some file) symbol e = false := by
    intro e he
    simp only [List.mem_map, List.mem_append] at he
    obtain ⟨e, hmem | ⟨r, hmem, rfl⟩, rfl⟩ := he
    · exact (hevents e hmem).1
    · exact (hreports r hmem).1
  exact h.extended _ hcounted (fun hreaches => (Reaches.append_iff hnew).mpr ⟨_, rfl, hreaches⟩)
    (fun hreached _ => (Reaches.append_iff hnew).mp hreached)
    fun hmade => hmade.kept (fun e he => (hevents e he).2) hobservations fun r hr => (hreports r hr).2

/-- Without an access nothing is counted. -/
theorem unaccessed (h : RedundancyExact n was file symbol)
    (hcount : tally.accessCount file symbol = was.tally.accessCount file symbol)
    (hevents : ∀ e ∈ events, e.type ≠ .accessed ∧ e.type ≠ .redundantAccess)
    (hobservations : ∀ o ∈ observations, o ≠ (PatternReport.redundantAccess file symbol n).observation)
    (hreports : ∀ r ∈ reports, r.event.type ≠ .accessed ∧ r.event.type ≠ .redundantAccess
      ∧ r.observation ≠ (PatternReport.redundantAccess file symbol n).observation) :
    RedundancyExact n (was.after tally events observations reports now) file symbol := by
  have hnone : ((events ++ reports.map (·.event)).map (·, now)).countP
      (isUnder (subjectKey file symbol)) = 0 := by
    rw [List.countP_eq_zero]
    intro e he
    simp only [List.mem_map, List.mem_append] at he
    obtain ⟨e, hmem | ⟨r, hmem, rfl⟩, rfl⟩ := he
    · simp [isUnder, hevents e hmem]
    · simp [isUnder, hreports r hmem]
  refine h.kept ?_ (fun e he => by simp [ofSubject, hevents e he]) hobservations fun r hr => ?_
  · rw [Standing.after, hcount, h.counted, List.countP_append, hnone, Nat.add_zero]
  · exact ⟨by simp [ofSubject, hreports r hr], by simp [ofSubject, hreports r hr], (hreports r hr).2.2⟩

/-- An access that is not to be reported. -/
theorem uneventful (h : RedundancyExact n was file symbol) {e : NewEvent}
    (hcounted : tally.accessCount file symbol = UInt32.ofNat
      ((was.events ++ [(e, now)]).countP (isUnder (subjectKey file symbol))))
    (hother : e.type ≠ .redundantAccess)
    (hpast : Reaches n file symbol (was.events ++ [(e, now)]) was.events (e, now) [] →
      ∃ before e' after, Reaches n file symbol was.events before e' after) :
    RedundancyExact n (was.after tally [e] [] [] now) file symbol := by
  refine h.extended [(e, now)] hcounted (fun hreaches => ?_) (fun hreached hnone => ?_)
    fun hmade => hmade.kept (by simp [ofSubject, hother]) (by simp) (by simp)
  · exact Reaches.concat_iff.mpr (.inl ⟨_, rfl, hreaches⟩)
  · rcases Reaches.concat_iff.mp hreached with hold | ⟨rfl, -, -, hlast⟩
    · exact hold
    · -- this access would be the first
      obtain ⟨before, e', after, hreaches⟩ := hpast hlast
      exact absurd hreaches (hnone before e' after)

/-- The first access that makes the count `n` is reported. -/
theorem eventful (h : RedundancyExact n was file symbol) {details : Option Json}
    (hcounted : tally.accessCount file symbol = UInt32.ofNat
      (was.events.countP (isUnder (subjectKey file symbol)) + 1))
    (hnth : UInt32.ofNat (was.events.countP (isUnder (subjectKey file symbol)) + 1) = n)
    (hnone : ∀ before e after, ¬Reaches n file symbol was.events before e after) :
    RedundancyExact n (was.after tally [⟨.accessed, some file, symbol, details⟩] []
      [.redundantAccess file symbol n] now) file symbol := by
  have hsubject : ofSubject .accessed (some file) symbol (⟨.accessed, some file, symbol, details⟩, now)
      = true := by
    simp [ofSubject]
  have hreport : ∀ e ∈ [((PatternReport.redundantAccess file symbol n).event, now)],
      isUnder (subjectKey file symbol) e = false ∧ ofSubject .accessed (some file) symbol e = false := by
    simp [isUnder, ofSubject, PatternReport.redundantAccess]
  have hlog : (was.after tally [⟨.accessed, some file, symbol, details⟩] []
        [.redundantAccess file symbol n] now).events
      = was.events ++ [(⟨.accessed, some file, symbol, details⟩, now)]
        ++ [((PatternReport.redundantAccess file symbol n).event, now)] := by
    simp [Standing.after]
  -- the access is the only one of its kind
  have hreaches : ∀ before e after,
      Reaches n file symbol (was.after tally [⟨.accessed, some file, symbol, details⟩] []
        [.redundantAccess file symbol n] now).events before e after
      ↔ before = was.events ∧ e = (⟨.accessed, some file, symbol, details⟩, now)
        ∧ after = [((PatternReport.redundantAccess file symbol n).event, now)] := by
    intro before e after
    rw [hlog, Reaches.append_iff fun e he => (hreport e he).2]
    constructor
    · rintro ⟨rest, rfl, hrest⟩
      rcases Reaches.concat_iff.mp hrest with ⟨others, -, hold⟩ | ⟨rfl, rfl, rfl, -⟩
      · exact absurd hold (hnone _ _ _)
      · exact ⟨rfl, rfl, rfl⟩
    · rintro ⟨rfl, rfl, rfl⟩
      exact ⟨[], rfl, rfl, hsubject, hnth⟩
  refine ⟨?_, ?_, ?_⟩
  · show tally.accessCount file symbol = _
    rw [hcounted, hlog, List.countP_append, List.countP_append, List.countP_singleton,
      if_pos (isUnder_of_ofSubject hsubject), List.countP_singleton,
      if_neg (by simp [(hreport _ (List.mem_singleton.mpr rfl)).1])]
  · intro before e after hreached _
    obtain ⟨rfl, rfl, rfl⟩ := (hreaches before e after).mp hreached
    exact ⟨⟨[], rfl⟩, (h.quiet hnone).again (by simp [ofSubject]) (by simp)
      (by simp [ofSubject, PatternReport.redundantAccess])⟩
  · intro hnot
    exact absurd ((hreaches _ _ _).mpr ⟨rfl, rfl, rfl⟩) (hnot _ _ _)

/-- **An access.** It is counted under its key, and what is to be reported of it is told by the accesses
to its subject. -/
theorem accessed {t : Thresholds} (h : ∀ file symbol, RedundancyExact t.redundantAccess was file symbol)
    (path : String) (subject : Option String) (details : Option Json) :
    RedundancyExact t.redundantAccess (was.after (was.tally.recordAccess path subject)
      [⟨.accessed, some path, subject, details⟩] []
      (redundantReports t was.events path subject
        ((was.tally.recordAccess path subject).accessCount path subject)) now) file symbol := by
  have hcount : ∀ file symbol, (was.tally.recordAccess path subject).accessCount file symbol
      = UInt32.ofNat (was.events.countP (isUnder (subjectKey file symbol))
        + if subjectKey file symbol = subjectKey path subject then 1 else 0) := by
    intro file symbol
    rw [Tally.accessCount_recordAccess, (h file symbol).counted, UInt32.ofNat_add]
    split <;> rfl
  have hunder : ∀ file symbol, isUnder (subjectKey file symbol)
        (⟨.accessed, some path, subject, details⟩, now)
      = decide (subjectKey file symbol = subjectKey path subject) := by
    intro file symbol
    rw [Bool.eq_iff_iff]
    simp only [isUnder, beq_self_eq_true, Bool.true_and, Option.any_some, beq_iff_eq, decide_eq_true_eq]
    exact eq_comm
  have hlogged : ∀ file symbol, (was.tally.recordAccess path subject).accessCount file symbol
      = UInt32.ofNat ((was.events ++ [((⟨.accessed, some path, subject, details⟩ : NewEvent), now)]).countP
        (isUnder (subjectKey file symbol))) := by
    intro file symbol
    rw [hcount, List.countP_append, List.countP_singleton, hunder]
    simp only [decide_eq_true_eq]
  have hsubject := hcount path subject
  rw [if_pos rfl] at hsubject
  by_cases hnow : UInt32.ofNat (was.events.countP (isUnder (subjectKey path subject)) + 1)
        = t.redundantAccess
      ∧ ∀ before e after, ¬Reaches t.redundantAccess path subject was.events before e after
  · have hreports : redundantReports t was.events path subject
          ((was.tally.recordAccess path subject).accessCount path subject)
        = [.redundantAccess path subject t.redundantAccess] := by
      have hunreported := ((h path subject).quiet hnow.2).any_events
      rw [hsubject, hnow.1, redundantReports, if_pos ⟨rfl, hunreported⟩]
    rw [hreports]
    by_cases hsame : path = file ∧ subject = symbol
    · obtain ⟨rfl, rfl⟩ := hsame
      exact (h path subject).eventful hsubject hnow.1 hnow.2
    · -- the report is of its own subject only
      have hother := PatternReport.redundantAccess_other hsame t.redundantAccess.toNat now
      have hnot : ofSubject .accessed (some file) symbol
          (⟨.accessed, some path, subject, details⟩, now) = false := by
        simpa [ofSubject] using hsame
      refine (h file symbol).kept ?_ (fun e he => ?_) (by simp) fun r hr => ?_
      · rw [hlogged]
        simp [Standing.after, isUnder, PatternReport.redundantAccess, List.countP_cons]
      · rw [List.mem_singleton] at he
        subst he
        exact ⟨hnot, by simp [ofSubject]⟩
      · rw [List.mem_singleton] at hr
        subst hr
        exact ⟨by simp [ofSubject, PatternReport.redundantAccess], hother⟩
  · have hreports : redundantReports t was.events path subject
        ((was.tally.recordAccess path subject).accessCount path subject) = [] := by
      rw [hsubject, redundantReports, if_neg]
      rintro ⟨hnth, hunreported⟩
      refine hnow ⟨hnth, fun before e after hreaches => ?_⟩
      rw [(h path subject).any_events_iff.mpr ⟨before, e, after, hreaches⟩] at hunreported
      exact Bool.noConfusion hunreported
    rw [hreports]
    refine (h file symbol).uneventful (hlogged file symbol) (by simp) fun hreaches => ?_
    -- an access to this subject that makes the count `n` again
    obtain ⟨rfl, rfl⟩ : path = file ∧ subject = symbol := by
      simpa [ofSubject] using hreaches.subject
    by_contra hnone
    exact hnow ⟨hreaches.nth, fun before e after hold => hnone ⟨before, e, after, hold⟩⟩

/-- **One moment.** -/
theorem lives {root : String} {t : Thresholds} {m : Observer.Moment} {is : Standing}
    (h : ∀ file symbol, RedundancyExact t.redundantAccess was file symbol)
    (hlives : Lives root t was m is) (file : String) (symbol : Option String) :
    RedundancyExact t.redundantAccess is file symbol := by
  have hsubject := h file symbol
  cases hlives with
  | uncounted counted spot =>
    exact hsubject.unaccessed rfl (fun e he => by simp [spot e he]) (by simp) (by simp)
  | access counted => exact accessed h _ _ _
  | failedSearch counted =>
    refine hsubject.unaccessed rfl (by simp) (by simp) fun r hr => ?_
    rw [mem_failedSearchReports hr]
    simp [PatternReport.failedSearch, PatternReport.redundantAccess]
  | failure details counted =>
    exact hsubject.unaccessed rfl (by simp) (failingNotes_ne rfl) (by simp)
  | @change path c now =>
    refine hsubject.unaccessed rfl ?_ (changeNotes_ne rfl) ?_
    · cases c.kind <;> simp [ChangeKind.eventType]
    · intro r hr
      rw [(mem_changeReports hr).2]
      exact ⟨by simp [PatternReport.deadEnd], by simp [PatternReport.deadEnd],
        (PatternReport.redundantAccess_ne_deadEnd _ _ _ _ _).symm⟩
  | closes =>
    refine hsubject.unaccessed rfl (by simp) (by simp) fun r hr => ?_
    obtain ⟨count, rfl⟩ := mem_thrashReports hr
    exact ⟨by simp [PatternReport.thrash], by simp [PatternReport.thrash],
      (PatternReport.redundantAccess_ne_thrash _ _ _ _ _ _).symm⟩
  | unbegun => exact hsubject.unaccessed rfl (by simp) (by simp) (by simp)

end RedundancyExact

/-! ## §3. Subjects that are counted alone. -/

/-- Of the accesses in the log, those under the key of a subject are accesses to the subject. -/
def Unshared (events : List (NewEvent × Time)) (file : String) (symbol : Option String) : Prop :=
  ∀ e ∈ events, isUnder (subjectKey file symbol) e = true →
    ofSubject .accessed (some file) symbol e = true

/-- The accesses to a subject are counted, up to the turn of the counter, and the n-th one is reported. -/
structure CountedAlone (n : UInt32) (is : Standing) (file : String) (symbol : Option String) : Prop where
  counted : is.tally.accessCount file symbol
    = UInt32.ofNat (is.events.countP (ofSubject .accessed (some file) symbol))
  reported : n.toNat ≤ is.events.countP (ofSubject .accessed (some file) symbol) →
    ∃ before e after, is.events
        = before ++ e :: ((PatternReport.redundantAccess file symbol n).event, e.2) :: after
      ∧ ofSubject .accessed (some file) symbol e = true
      ∧ before.countP (ofSubject .accessed (some file) symbol) + 1 = n.toNat
      ∧ is.Made (ofSubject .redundantAccess (some file) symbol) (.redundantAccess file symbol n) [e.2]
  quiet : is.events.countP (ofSubject .accessed (some file) symbol) < n.toNat →
    is.Made (ofSubject .redundantAccess (some file) symbol) (.redundantAccess file symbol n) []

/-- Where there are as many items of a kind, there is an n-th one. -/
theorem exists_nth {α : Type} {p : α → Bool} {l : List α} {n : Nat} (hn : 1 ≤ n) (h : n ≤ l.countP p) :
    ∃ before x after, l = before ++ x :: after ∧ p x = true ∧ before.countP p + 1 = n := by
  induction l using List.reverseRecOn with
  | nil =>
    rw [List.countP_nil] at h
    omega
  | append_singleton l last ih =>
    by_cases hbefore : n ≤ l.countP p
    · obtain ⟨before, x, after, hsplit, hx, hnth⟩ := ih hbefore
      exact ⟨before, x, after ++ [last], by rw [hsplit, List.append_assoc, List.cons_append], hx, hnth⟩
    · -- the last item makes it as many
      rw [List.countP_append, List.countP_singleton] at h
      by_cases hlast : p last = true
      · rw [if_pos hlast] at h
        exact ⟨l, last, [], rfl, hlast, by omega⟩
      · rw [if_neg hlast] at h
        omega

/-- A subject that shares its key with no other is counted alone. -/
theorem RedundancyExact.alone {n : UInt32} {is : Standing} {file : String} {symbol : Option String}
    (h : RedundancyExact n is file symbol) (hn : 1 ≤ n.toNat) (hunshared : Unshared is.events file symbol) :
    CountedAlone n is file symbol := by
  have hsame : ∀ {events : List (NewEvent × Time)}, (∀ e ∈ events, e ∈ is.events) →
      events.countP (isUnder (subjectKey file symbol))
        = events.countP (ofSubject .accessed (some file) symbol) := by
    intro events hevents
    exact List.countP_congr fun e he => ⟨hunshared e (hevents e he), isUnder_of_ofSubject⟩
  have hcounted := hsame fun e he => he
  have hbound := n.toNat_lt
  -- before the n-th access the count is less than `n`, and has not come round yet
  have hearly : ∀ {events before after : List (NewEvent × Time)} {e : NewEvent × Time},
      events.countP (isUnder (subjectKey file symbol)) < n.toNat →
      ¬Reaches n file symbol events before e after := by
    intro events before after e hfew hreaches
    have hnth := (UInt32.ofNat_eq_iff_mod_eq_toNat _ _).mp hreaches.nth
    have hless := hreaches.lt_countP
    omega
  refine ⟨h.counted.trans (by rw [hcounted]), fun hmany => ?_, fun hfew => ?_⟩
  · obtain ⟨before, e, after, hsplit, hsubject, hnth⟩ := exists_nth hn hmany
    have hmem : ∀ e' ∈ before, e' ∈ is.events := fun e' he' => by simp [hsplit, he']
    have hreaches : Reaches n file symbol is.events before e after := by
      refine ⟨hsplit, hsubject, ?_⟩
      rw [hsame hmem, hnth, UInt32.ofNat_toNat]
    obtain ⟨⟨rest, rfl⟩, hmade⟩ := h.reported before e after hreaches
      fun earlier e' later => hearly (by rw [hsame hmem]; omega)
    exact ⟨before, e, rest, hsplit, hsubject, hnth, hmade⟩
  · exact h.quiet fun before e after => hearly (by rw [hcounted]; exact hfew)

/-- The name of a file that has no colon. -/
def IsPlain (file : String) : Prop := ':' ∉ file.toList

/-- What is before the first mark and what is after it. -/
theorem append_cons_inj_of_not_mem {α : Type} {mark : α} {before before' after after' : List α}
    (h : mark ∉ before) (h' : mark ∉ before')
    (heq : before ++ mark :: after = before' ++ mark :: after') :
    before = before' ∧ after = after' := by
  rcases List.append_eq_append_iff.mp heq with ⟨rest, rfl, hrest⟩ | ⟨rest, rfl, hrest⟩
  all_goals
    cases rest with
    | nil =>
      rw [List.nil_append, List.cons.injEq] at hrest
      simp [hrest]
    | cons first rest =>
      rw [List.cons_append, List.cons.injEq] at hrest
      simp [← hrest.1] at h h'

/-- Keys of files without a colon tell the subjects apart. -/
theorem subjectKey_injective {file path : String} {symbol subject : Option String} (hfile : IsPlain file)
    (hpath : IsPlain path) (h : subjectKey file symbol = subjectKey path subject) :
    file = path ∧ symbol = subject := by
  unfold IsPlain at hfile hpath
  have hlists := congrArg String.toList h
  cases symbol with
  | none =>
    cases subject with
    | none => exact ⟨h, rfl⟩
    | some subject =>
      refine absurd ?_ hfile
      show ':' ∈ (subjectKey file none).toList
      rw [hlists]
      simp [subjectKey]
  | some symbol =>
    cases subject with
    | none =>
      refine absurd ?_ hpath
      show ':' ∈ (subjectKey path none).toList
      rw [← hlists]
      simp [subjectKey]
    | some subject =>
      -- the first colon is where the file ends
      have hcolons : file.toList ++ ':' :: ':' :: symbol.toList
          = path.toList ++ ':' :: ':' :: subject.toList := by
        simpa [subjectKey] using hlists
      obtain ⟨hsame, hrest⟩ := append_cons_inj_of_not_mem hfile hpath hcolons
      rw [List.cons.injEq] at hrest
      exact ⟨String.toList_injective hsame, congrArg some (String.toList_injective hrest.2)⟩

/-- Where no accessed file has a colon in its name, every such subject is counted alone. -/
theorem unshared_of_plain {events : List (NewEvent × Time)} {file : String} (symbol : Option String)
    (hfile : IsPlain file)
    (h : ∀ e ∈ events, e.1.type = .accessed → ∀ path, e.1.file = some path → IsPlain path) :
    Unshared events file symbol := by
  intro e he hunder
  simp only [isUnder, Bool.and_eq_true, beq_iff_eq, Option.any_eq_true] at hunder
  obtain ⟨htype, path, hpath, hkey⟩ := hunder
  obtain ⟨rfl, hsymbol⟩ := subjectKey_injective (h e he htype path hpath) hfile hkey
  simp [ofSubject, htype, hpath, hsymbol]

/-! ## §4. Runs. -/

/-- **Redundant accesses are told by the log.** Observers of different sessions share a store, and see
calls and changes of files in any order. An observer that has counted nothing yet, and whose session the
store did not know, counts the accesses to a subject by its key, in 32 bits, and reports the first access
to the subject with which that count is `n`, once and at once. A subject that shares its key with no other
that was accessed has its own accesses counted, and the n-th of them reported. -/
theorem redundant_accesses_by_key {ι : Type} [DecidableEq ι] (w : Crowd ι) (hready : w.Ready)
    (hstore : w.store.Intact) (hsessions : Function.Injective fun j => (w.observers j).session)
    (i : ι) (hunknown : w.store.hasSession (w.observers i).session = false)
    (htally : (w.observers i).tally = .empty) (hn : 1 ≤ (w.observers i).thresholds.redundantAccess)
    (encounters : List (Encounter ι)) (file : String) (symbol : Option String) :
    RedundancyExact (w.observers i).thresholds.redundantAccess ((w.run encounters).standing i) file symbol
      ∧ (Unshared ((w.run encounters).standing i).events file symbol →
        CountedAlone (w.observers i).thresholds.redundantAccess ((w.run encounters).standing i) file
          symbol) := by
  have hexact := Crowd.run_standing
    (P := fun _ is => ∀ file symbol,
      RedundancyExact (w.observers i).thresholds.redundantAccess is file symbol)
    hready hstore hsessions i hunknown (fun _ _ _ _ hlives h => RedundancyExact.lives h hlives)
    (fun file symbol => ⟨by rw [htally]; rfl, fun before e after hreaches _ => ?_, fun _ => ⟨rfl, rfl⟩⟩)
    encounters file symbol
  · exact ⟨hexact, hexact.alone (UInt32.le_iff_toNat_le.mp hn)⟩
  · -- nothing has been accessed
    exact absurd hreaches.split (by simp)

/-- Two observers on an empty store that take two accesses for redundant. -/
def rereaders : Crowd Bool := .leftAndRight { Thresholds.default with redundantAccess := 2 }

/-- A file is read. -/
def reading (side : Bool) (path : String) (now : Time) : Encounter Bool :=
  ⟨side, ⟨[], []⟩, .call ⟨"read_file", .obj [("path", .str path)], .str "x", false⟩ now⟩

/-- A symbol is looked up, in a file with the name that is the rest of the key. -/
def lookingUp (side : Bool) (file symbol : String) (now : Time) : Encounter Bool :=
  ⟨side, ⟨[], []⟩,
    .call ⟨"get_symbol", .obj [("file", .str file), ("symbol", .str symbol)], .str "y", false⟩ now⟩

/-- The left one looks up two symbols of a file, one of them twice, and the right one that one once. -/
def rereadersRun : List (Encounter Bool) :=
  [lookingUp false "a.py" "f" 0, lookingUp true "a.py" "f" 1, lookingUp false "a.py" "g" 2,
    lookingUp false "a.py" "f" 3, lookingUp false "a.py" "f" 4]

theorem redundant_accesses_by_key_of_rereaders :
    (rereaders.Ready ∧ Function.Injective (fun side => (rereaders.observers side).session)
      ∧ rereaders.store.hasSession (rereaders.observers false).session = false
      ∧ (rereaders.observers false).tally.accesses = []
      ∧ 1 ≤ (rereaders.observers false).thresholds.redundantAccess)
    ∧ (∀ symbol, CountedAlone 2 ((rereaders.run rereadersRun).standing false) "a.py" symbol)
    ∧ ((rereaders.run rereadersRun).standing false).events.map (fun e => (e.1.type, e.1.symbol, e.2))
      = [(.accessed, some "f", 0), (.accessed, some "g", 2), (.accessed, some "f", 3),
        (.redundantAccess, some "f", 3), (.accessed, some "f", 4)] := by
  have hready : rereaders.Ready := Crowd.leftAndRight_ready _
  have hsessions := Crowd.leftAndRight_sessions { Thresholds.default with redundantAccess := 2 }
  refine ⟨⟨hready, hsessions, by decide, rfl, by decide⟩, fun symbol => ?_, by decide +kernel⟩
  refine (redundant_accesses_by_key rereaders hready Store.intact_empty hsessions false (by decide) rfl
    (by decide) rereadersRun "a.py" symbol).2 (unshared_of_plain symbol ?_ ?_)
  · unfold IsPlain
    decide
  · unfold IsPlain
    have hfiles : ∀ e ∈ ((rereaders.run rereadersRun).standing false).events, e.1.file = some "a.py" := by
      decide +kernel
    intro e he _ path hpath
    rw [hfiles e he, Option.some.injEq] at hpath
    subst hpath
    decide

/-- **Subjects with the same key are counted together.** A file is read and a symbol of another file is
looked up, each for the first time, and the second access is counted and reported as one too many. -/
theorem subjects_counted_together :
    let is := (rereaders.run [reading false "a::b" 0, lookingUp false "a" "b" 1]).standing false
    is.events.countP (ofSubject .accessed (some "a") (some "b")) = 1
      ∧ is.tally.accessCount "a" (some "b") = 2
      ∧ is.events.any (ofSubject .redundantAccess (some "a") (some "b")) = true
      ∧ ¬CountedAlone 2 is "a" (some "b") := by
  intro is
  have haccesses : is.events.countP (ofSubject .accessed (some "a") (some "b")) = 1 := by decide +kernel
  have hcount : is.tally.accessCount "a" (some "b") = 2 := by decide +kernel
  refine ⟨haccesses, hcount, by decide +kernel, fun halone => ?_⟩
  have hsame := halone.counted
  rw [haccesses, hcount] at hsame
  exact absurd hsame (by decide)

end CodeIndex
