import Mathlib
import CodeIndex.Source.Declaration

/-!
# What a program meets is what its pattern says

How a pattern is to be read is said without any program: which places in a text it leads to from a place
(`Pattern.Meets`). A program follows many ways at once, but each of its threads has come by steps of the
program from the place where it began (`StepsTo`), and a run through the steps of a pattern to the end of
the program is a way to meet the pattern and a run from there (`Pattern.meets_of_stepsTo`). So a text that
a program meets, its pattern meets, and the parts that were named on the way are parts of the text.

Main results:
  * `meets?_sound` — what a program meets, its pattern meets;
  * `meets?_text_infix` — the text of a part stands in the text that was read;
  * `Meets.exists_ink` — a pattern that asks for ink meets no blank text.
-/

namespace CodeIndex

/-! ## §1. What a pattern says. -/

/-- From one place a pattern leads to another. -/
inductive Pattern.Meets : Pattern → Place → Place → Prop where
  | nothing {p : Place} : Meets .nothing p p
  | one {accepts : Char → Bool} {c : Char} {p q : Place} (next : p.next? = some (c, q))
    (accepted : accepts c = true) : Meets (.one accepts) p q
  | between {holds : Option Char → Option Char → Bool} {p : Place}
    (held : holds p.before p.after.head? = true) : Meets (.between holds) p p
  | seq {first second : Pattern} {p q r : Place} (one : Meets first p q) (two : Meets second q r) :
    Meets (.seq first second) p r
  | left {first second : Pattern} {p q : Place} (one : Meets first p q) : Meets (.either first second) p q
  | right {first second : Pattern} {p q : Place} (two : Meets second p q) : Meets (.either first second) p q
  | manyDone {body : Pattern} {p : Place} : Meets (.many body) p p
  | manyMore {body : Pattern} {p q r : Place} (round : Meets body p q) (more : Meets (.many body) q r) :
    Meets (.many body) p r
  | fewDone {body : Pattern} {p : Place} : Meets (.few body) p p
  | fewMore {body : Pattern} {p q r : Place} (round : Meets body p q) (more : Meets (.few body) q r) :
    Meets (.few body) p r
  | named {part : Part} {body : Pattern} {p q : Place} (inside : Meets body p q) :
    Meets (.named part body) p q

theorem Place.next?_eq_some {p q : Place} {c : Char} (h : p.next? = some (c, q)) : p.after = c :: q.after := by
  unfold Place.next? at h
  split at h
  · exact absurd h (by simp)
  next hafter =>
    obtain ⟨rfl, rfl⟩ := Prod.mk.inj (Option.some.inj h)
    exact hafter

/-- What comes after the place that a pattern leads to is the end of what came before. -/
theorem Pattern.Meets.suffix {pattern : Pattern} {p q : Place} (h : pattern.Meets p q) :
    q.after <:+ p.after := by
  induction h with
  | nothing | between | manyDone | fewDone => exact List.suffix_rfl
  | one next => exact Place.next?_eq_some next ▸ List.suffix_cons _ _
  | seq _ _ ih₁ ih₂ | manyMore _ _ ih₁ ih₂ | fewMore _ _ ih₁ ih₂ => exact ih₂.trans ih₁
  | left _ ih | right _ ih | named _ ih => exact ih

/-- A pattern that cannot be met without a character that is not blank. -/
def Pattern.AsksInk : Pattern → Prop
  | .one accepts => ∀ c, accepts c = true → Text.isBlank c = false
  | .seq first second => first.AsksInk ∨ second.AsksInk
  | .either first second => first.AsksInk ∧ second.AsksInk
  | .named _ body => body.AsksInk
  | .nothing | .between _ | .many _ | .few _ => False

/-- **A pattern that asks for ink** meets no blank text. -/
theorem Pattern.Meets.exists_ink {pattern : Pattern} {p q : Place} (h : pattern.Meets p q)
    (hink : pattern.AsksInk) : ∃ c ∈ p.after, Text.isBlank c = false := by
  induction h with
  | nothing | between | manyDone | manyMore | fewDone | fewMore => exact hink.elim
  | one next accepted =>
    exact ⟨_, Place.next?_eq_some next ▸ List.mem_cons_self, hink _ accepted⟩
  | seq first _ ih₁ ih₂ =>
    rcases hink with hink | hink
    · exact ih₁ hink
    · obtain ⟨c, hc, hblank⟩ := ih₂ hink
      exact ⟨c, first.suffix.mem hc, hblank⟩
  | left _ ih => exact ih hink.1
  | right _ ih => exact ih hink.2
  | named _ ih => exact ih hink

/-! ## §2. Runs through the steps of a program. -/

/-- The step at a number; past the end of the table it is the finish. -/
def stepAt (steps : Array Step) (i : Nat) : Step := steps.getD i .finish

/-- From a place before a step it goes on to another place before another step. -/
def Step.Leads (step : Step) (p : Place) (j : Nat) (q : Place) : Prop :=
  match step with
  | .finish => False
  | .take accepts next => j = next ∧ ∃ c, p.next? = some (c, q) ∧ accepts c = true
  | .check holds next => j = next ∧ q = p ∧ holds p.before p.after.head? = true
  | .fork first second => (j = first ∨ j = second) ∧ q = p
  | .enter _ next | .leave _ next => j = next ∧ q = p

/-- A run of `n` steps. -/
inductive StepsTo (steps : Array Step) : Nat → Nat → Place → Nat → Place → Prop where
  | here {i : Nat} {p : Place} : StepsTo steps 0 i p i p
  | step {n i j k : Nat} {p q r : Place} (leads : (stepAt steps i).Leads p j q)
    (rest : StepsTo steps n j q k r) : StepsTo steps (n + 1) i p k r

variable {steps : Array Step} {n i j k : Nat} {p q r : Place}

theorem StepsTo.snoc (h : StepsTo steps n i p j q) (hleads : (stepAt steps j).Leads q k r) :
    StepsTo steps (n + 1) i p k r := by
  induction h with
  | here => exact .step hleads .here
  | step first _ ih => exact .step first (ih hleads)

/-- A run that ends at a finish goes on from any other step. -/
theorem StepsTo.leads {step : Step} (h : StepsTo steps n i p j q) (hend : stepAt steps j = .finish)
    (hstep : stepAt steps i = step) (hgoes : step ≠ .finish) :
    ∃ m k r, n = m + 1 ∧ step.Leads p k r ∧ StepsTo steps m k r j q := by
  subst hstep
  cases h with
  | here => exact absurd hend hgoes
  | step leads rest => exact ⟨_, _, _, rfl, leads, rest⟩

theorem Step.Leads.suffix {step : Step} (h : step.Leads p j q) : q.after <:+ p.after := by
  cases step with
  | finish => exact h.elim
  | take =>
    obtain ⟨-, c, hnext, -⟩ := h
    exact Place.next?_eq_some hnext ▸ List.suffix_cons _ _
  | check => exact h.2.1 ▸ List.suffix_rfl
  | fork | enter | leave => exact h.2 ▸ List.suffix_rfl

theorem StepsTo.suffix (h : StepsTo steps n i p j q) : q.after <:+ p.after := by
  induction h with
  | here => exact List.suffix_rfl
  | step leads _ ih => exact ih.trans leads.suffix

/-! ## §3. The steps of a pattern. -/

/-- A table keeps the steps of another one, and may have more behind them. -/
structure Keeps (old new : Array Step) : Prop where
  size_le : old.size ≤ new.size
  same : ∀ i < old.size, stepAt new i = stepAt old i

variable {old mid new : Array Step}

theorem Keeps.refl (old : Array Step) : Keeps old old := ⟨le_rfl, fun _ _ => rfl⟩

theorem Keeps.trans (first : Keeps old mid) (second : Keeps mid new) : Keeps old new :=
  ⟨first.size_le.trans second.size_le,
    fun i hi => (second.same i (hi.trans_le first.size_le)).trans (first.same i hi)⟩

theorem stepAt_push_self (steps : Array Step) (step : Step) :
    stepAt (steps.push step) steps.size = step := by simp [stepAt]

theorem Keeps.push (steps : Array Step) (step : Step) : Keeps steps (steps.push step) where
  size_le := by simp
  same i hi := by simp [stepAt, hi, Nat.lt_succ_of_lt hi, Array.getElem_push_lt]

theorem stepAt_set_self {step : Step} (hi : i < steps.size) :
    stepAt (steps.setIfInBounds i step) i = step := by simp [stepAt, hi]

theorem stepAt_set_of_ne {step : Step} (hne : j ≠ i) :
    stepAt (steps.setIfInBounds j step) i = stepAt steps i := by
  simp [stepAt, Array.getElem?_setIfInBounds_ne hne]

/-- Filling in a step behind those that are kept does them no harm. -/
theorem Keeps.set (h : Keeps old new) (hi : old.size ≤ i) (step : Step) :
    Keeps old (new.setIfInBounds i step) where
  size_le := by simpa using h.size_le
  same j hj := (stepAt_set_of_ne (by omega)).trans (h.same j hj)

/-- Putting a pattern in front keeps the steps that were there. -/
theorem Pattern.before_keeps (pattern : Pattern) (program : Program) :
    Keeps program.steps (pattern.before program).steps := by
  induction pattern generalizing program with
  | nothing => exact .refl _
  | one | between => exact .push _ _
  | seq first second ih₁ ih₂ => exact (ih₂ program).trans (ih₁ (second.before program))
  | either first second ih₁ ih₂ =>
    exact ((ih₂ program).trans (ih₁ ⟨(second.before program).steps, program.entry⟩)).trans (.push _ _)
  | many body ih | few body ih =>
    exact ((Keeps.push program.steps .finish).trans (ih (program.push .finish))).set le_rfl _
  | named part body ih =>
    exact ((Keeps.push program.steps _).trans (ih (program.push (.leave part program.entry)))).trans (.push _ _)

/-- From a number on, a table holds the steps of another one, as far as that goes. -/
def Holds (steps : Array Step) (low : Nat) (table : Array Step) : Prop :=
  ∀ i, low ≤ i → i < table.size → stepAt steps i = stepAt table i

variable {low : Nat}

theorem Holds.mono {low' : Nat} (h : Holds steps low new) (hlow : low ≤ low') : Holds steps low' new := by
  intro i hi hsize
  exact h i (hlow.trans hi) hsize

theorem Holds.of_keeps (h : Holds steps low new) (hkeeps : Keeps old new) : Holds steps low old := by
  intro i hi hsize
  rw [h i hi (hsize.trans_le hkeeps.size_le), hkeeps.same i hsize]

/-- What a table holds of steps that were put behind others: the last one, and the others. -/
theorem Holds.push {step : Step} (h : Holds steps low (old.push step)) (hlow : low ≤ old.size) :
    stepAt steps old.size = step ∧ Holds steps low old := by
  constructor
  · rw [h old.size hlow (by simp), stepAt_push_self]
  · exact h.of_keeps (Keeps.push old step)

/-- What a table holds of a loop: the fork, and the steps of the body. -/
theorem Holds.loop {body : Pattern} {program : Program} {fork : Step}
    (h : Holds steps program.steps.size
      ((body.before (program.push .finish)).steps.setIfInBounds program.steps.size fork)) :
    stepAt steps program.steps.size = fork
      ∧ Holds steps (program.push .finish).steps.size (body.before (program.push .finish)).steps := by
  have hpushed : (program.push .finish).steps.size = program.steps.size + 1 := by simp [Program.push]
  have hsizes := (body.before_keeps (program.push .finish)).size_le
  constructor
  · rw [h _ le_rfl (by rw [Array.size_setIfInBounds]; omega), stepAt_set_self (by omega)]
  · intro i hi hsize
    rw [h i (by omega) (by rwa [Array.size_setIfInBounds]), stepAt_set_of_ne (by omega)]

/-- **A loop**, of which each round meets a pattern: a run from its fork to the end is any number of rounds
and a run from its exit. -/
theorem rounds_of_stepsTo {body : Pattern} {loop inside exit : Nat}
    (hfork : stepAt steps loop = .fork inside exit ∨ stepAt steps loop = .fork exit inside)
    (hend : stepAt steps j = .finish)
    (hround : ∀ n p, StepsTo steps n inside p j q →
      ∃ m k, k ≤ n ∧ body.Meets p m ∧ StepsTo steps k loop m j q)
    (h : StepsTo steps n loop p j q) :
    ∃ m k, k ≤ n ∧ Relation.ReflTransGen body.Meets p m ∧ StepsTo steps k exit m j q := by
  induction n using Nat.strong_induction_on generalizing p with
  | _ n ih =>
    have hways : ∃ n', n = n' + 1 ∧ (StepsTo steps n' inside p j q ∨ StepsTo steps n' exit p j q) := by
      rcases hfork with hfork | hfork
      all_goals
        obtain ⟨n', k, r, hn, ⟨hk, rfl⟩, hrest⟩ := h.leads hend hfork (by simp)
        rcases hk with rfl | rfl
      · exact ⟨n', hn, .inl hrest⟩
      · exact ⟨n', hn, .inr hrest⟩
      · exact ⟨n', hn, .inr hrest⟩
      · exact ⟨n', hn, .inl hrest⟩
    obtain ⟨n', rfl, hinside | hexit⟩ := hways
    · -- a round takes a step at least, so the rest is shorter
      obtain ⟨m, k, hk, hmeets, hback⟩ := hround n' p hinside
      obtain ⟨m', k', hk', hmore, hexit⟩ := ih k (by omega) hback
      exact ⟨m', k', by omega, .head hmeets hmore, hexit⟩
    · exact ⟨p, n', by omega, .refl, hexit⟩

theorem Pattern.Meets.many_of_rounds {body : Pattern} (h : Relation.ReflTransGen body.Meets p q) :
    (Pattern.many body).Meets p q := by
  induction h using Relation.ReflTransGen.head_induction_on with
  | refl => exact .manyDone
  | head round _ ih => exact .manyMore round ih

theorem Pattern.Meets.few_of_rounds {body : Pattern} (h : Relation.ReflTransGen body.Meets p q) :
    (Pattern.few body).Meets p q := by
  induction h using Relation.ReflTransGen.head_induction_on with
  | refl => exact .fewDone
  | head round _ ih => exact .fewMore round ih

/-- **A run through the steps of a pattern** to the end of a program is a way to meet the pattern, and a run
from the program that it was put in front of. -/
theorem Pattern.meets_of_stepsTo (pattern : Pattern) (program : Program)
    (hholds : Holds steps program.steps.size (pattern.before program).steps)
    (hend : stepAt steps j = .finish) (h : StepsTo steps n (pattern.before program).entry p j q) :
    ∃ m k, k ≤ n ∧ pattern.Meets p m ∧ StepsTo steps k program.entry m j q := by
  -- on the pattern; the runs of a loop are taken apart by `rounds_of_stepsTo`
  induction pattern generalizing program n p with
  | nothing => exact ⟨p, n, le_rfl, .nothing, h⟩
  | one accepts =>
    obtain ⟨hstep, -⟩ := Holds.push hholds le_rfl
    obtain ⟨n, k, r, rfl, hleads, hrest⟩ := h.leads hend hstep (by simp)
    obtain ⟨rfl, c, hnext, haccepted⟩ := hleads
    exact ⟨r, n, by omega, .one hnext haccepted, hrest⟩
  | between holds =>
    obtain ⟨hstep, -⟩ := Holds.push hholds le_rfl
    obtain ⟨n, k, r, rfl, hleads, hrest⟩ := h.leads hend hstep (by simp)
    obtain ⟨rfl, rfl, hheld⟩ := hleads
    exact ⟨r, n, by omega, .between hheld, hrest⟩
  | seq first second ih₁ ih₂ =>
    -- the first pattern stands in front of the second one
    have hfirst : Holds steps (second.before program).steps.size (first.before (second.before program)).steps :=
      hholds.mono (second.before_keeps program).size_le
    have hsecond : Holds steps program.steps.size (second.before program).steps :=
      hholds.of_keeps (first.before_keeps _)
    obtain ⟨m, k, hk, hone, hrest⟩ := ih₁ _ hfirst h
    obtain ⟨m', k', hk', htwo, hrest'⟩ := ih₂ _ hsecond hrest
    exact ⟨m', k', hk'.trans hk, .seq hone htwo, hrest'⟩
  | either first second ih₁ ih₂ =>
    let other := second.before program
    let preferred := first.before ⟨other.steps, program.entry⟩
    have hother : Keeps program.steps other.steps := second.before_keeps program
    have hpreferred : Keeps other.steps preferred.steps := first.before_keeps ⟨other.steps, program.entry⟩
    have htable : Holds steps program.steps.size (preferred.steps.push (.fork preferred.entry other.entry)) :=
      hholds
    obtain ⟨hfork, hboth⟩ := htable.push (hother.trans hpreferred).size_le
    obtain ⟨n, k, r, rfl, hleads, hrest⟩ := h.leads hend hfork (by simp)
    obtain ⟨hk, rfl⟩ := hleads
    rcases hk with rfl | rfl
    · obtain ⟨m, k, hk, hmeets, hback⟩ := ih₁ ⟨other.steps, program.entry⟩ (hboth.mono hother.size_le) hrest
      exact ⟨m, k, by omega, .left hmeets, hback⟩
    · obtain ⟨m, k, hk, hmeets, hback⟩ := ih₂ program (hboth.of_keeps hpreferred) hrest
      exact ⟨m, k, by omega, .right hmeets, hback⟩
  | many body ih =>
    obtain ⟨hfork, hbody⟩ := Holds.loop hholds
    have hround := fun n p hrun => ih (n := n) (p := p) (program.push .finish) hbody hrun
    obtain ⟨m, k, hk, hrounds, hexit⟩ := rounds_of_stepsTo (.inl hfork) hend hround h
    exact ⟨m, k, hk, .many_of_rounds hrounds, hexit⟩
  | few body ih =>
    obtain ⟨hfork, hbody⟩ := Holds.loop hholds
    have hround := fun n p hrun => ih (n := n) (p := p) (program.push .finish) hbody hrun
    obtain ⟨m, k, hk, hrounds, hexit⟩ := rounds_of_stepsTo (.inr hfork) hend hround h
    exact ⟨m, k, hk, .few_of_rounds hrounds, hexit⟩
  | named part body ih =>
    let behind := program.push (.leave part program.entry)
    let inside := body.before behind
    have hbehind : Keeps program.steps behind.steps := Keeps.push _ _
    have hinside : Keeps behind.steps inside.steps := body.before_keeps behind
    have htable : Holds steps program.steps.size (inside.steps.push (.enter part inside.entry)) := hholds
    obtain ⟨henter, hboth⟩ := htable.push (hbehind.trans hinside).size_le
    obtain ⟨hleave, -⟩ := Holds.push (hboth.of_keeps hinside) le_rfl
    -- the run enters the part, goes through the body and leaves the part
    obtain ⟨n, k, r, rfl, hleads, hrest⟩ := h.leads hend henter (by simp)
    obtain ⟨rfl, rfl⟩ := hleads
    obtain ⟨m, k, hk, hmeets, hback⟩ := ih behind (hboth.mono hbehind.size_le) hrest
    obtain ⟨k, _, r, rfl, hleads, hrest⟩ := hback.leads hend hleave (by simp)
    obtain ⟨rfl, rfl⟩ := hleads
    exact ⟨r, k, by omega, .named hmeets, hrest⟩

/-! ## §4. Threads. -/

variable {program : Program} {start : Place}

/-- A thread has come by steps of the program, and the parts that it names begin in the text. -/
structure Thread.Follows (program : Program) (start : Place) (t : Thread) (p : Place) : Prop where
  run : ∃ n, StepsTo program.steps n program.entry start t.step p
  entered : ∀ e ∈ t.entered, e.2.after <:+ start.after
  spans : ∀ s ∈ t.spans, s.start.after <:+ start.after

/-- What was met was met by a run to the end, and its parts begin in the text. -/
structure Met.Follows (program : Program) (start : Place) (m : Met) : Prop where
  run : ∃ n j, StepsTo program.steps n program.entry start j m.stop ∧ stepAt program.steps j = .finish
  spans : ∀ s ∈ m.spans, s.start.after <:+ start.after

/-- The place where a thread stands is in the text. -/
theorem Thread.Follows.suffix {t : Thread} (h : t.Follows program start p) : p.after <:+ start.after := by
  obtain ⟨n, hrun⟩ := h.run
  exact hrun.suffix

/-- A step that takes no part takes the thread along. -/
theorem Thread.Follows.move {t : Thread} (h : t.Follows program start p)
    (hleads : (stepAt program.steps t.step).Leads p j q) :
    Thread.Follows program start { t with step := j } q := by
  obtain ⟨n, hrun⟩ := h.run
  exact ⟨⟨n + 1, hrun.snoc hleads⟩, h.entered, h.spans⟩

/-- The start of a part that ends is where it was entered. -/
theorem Thread.Follows.lookup {t : Thread} (h : t.Follows program start p) (part : Part) :
    ((t.entered.lookup part).getD p).after <:+ start.after := by
  cases hfound : t.entered.lookup part with
  | none => exact h.suffix
  | some place =>
    obtain ⟨before, after, hentered, -⟩ := List.lookup_eq_some_iff.mp hfound
    exact h.entered (part, place) (by simp [hentered])

/-- The threads of a front have come by steps of the program, and so has what the last one has met. -/
structure Front.Follows (program : Program) (start p : Place) (f : Front) : Prop where
  ready : ∀ t ∈ f.ready, t.Follows program start p
  met : ∀ m, f.met = some m → m.Follows program start

theorem Front.follows_unmet {ready : List Thread} (hready : ∀ t ∈ ready, t.Follows program start p)
    (seen : Array Nat) : Front.Follows program start p ⟨ready.reverse, none, seen⟩ :=
  ⟨fun t ht => hready t (List.mem_reverse.mp ht), fun _ hm => absurd hm (by simp)⟩

/-- **Settling a place** does steps of the program only. -/
theorem settle_follows (fuel : Nat) (stack ready : List Thread) (seen : Array Nat)
    (hstack : ∀ t ∈ stack, t.Follows program start p) (hready : ∀ t ∈ ready, t.Follows program start p) :
    (program.settle p fuel stack ready seen).Follows program start p := by
  induction fuel generalizing stack ready seen with
  | zero => exact Front.follows_unmet hready seen
  | succ fuel ih =>
    cases stack with
    | nil => exact Front.follows_unmet hready seen
    | cons t stack =>
      obtain ⟨ht, hrest⟩ := List.forall_mem_cons.mp hstack
      unfold Program.settle
      split
      · exact ih stack ready seen hrest hready
      simp only
      split
      next hstep =>
        -- the thread has come to the end
        refine ⟨(Front.follows_unmet hready seen).ready, fun m hm => ?_⟩
        obtain rfl := Option.some.inj hm
        obtain ⟨n, hrun⟩ := ht.run
        exact ⟨⟨n, t.step, hrun, hstep⟩, ht.spans⟩
      next => exact ih stack (t :: ready) _ hrest (by simpa using ⟨ht, hready⟩)
      next holds next hstep =>
        split
        next hheld =>
          have hmoved := ht.move (j := next) (q := p) (by rw [stepAt, hstep]; exact ⟨rfl, rfl, hheld⟩)
          exact ih _ ready _ (by simpa using ⟨hmoved, hrest⟩) hready
        next => exact ih stack ready _ hrest hready
      next first second hstep =>
        have hfirst := ht.move (j := first) (q := p) (by rw [stepAt, hstep]; exact ⟨.inl rfl, rfl⟩)
        have hsecond := ht.move (j := second) (q := p) (by rw [stepAt, hstep]; exact ⟨.inr rfl, rfl⟩)
        exact ih _ ready _ (by simpa using ⟨hfirst, hsecond, hrest⟩) hready
      next part next hstep =>
        have hmoved := ht.move (j := next) (q := p) (by rw [stepAt, hstep]; exact ⟨rfl, rfl⟩)
        have hentered : Thread.Follows program start
            { t with step := next, entered := (part, p) :: t.entered } p :=
          ⟨hmoved.run, List.forall_mem_cons.mpr ⟨ht.suffix, ht.entered⟩, ht.spans⟩
        exact ih _ ready _ (by simpa using ⟨hentered, hrest⟩) hready
      next part next hstep =>
        have hmoved := ht.move (j := next) (q := p) (by rw [stepAt, hstep]; exact ⟨rfl, rfl⟩)
        have hleft : Thread.Follows program start
            { t with
              step := next
              spans := ⟨part, (t.entered.lookup part).getD p, p.offset⟩ :: t.spans } p :=
          ⟨hmoved.run, ht.entered, List.forall_mem_cons.mpr ⟨ht.lookup part, ht.spans⟩⟩
        exact ih _ ready _ (by simpa using ⟨hleft, hrest⟩) hready

/-- Taking a character takes a thread to the next place. -/
theorem advance?_follows {t t' : Thread} {c : Char} (ht : t.Follows program start p)
    (hnext : p.next? = some (c, q)) (h : program.advance? c t = some t') : t'.Follows program start q := by
  unfold Program.advance? at h
  split at h
  next accepts next hstep =>
    split at h
    next haccepted =>
      obtain rfl := Option.some.inj h
      exact ht.move (by rw [stepAt, hstep]; exact ⟨rfl, c, hnext, haccepted⟩)
    next => exact absurd h (by simp)
  next => exact absurd h (by simp)

/-- What counts so far follows the program if what counted before does. -/
theorem Front.Follows.or {f : Front} (h : f.Follows program start p) {best : Option Met}
    (hbest : ∀ m, best = some m → m.Follows program start) :
    ∀ m, f.met.or best = some m → m.Follows program start := by
  intro m hm
  rcases Option.or_eq_some_iff.mp hm with hmet | ⟨-, hmet⟩
  · exact h.met m hmet
  · exact hbest m hmet

/-- **Reading on** does steps of the program only. -/
theorem read_follows (after : List Char) (offset : Nat) (before : Option Char) (threads : List Thread)
    (best : Option Met) (seen : Array Nat)
    (hthreads : ∀ t ∈ threads, t.Follows program start ⟨offset, before, after⟩)
    (hbest : ∀ m, best = some m → m.Follows program start) {m : Met}
    (h : program.read false offset before after threads best seen = some m) : m.Follows program start := by
  induction after generalizing offset before threads best seen with
  | nil =>
    have hfront := settle_follows (3 * program.steps.size + 3) threads [] seen hthreads (by simp)
    simp only [Program.read, Bool.false_and, Bool.false_eq_true, if_false, List.append_nil, ite_self] at h
    exact hfront.or hbest m h
  | cons c rest ih =>
    have hfront := settle_follows (3 * program.steps.size + 3) threads [] seen hthreads (by simp)
    simp only [Program.read, Bool.false_and, Bool.false_eq_true, if_false, List.append_nil] at h
    split at h
    · exact hfront.or hbest m h
    · refine ih _ _ _ _ _ (fun t' ht' => ?_) (hfront.or hbest) h
      obtain ⟨t, ht, hadvance⟩ := List.mem_filterMap.mp ht'
      exact advance?_follows (hfront.ready t ht) rfl hadvance

theorem meets?_follows {p : Place} {m : Met} (h : program.meets? p = some m) : m.Follows program p := by
  refine read_follows _ _ _ _ _ _ (fun t ht => ?_) (by simp) h
  obtain rfl := List.mem_singleton.mp ht
  exact ⟨⟨0, .here⟩, by simp [Program.thread], by simp [Program.thread]⟩

/-- **What a program meets, its pattern meets.** -/
theorem meets?_sound {pattern : Pattern} {p : Place} {m : Met} (h : pattern.program.meets? p = some m) :
    ∃ q, pattern.Meets p q := by
  obtain ⟨n, j, hrun, hend⟩ := (meets?_follows h).run
  obtain ⟨q, -, -, hmeets, -⟩ := pattern.meets_of_stepsTo ⟨#[.finish], 0⟩ (fun _ _ _ => rfl) hend hrun
  exact ⟨q, hmeets⟩

/-- **The text of a part** stands in the text that was read. -/
theorem meets?_text_infix {p : Place} {m : Met} (h : program.meets? p = some m) (part : Part) :
    m.text part <:+: p.after := by
  unfold Met.text Met.part?
  cases hfound : m.spans.find? (·.part == part) with
  | none => exact List.nil_infix
  | some s =>
    have hsuffix := (meets?_follows h).spans s (List.mem_of_find?_eq_some hfound)
    exact (List.take_prefix _ _).isInfix.trans hsuffix.isInfix

end CodeIndex
