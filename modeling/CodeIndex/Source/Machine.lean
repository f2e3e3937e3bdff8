import CodeIndex.Source.Pattern

/-!
# Meeting patterns

A pattern is turned into a program, a table of small steps, and the text is read once, character by
character. All ways to meet the pattern are followed side by side, each as a thread that stands
before a step and remembers the parts it has named. The threads are kept in the order of preference:

  a thread that comes to a step where a preferred one stands already is dropped
  a thread that comes to the end of the program drops all that are less preferred

A thread that outlives a finished one is preferred to it, so what finishes last counts. There are
never more threads than steps, and the time taken grows with the length of the text alone.
-/

namespace CodeIndex

/-! ## §1. Places and parts. -/

/-- A place in a text: how many characters are before it, the last of them, and all after it. -/
structure Place where
  offset : Nat
  before : Option Char
  after : List Char
  deriving Repr

/-- The place before a text. -/
def Place.start (s : List Char) : Place := ⟨0, none, s⟩

/-- The place after the next character. -/
def Place.next? (p : Place) : Option (Char × Place) :=
  match p.after with
  | [] => none
  | c :: rest => some (c, ⟨p.offset + 1, some c, rest⟩)

/-- A part that was met: which, where it starts, and how many characters are before its end. -/
structure Span where
  part : Part
  start : Place
  stop : Nat
  deriving Repr

/-- The text of a part. -/
def Span.text (s : Span) : List Char := s.start.after.take (s.stop - s.start.offset)

/-- A text that meets a pattern: where it starts, the place after it, and the parts named on the
way, the last one first. -/
structure Met where
  offset : Nat
  stop : Place
  spans : List Span

/-- The part with a name. -/
def Met.part? (m : Met) (part : Part) : Option Span := m.spans.find? (·.part == part)

/-- The text kept under a name; empty when the part was not met. -/
def Met.text (m : Met) (part : Part) : List Char := ((m.part? part).map Span.text).getD []

/-! ## §2. Programs. -/

/-- A step of a program; the numbers are those of the steps that follow. -/
inductive Step where
  /-- The pattern is met. -/
  | finish
  /-- Take one character of a class. -/
  | take (accepts : Char → Bool) (next : Nat)
  /-- Go on under a condition on the characters before and after the place. -/
  | check (holds : Option Char → Option Char → Bool) (next : Nat)
  /-- Go on in two ways, the first preferred. -/
  | fork (first second : Nat)
  /-- A part begins. -/
  | enter (part : Part) (next : Nat)
  /-- A part ends. -/
  | leave (part : Part) (next : Nat)

/-- The steps of a pattern, and the one to begin with. -/
structure Program where
  steps : Array Step
  entry : Nat

/-- Put a step at the end; it becomes the one to begin with. -/
def Program.push (p : Program) (step : Step) : Program := ⟨p.steps.push step, p.steps.size⟩

/-- The program that meets a pattern and then goes on with the given one. The step that closes a loop
is put down first and filled in once the steps of the body are known. -/
def Pattern.before : Pattern → Program → Program
  | .nothing, p => p
  | .one accepts, p => p.push (.take accepts p.entry)
  | .between holds, p => p.push (.check holds p.entry)
  | .seq first second, p => first.before (second.before p)
  | .either first second, p =>
    let other := second.before p
    let preferred := first.before ⟨other.steps, p.entry⟩
    preferred.push (.fork preferred.entry other.entry)
  | .many body, p =>
    let loop := p.push .finish
    let round := body.before loop
    ⟨round.steps.setIfInBounds loop.entry (.fork round.entry p.entry), loop.entry⟩
  | .few body, p =>
    let loop := p.push .finish
    let round := body.before loop
    ⟨round.steps.setIfInBounds loop.entry (.fork p.entry round.entry), loop.entry⟩
  | .named part body, p =>
    let inside := body.before (p.push (.leave part p.entry))
    inside.push (.enter part inside.entry)

/-- The program of a pattern. -/
def Pattern.program (pattern : Pattern) : Program := pattern.before ⟨#[.finish], 0⟩

/-! ## §3. Threads. -/

/-- One way to meet the pattern: the step it stands before, where it began, the parts that have
begun, and those that have ended, newest first. -/
structure Thread where
  step : Nat
  began : Nat
  entered : List (Part × Place)
  spans : List Span

/-- A thread that begins at a place. -/
def Program.thread (program : Program) (p : Place) : Thread := ⟨program.entry, p.offset, [], []⟩

/-- The threads at a place: those that stand before a character to take, in the order of preference;
what the last one that came to the end has met; and for each step the last place, counted from one,
where a thread stood before it. -/
structure Front where
  ready : List Thread
  met : Option Met
  seen : Array Nat

/-- Let the threads of `stack`, the preferred first, do the steps that take no character. `ready`
holds those that are through with that, the last one first. No step is done twice at a place and a
step leaves two threads at most, so `fuel` need not exceed three times the number of steps. -/
def Program.settle (program : Program) (p : Place) :
    (fuel : Nat) → (stack ready : List Thread) → (seen : Array Nat) → Front
  | fuel + 1, t :: stack, ready, seen =>
    if seen.getD t.step 0 == p.offset + 1 then program.settle p fuel stack ready seen
    else
      let seen := seen.setIfInBounds t.step (p.offset + 1)
      match program.steps.getD t.step .finish with
      | .finish => ⟨ready.reverse, some ⟨t.began, p, t.spans⟩, seen⟩
      | .take _ _ => program.settle p fuel stack (t :: ready) seen
      | .check holds next =>
        if holds p.before p.after.head? then
          program.settle p fuel ({ t with step := next } :: stack) ready seen
        else program.settle p fuel stack ready seen
      | .fork first second =>
        program.settle p fuel ({ t with step := first } :: { t with step := second } :: stack) ready
          seen
      | .enter part next =>
        program.settle p fuel
          ({ t with step := next, entered := (part, p) :: t.entered } :: stack) ready seen
      | .leave part next =>
        let start := (t.entered.lookup part).getD p
        program.settle p fuel
          ({ t with step := next, spans := ⟨part, start, p.offset⟩ :: t.spans } :: stack) ready seen
  | _, _, ready, seen => ⟨ready.reverse, none, seen⟩

/-- The thread after it has taken a character, if it can. -/
def Program.advance? (program : Program) (c : Char) (t : Thread) : Option Thread :=
  match program.steps.getD t.step .finish with
  | .take accepts next => if accepts c then some { t with step := next } else none
  | _ => none

/-! ## §4. Reading a text. -/

/-- Read on from a place with the threads that have come to it. With `anywhere` a thread begins at
every place until one has come to the end. `best` is what was met so far. -/
def Program.read (program : Program) (anywhere : Bool) (offset : Nat) (before : Option Char)
    (after : List Char) (threads : List Thread) (best : Option Met) (seen : Array Nat) : Option Met :=
  let p : Place := ⟨offset, before, after⟩
  let fresh := if anywhere && best.isNone then [program.thread p] else []
  let front := program.settle p (3 * program.steps.size + 3) (threads ++ fresh) [] seen
  let best := front.met.or best
  if front.ready.isEmpty && (best.isSome || !anywhere) then best
  else
    match after with
    | [] => best
    | c :: rest =>
      program.read anywhere (offset + 1) (some c) rest (front.ready.filterMap (program.advance? c))
        best front.seen

/-- Meet the pattern at a place. -/
def Program.meets? (program : Program) (p : Place) : Option Met :=
  program.read false p.offset p.before p.after [program.thread p] none
    (Array.replicate program.steps.size 0)

/-- Meet the pattern at a place or at the first place after it where that is possible. -/
def Program.search? (program : Program) (p : Place) : Option Met :=
  program.read true p.offset p.before p.after [] none (Array.replicate program.steps.size 0)

/-- All places from `p` on where the pattern is met, none overlapping one before. -/
def Program.all (program : Program) : (fuel : Nat) → Place → List Met
  | 0, _ => []
  | fuel + 1, p =>
    match program.search? p with
    | none => []
    | some m =>
      if m.offset < m.stop.offset then m :: program.all fuel m.stop
      else
        match m.stop.next? with
        | some (_, q) => m :: program.all fuel q
        | none => [m]

/-- All places in a text where the pattern is met. -/
def Pattern.matches (pattern : Pattern) (s : List Char) : List Met :=
  pattern.program.all (s.length + 1) (Place.start s)

end CodeIndex
