import CodeIndex.Text.Blank
import CodeIndex.Text.Letters

/-!
# Patterns in source text

Declarations and imports are recognised by how they are written, and how they are written is said
by patterns: characters of a class, one pattern after another, a choice, repetition, and conditions
on the characters to either side. A pattern can name the parts of the text it meets.

Of all ways to meet a text the first counts, in this order: the left of a choice before the right,
more rounds of `many` before fewer, fewer rounds of `few` before more.
-/

namespace CodeIndex

/-! ## §1. Patterns. -/

/-- The names that patterns give to parts of a text. -/
inductive Part where
  /-- The declared name. -/
  | name
  /-- The word that makes a declaration visible outside its file. -/
  | marker
  /-- What an import takes from a module. -/
  | clause
  /-- The module that an import names. -/
  | source
  /-- A module outside the project. -/
  | system
  deriving DecidableEq, Repr

/-- How a piece of text is written. -/
inductive Pattern where
  /-- Nothing at all. -/
  | nothing
  /-- One character of a class. -/
  | one (accepts : Char → Bool)
  /-- A condition on the characters before and after the place. -/
  | between (holds : Option Char → Option Char → Bool)
  /-- One pattern, then another. -/
  | seq (first second : Pattern)
  /-- One pattern or another, the first preferred. -/
  | either (first second : Pattern)
  /-- Any number of rounds, more preferred. -/
  | many (body : Pattern)
  /-- Any number of rounds, fewer preferred. -/
  | few (body : Pattern)
  /-- A pattern whose text is kept under a name. -/
  | named (part : Part) (body : Pattern)

/-! ## §2. Building patterns. -/

namespace Pattern

instance : Append Pattern := ⟨seq⟩

instance : OrElse Pattern := ⟨fun p q => either p (q ())⟩

/-- The given characters, one after another. -/
def text (s : String) : Pattern := s.toList.foldr (fun c p => seq (one (· == c)) p) nothing

/-- The pattern or nothing, the pattern preferred. -/
def maybe (p : Pattern) : Pattern := either p nothing

/-- At least one round, more preferred. -/
def several (p : Pattern) : Pattern := p ++ many p

/-- At least one round, fewer preferred. -/
def severalFew (p : Pattern) : Pattern := p ++ few p

/-- One of several patterns, earlier ones preferred. -/
def oneOf : List Pattern → Pattern
  | [] => between fun _ _ => false
  | [p] => p
  | p :: rest => either p (oneOf rest)

/-- One character of a class given by the characters outside of it. -/
def except (cs : List Char) : Pattern := one fun c => !cs.contains c

/-- Any blanks. -/
def blanks : Pattern := many (one Text.isBlank)

/-- At least one blank. -/
def gap : Pattern := several (one Text.isBlank)

/-- A word and the gap after it. -/
def word (s : String) : Pattern := text s ++ gap

/-- Any of several words, each with the gap after it, any number of times. -/
def anyWords (ws : List String) : Pattern := many (oneOf (ws.map text) ++ gap)

/-- The place after a text. -/
def textEnd : Pattern := between fun _ after => after.isNone

/-- The place before a line. -/
def lineStart : Pattern := between fun before _ => before.isNone || before == some '\n'

/-- The place where a word starts or ends. -/
def wordEdge : Pattern := between fun before after =>
  (before.map Text.isWordChar).getD false != (after.map Text.isWordChar).getD false

/-- At least one word character. -/
def wordRun : Pattern := several (one Text.isWordChar)

end Pattern

end CodeIndex
