/-!
# Closed vocabularies

Kinds, classes and modes are closed sets with one word for each member. The word is what is stored,
shown and read back, so a type in this library that has such words is an instance of `Vocabulary`.
-/

namespace CodeIndex

/-- A closed set of members with one word each. -/
class Vocabulary (α : Type) where
  /-- What a member is, as it is called in messages. -/
  what : String
  /-- Every member. -/
  all : List α
  /-- The word for a member. -/
  name : α → String

/-- A word that is not in a vocabulary. -/
structure UnknownWord where
  /-- What the word should have named. -/
  what : String
  /-- The word. -/
  value : String
  deriving DecidableEq, Repr

/-- The message about an unknown word. -/
def UnknownWord.message (e : UnknownWord) : String := "unknown " ++ e.what ++ ": " ++ e.value

/-- The member that a word names. -/
def Vocabulary.ofName? {α : Type} [Vocabulary α] (word : String) : Option α :=
  (Vocabulary.all (α := α)).find? fun a => Vocabulary.name a == word

/-- The member that a word names, or the complaint. -/
def Vocabulary.parse {α : Type} [Vocabulary α] (word : String) : Except UnknownWord α :=
  match Vocabulary.ofName? word with
  | some a => .ok a
  | none => .error ⟨Vocabulary.what α, word⟩

end CodeIndex
