/-!
# Finding and cutting

Cutting a text at the first or the last place where a given piece stands, and splitting it at every
separator. `cut?` and `cutLast?` give the parts before and after, so the piece itself is dropped.
-/

namespace CodeIndex.Text

/-- The rest of `s` after `piece`, when `s` starts with it. -/
def after? (piece s : List Char) : Option (List Char) := piece.isPrefixOf? s

/-- The text without the piece at its end, when it ends in it. -/
def before? (piece s : List Char) : Option (List Char) :=
  (piece.reverse.isPrefixOf? s.reverse).map List.reverse

/-- The parts before and after the first place where `piece` stands. -/
def cut? (piece : List Char) : List Char → Option (List Char × List Char)
  | [] => (after? piece []).map ([], ·)
  | c :: s =>
    match after? piece (c :: s) with
    | some rest => some ([], rest)
    | none => (cut? piece s).map fun (before, rest) => (c :: before, rest)

/-- The parts before and after the last place where `piece` stands. -/
def cutLast? (piece s : List Char) : Option (List Char × List Char) :=
  (cut? piece.reverse s.reverse).map fun (rest, before) => (before.reverse, rest.reverse)

/-- Whether `piece` stands somewhere in `s`. -/
def has (piece s : List Char) : Bool := (cut? piece s).isSome

/-- How often `piece` stands in `s`, counting from the left and never one inside another.
`piece` has at least one character. -/
def occurrences (piece : List Char) (s : List Char) : Nat :=
  go s.length s
where
  go : Nat → List Char → Nat
    | 0, _ => 0
    | fuel + 1, s =>
      match cut? piece s with
      | some (_, rest) => go fuel rest + 1
      | none => 0

/-- Whether a string starts with the given characters. -/
def startsWith (piece : String) (s : List Char) : Bool := piece.toList.isPrefixOf s

/-- Every character `old` becomes `new`. -/
def replaceChar (old new : Char) (s : List Char) : List Char :=
  s.map fun c => if c == old then new else c

end CodeIndex.Text
