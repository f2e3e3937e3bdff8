import CodeIndex.Json.Writer
import CodeIndex.Selection.Glob

/-!
# Sets of globs

The patterns of a configuration are read as a set. A glob that cannot be decided by its name, its
extension, its beginning or its end is matched as a regular expression, and that must not be nested
too deep: every group, choice, sequence, repetition and class is a level, and there are at most
`maxNesting` of them. The message about one that is too deep counts it among the expressions of the
set, or quotes the expression where it is tried only after the extension has been looked at.
-/

namespace CodeIndex.Glob

open Text (Bytes)

/-! ## §1. Expressions. -/

/-- The characters that have a meaning of their own in an expression. -/
def specialChars : List Char :=
  ['\\', '.', '+', '*', '?', '(', ')', '|', '[', ']', '{', '}', '^', '$', '#', '&', '-', '~']

/-- A byte in an expression: a character, with a backslash where it needs one, or two hexadecimal
digits. -/
def byteText (b : UInt8) : List Char :=
  let n := b.toNat
  if n < 128 then
    let c := Char.ofNat n
    if specialChars.contains c then ['\\', c] else [c]
  else ['\\', 'x', Json.hexDigit (n / 16), Json.hexDigit (n % 16)]

/-- A range of a class in an expression. -/
def rangeText : UInt8 × UInt8 → List Char
  | (low, high) => if low = high then byteText low else byteText low ++ '-' :: byteText high

mutual

/-- The expression of a piece. -/
def pieceText : GlobPiece → List Char
  | .literal c => (Text.encode [c]).flatMap byteText
  | .any => ['.']
  | .run => ".*".toList
  | .leading => "(?:/?|.*/)".toList
  | .trailing => "/.*".toList
  | .between => "(?:/|/.*/)".toList
  | .oneOf negated ranges =>
    '[' :: (if negated then ['^'] else []) ++ ranges.flatMap rangeText ++ [']']
  | .group [] => []
  | .group (first :: others) => "(?:".toList ++ piecesText first ++ choicesText others ++ [')']

/-- The expression of pieces in a row. -/
def piecesText : List GlobPiece → List Char
  | [] => []
  | piece :: rest => pieceText piece ++ piecesText rest

/-- The expression of further alternatives. -/
def choicesText : List (List GlobPiece) → List Char
  | [] => []
  | pieces :: rest => '|' :: piecesText pieces ++ choicesText rest

end

/-- The expression of a glob, which is about bytes and about the whole path. -/
def expression (g : Glob) : List Char :=
  let inside := match g.pieces with
    | [.leading] => ".*".toList
    | pieces => piecesText pieces
  "(?-u)^".toList ++ inside ++ ['$']

/-! ## §2. Nesting. -/

/-- How many levels an expression may have. -/
def maxNesting : Nat := 250

/-- How many parts of a sequence a piece is. -/
def parts : GlobPiece → Nat
  | .literal c => Text.byteLength [c]
  | .trailing => 2
  | .group [] => 0
  | _ => 1

/-- The level that pieces in a row are: a sequence is one, unless it has one part only. -/
def sequenceLevel (pieces : List GlobPiece) : Nat :=
  if pieces.foldl (fun n p => n + parts p) 0 = 1 then 0 else 1

mutual

/-- The levels of the expression of a piece. -/
def nesting : GlobPiece → Nat
  | .literal _ | .any => 0
  | .run | .trailing => 1
  | .leading | .between => 4
  | .oneOf _ ranges => if 1 < ranges.length then 2 else 1
  | .group [] => 0
  | .group [pieces] => 1 + sequenceLevel pieces + deepest pieces
  | .group alternatives => 2 + deepestChoice alternatives

/-- The levels of the deepest of some pieces. -/
def deepest : List GlobPiece → Nat
  | [] => 0
  | piece :: rest => max (nesting piece) (deepest rest)

/-- The levels of the deepest of some alternatives. -/
def deepestChoice : List (List GlobPiece) → Nat
  | [] => 0
  | pieces :: rest => max (sequenceLevel pieces + deepest pieces) (deepestChoice rest)

end

/-- Whether the expression of a glob is nested too deep. It is a sequence in any case. -/
def isTooDeep (g : Glob) : Bool := maxNesting < 1 + deepest g.pieces

/-! ## §3. Sets. -/

/-- Why some patterns are no set of globs. -/
inductive Fault where
  /-- A pattern writes no glob. -/
  | invalid (pattern : String)
  /-- An expression that is tried after the extension is nested too deep. -/
  | deepExpression (expression : String)
  /-- An expression that is tried with the others of the set is nested too deep; `index` of them
  stand before it. -/
  | deepAt (index : Nat)
  deriving DecidableEq, Repr

/-- The message about an expression that cannot be read. -/
def unreadable (index : Nat) : String := "error parsing pattern " ++ toString index

/-- The message about patterns that are no set of globs. -/
def Fault.message : Fault → String
  | .invalid pattern => "invalid glob pattern " ++ pattern
  | .deepExpression expression =>
    "error parsing glob '" ++ expression ++ "': " ++ unreadable 0
  | .deepAt index => unreadable index

/-- Refuse globs whose expressions are nested too deep. -/
def checkNesting (globs : List Glob) : Except Fault Unit :=
  let decided (way : Way) := globs.filter fun g => wayOf g.pieces = way
  match (decided .extensionFirst).find? isTooDeep, (decided .pattern).findIdx? isTooDeep with
  | some g, _ => .error (.deepExpression (String.ofList g.expression))
  | none, some index => .error (.deepAt index)
  | none, none => .ok ()

/-- The globs that some patterns write. -/
def readAll (patterns : List String) : Except Fault (List Glob) := do
  let globs ← patterns.mapM fun pattern =>
    match read? pattern with
    | some g => .ok g
    | none => .error (.invalid pattern)
  checkNesting globs
  return globs

end CodeIndex.Glob
