import CodeIndex.Text.Utf8

/-!
# Globs

A glob is a pattern for whole paths, matched on their bytes. A `*` and a `?` stand for any bytes,
slashes included, so a pattern without a slash selects at every depth. Two stars between slashes
stand for any number of directories, none included:

  `**/a`      `a` at the root or below any directory
  `a/**`      everything below `a`
  `a/**/b`    `b` below `a`, at any depth

Elsewhere two stars are no more than one. A class lists characters, and braces list alternatives,
which may nest; an alternative with nothing in it is no alternative.
-/

namespace CodeIndex

open Text (Bytes)

/-- A piece of a glob. -/
inductive GlobPiece where
  /-- A character that stands for itself. -/
  | literal (c : Char)
  /-- Any one byte. -/
  | any
  /-- Any bytes. -/
  | run
  /-- Any directories at the front, with or without a leading slash. -/
  | leading
  /-- A slash and anything after it. -/
  | trailing
  /-- A slash, or two with anything between. -/
  | between
  /-- One byte that is in one of the ranges, or that is in none of them. -/
  | oneOf (negated : Bool) (ranges : List (UInt8 × UInt8))
  /-- One of the alternatives; nothing at all where there are none. -/
  | group (alternatives : List (List GlobPiece))

/-- A glob: its pieces, in order. -/
structure Glob where
  pieces : List GlobPiece

namespace Glob

/-! ## §1. Matching. -/

/-- The slash that divides a path. -/
def slash : UInt8 := 47

/-- Whether a byte is in a class. -/
def inClass (negated : Bool) (ranges : List (UInt8 × UInt8)) (b : UInt8) : Bool :=
  negated != ranges.any fun (low, high) => low ≤ b && b ≤ high

/-- For a text, whether what remains of it after 0, 1, 2, … bytes is accepted. -/
abbrev Accepted := List Bool

/-- Accept what remains once all bytes are gone. -/
def atEnd : Bytes → Accepted
  | [] => [true]
  | _ :: rest => false :: atEnd rest

/-- Accept a byte of a class with what is accepted after it. -/
def afterByte (holds : UInt8 → Bool) : Bytes → Accepted → Accepted
  | b :: s, _ :: accepted => (holds b && accepted.headD false) :: afterByte holds s accepted
  | _, _ => [false]

/-- Accept any bytes with what is accepted after them. -/
def afterRun : Accepted → Accepted
  | [] => []
  | now :: accepted =>
    let later := afterRun accepted
    (now || later.headD false) :: later

/-- Accept what one or the other accepts. -/
def orElse (a b : Accepted) : Accepted := List.zipWith or a b

/-- Accept any bytes up to a slash with what is accepted after it. -/
def afterSlash (s : Bytes) (accepted : Accepted) : Accepted :=
  afterRun (afterByte (· == slash) s accepted)

mutual

/-- What is accepted with a piece in front of what is accepted after it. -/
def beforePiece (s : Bytes) (accepted : Accepted) : GlobPiece → Accepted
  | .literal c => (Text.encode [c]).foldr (fun b later => afterByte (· == b) s later) accepted
  | .any => afterByte (fun _ => true) s accepted
  | .run => afterRun accepted
  | .leading => orElse accepted (afterSlash s accepted)
  | .trailing => afterByte (· == slash) s (afterRun accepted)
  | .between => afterByte (· == slash) s (orElse accepted (afterSlash s accepted))
  | .oneOf negated ranges => afterByte (inClass negated ranges) s accepted
  | .group [] => accepted
  | .group alternatives => beforeGroup s accepted alternatives

/-- What is accepted with the pieces, one after another, in front. -/
def beforePieces (s : Bytes) (accepted : Accepted) : List GlobPiece → Accepted
  | [] => accepted
  | piece :: rest => beforePiece s (beforePieces s accepted rest) piece

/-- What is accepted with one of the alternatives in front. -/
def beforeGroup (s : Bytes) (accepted : Accepted) : List (List GlobPiece) → Accepted
  | [] => accepted.map fun _ => false
  | pieces :: rest => orElse (beforePieces s accepted pieces) (beforeGroup s accepted rest)

end

/-- Whether the pieces match all of a path. Any directories at the front and nothing after them match
every path. -/
def coversAll (g : Glob) (path : Bytes) : Bool :=
  match g.pieces with
  | [.leading] => true
  | pieces => (beforePieces path (atEnd path) pieces).headD false

/-! ## §2. Names.

The name of a path is what follows its last slash, but `..` is not a name. A glob is decided in one of
six ways, and one that looks at the name or at its extension matches no path that ends in `..`. -/

/-- What decides whether a glob matches a path. -/
inductive Way where
  /-- The name. -/
  | name
  /-- The path, which must be the one that is written. -/
  | path
  /-- The extension of the name. -/
  | extension
  /-- How the path begins, or how it ends. -/
  | edge
  /-- The extension of the name first, and then the path. -/
  | extensionFirst
  /-- The path. -/
  | pattern
  deriving DecidableEq, Repr

/-- A piece that stands for itself. -/
def isLiteral : GlobPiece → Bool
  | .literal _ => true
  | _ => false

/-- A piece that is the given character. -/
def isChar (c : Char) : GlobPiece → Bool
  | .literal d => c == d
  | _ => false

/-- Whether pieces are written out without a slash. -/
def isName (pieces : List GlobPiece) : Bool :=
  !pieces.isEmpty && pieces.all fun p => isLiteral p && !isChar '/' p

/-- The pieces after any directories at the front. -/
def afterLeading : List GlobPiece → List GlobPiece
  | .leading :: rest => rest
  | pieces => pieces

/-- Whether pieces are a star and an extension: a dot with neither dots nor slashes after it. -/
def isExtension : List GlobPiece → Bool
  | .run :: .literal '.' :: rest =>
    rest.all fun p => isLiteral p && !isChar '.' p && !isChar '/' p
  | _ => false

/-- Whether pieces are written out but for a star or everything below at their end. -/
def isStart (pieces : List GlobPiece) : Bool :=
  match pieces.getLast? with
  | some .run => pieces.dropLast.all isLiteral && 1 < pieces.length
  | some .trailing => pieces.dropLast.all isLiteral
  | _ => false

/-- Whether pieces are written out but for a star or any directories at their front. A slash alone
is not enough after a star. -/
def isEnd : List GlobPiece → Bool
  | .leading :: .run :: rest => isWritten rest
  | .leading :: rest => !rest.isEmpty && rest.all isLiteral
  | .run :: rest => isWritten rest
  | _ => false
where
  isWritten (pieces : List GlobPiece) : Bool :=
    pieces.all isLiteral && (1 < pieces.length || pieces.any fun p => !isChar '/' p)

/-- Whether pieces, given from the last one to the first, end in an extension. -/
def endsInExtension : List GlobPiece → Bool
  | .literal '/' :: _ => false
  | .literal '.' :: _ => true
  | .literal _ :: rest => endsInExtension rest
  | _ => false

/-- The way in which a glob with the given pieces is decided: the first that serves. -/
def wayOf (pieces : List GlobPiece) : Way :=
  let rest := afterLeading pieces
  if rest.length < pieces.length && isName rest then .name
  else if !pieces.isEmpty && pieces.all isLiteral then .path
  else if isExtension rest then .extension
  else if isStart pieces || isEnd pieces then .edge
  else if endsInExtension pieces.reverse then .extensionFirst
  else .pattern

/-- Whether the name of a path is looked at. -/
def Way.usesName : Way → Bool
  | .name | .extension | .extensionFirst => true
  | .path | .edge | .pattern => false

/-- Whether the last segment of a path is `..`. -/
def endsInParent (path : Bytes) : Bool :=
  (path.reverse.takeWhile (· != slash)) == Text.encode ['.', '.']

/-- Whether a glob matches all of a path. -/
def matchesBytes (g : Glob) (path : Bytes) : Bool :=
  g.coversAll path && !((wayOf g.pieces).usesName && endsInParent path)

/-- Whether a glob matches all of a path. -/
def selects (g : Glob) (path : String) : Bool := g.matchesBytes (Text.encode path.toList)

/-! ## §3. Classes. -/

/-- The ranges of bytes that a range of characters contributes to a class: the bytes of both ends one
by one, but for the last byte of the lower and the first of the upper end, which bound a range. -/
def byteRanges (low high : Char) : List (UInt8 × UInt8) :=
  let single (b : UInt8) : UInt8 × UInt8 := (b, b)
  if low = high then (Text.encode [low]).map single
  else
    match (Text.encode [low]).reverse, Text.encode [high] with
    | a :: before, b :: after => before.reverse.map single ++ (a, b) :: after.map single
    | _, _ => []

/-- A class being read: the finished ranges, newest first, and whether a dash waits for the upper end
of the newest. -/
structure ClassRead where
  ranges : List (Char × Char)
  pending : Bool

/-- Read one character of a class that does not close it. The upper end of a range is not below its
lower end. -/
def ClassRead.push? (r : ClassRead) (c : Char) : Option ClassRead :=
  match r.ranges with
  | [] => some ⟨[(c, c)], false⟩
  | (low, high) :: older =>
    if r.pending then (if low ≤ c then some ⟨(low, c) :: older, false⟩ else none)
    else if c == '-' then some ⟨r.ranges, true⟩
    else some ⟨(c, c) :: (low, high) :: older, false⟩

/-- The class that has been read. A dash at its end stands for itself. -/
def ClassRead.close (r : ClassRead) (negated : Bool) : GlobPiece :=
  let ranges := if r.pending then ('-', '-') :: r.ranges else r.ranges
  .oneOf negated (ranges.reverse.flatMap fun (low, high) => byteRanges low high)

/-- Read a class up to the bracket that closes it; the result is the class with the rest. A closing
bracket that comes first stands for itself. -/
def readClass (negated : Bool) (r : ClassRead) : List Char → Option (GlobPiece × List Char)
  | [] => none
  | c :: rest =>
    if c == ']' && !r.ranges.isEmpty then some (r.close negated, rest)
    else (r.push? c).bind fun r => readClass negated r rest

/-- Read a class after the bracket that opens it. -/
def readClassOpen : List Char → Option (GlobPiece × List Char)
  | '!' :: rest => readClass true ⟨[], false⟩ rest
  | '^' :: rest => readClass true ⟨[], false⟩ rest
  | rest => readClass false ⟨[], false⟩ rest

/-! ## §4. Patterns. -/

/-- A list of alternatives being read, newest first: the pieces of the newest, and the older ones. -/
structure Alternatives where
  current : List GlobPiece
  older : List (List GlobPiece)

/-- A pattern being read: the innermost list of alternatives, and those around it. Outside of all
braces there is one alternative. -/
structure PatternRead where
  inner : Alternatives
  outer : List Alternatives

namespace PatternRead

/-- Nothing read yet. -/
def start : PatternRead := ⟨⟨[], []⟩, []⟩

/-- Whether braces are open. -/
def inBraces (r : PatternRead) : Bool := !r.outer.isEmpty

/-- Put a piece at the end. -/
def push (r : PatternRead) (piece : GlobPiece) : PatternRead :=
  { r with inner := { r.inner with current := piece :: r.inner.current } }

/-- Two stars that are no more than one. -/
def pushRuns (r : PatternRead) : PatternRead := (r.push .run).push .run

/-- Put a piece in place of the last one, unless that stands for directories already. -/
def replaceLast (r : PatternRead) (piece : GlobPiece) : PatternRead :=
  match r.inner.current with
  | .leading :: _ => r
  | .trailing :: _ => r
  | _ :: older => { r with inner := { r.inner with current := piece :: older } }
  | [] => r.push piece

/-- Open braces. -/
def openBrace (r : PatternRead) : PatternRead := ⟨⟨[], []⟩, r.inner :: r.outer⟩

/-- Begin another alternative. -/
def nextAlternative (r : PatternRead) : PatternRead :=
  { r with inner := ⟨[], r.inner.current :: r.inner.older⟩ }

/-- A group without alternatives. -/
def isVoid : GlobPiece → Bool
  | .group [] => true
  | _ => false

/-- Close braces. Alternatives with nothing in them are dropped. -/
def closeBrace? (r : PatternRead) : Option PatternRead :=
  match r.outer with
  | [] => none
  | around :: outer =>
    let alternatives := (r.inner.current :: r.inner.older).reverse.map List.reverse
    some (PatternRead.push ⟨around, outer⟩ (.group (alternatives.filter fun a => !a.all isVoid)))

/-- Read two stars. `before` is the character in front of them and `rest` what follows; the result
has what follows once a slash that belongs to the stars is gone. -/
def doubleStar (r : PatternRead) (before : Option Char) (rest : List Char) :
    PatternRead × Option Char × List Char :=
  let star := some '*'
  if r.inner.current.isEmpty then
    match rest with
    | [] => (r.push .leading, star, [])
    | '/' :: rest => (r.push .leading, some '/', rest)
    | _ => (r.pushRuns, star, rest)
  else if before == some '/' || (r.inBraces && (before == some ',' || before == some '{')) then
    match rest with
    | [] => (r.replaceLast .trailing, star, [])
    | '/' :: rest => (r.replaceLast .between, some '/', rest)
    | c :: _ =>
      if r.inBraces && (c == ',' || c == '}') then (r.replaceLast .trailing, star, rest)
      else (r.pushRuns, star, rest)
  else (r.pushRuns, star, rest)

/-- Read a pattern to its end; `before` is the character in front of it. Every round takes a
character at least, so `fuel` need not exceed their number. -/
def read? : (fuel : Nat) → PatternRead → (before : Option Char) → List Char → Option PatternRead
  | _, r, _, [] => some r
  | 0, _, _, _ => none
  | fuel + 1, r, before, c :: rest =>
    match c, rest with
    | '?', rest => read? fuel (r.push .any) (some c) rest
    | '*', '*' :: rest =>
      let (r, before, rest) := r.doubleStar before rest
      read? fuel r before rest
    | '*', rest => read? fuel (r.push .run) (some c) rest
    | '[', rest => (readClassOpen rest).bind fun (piece, rest) =>
      read? fuel (r.push piece) (some ']') rest
    | '{', rest => read? fuel r.openBrace (some c) rest
    | '}', rest => r.closeBrace?.bind fun r => read? fuel r (some c) rest
    | ',', rest =>
      read? fuel (if r.inBraces then r.nextAlternative else r.push (.literal c)) (some c) rest
    | '\\', [] => none
    | '\\', e :: rest => read? fuel (r.push (.literal e)) (some e) rest
    | c, rest => read? fuel (r.push (.literal c)) (some c) rest

end PatternRead

/-- The glob that a pattern writes; `none` for a class or braces left open, braces closed and not
opened, a range that runs backwards, or a backslash at the end. -/
def read? (pattern : String) : Option Glob :=
  let text := pattern.toList
  (PatternRead.start.read? text.length none text).bind fun r =>
    if r.inBraces then none else some ⟨r.inner.current.reverse⟩

end Glob

end CodeIndex
