import CodeIndex.Text.Utf8

/-!
# Paths as text

A path is the text that somebody wrote; the same file has many. Its components are what remains
when repeated slashes and inner `.` segments are read past. A project file is known by one key, its
path relative to the project root, and `relative` computes that key from a spelling.

  components   root, `.` at the very front, `..` and names, in order
  strip?       the rest of a path below another, as written from its first component on
  relative     the key of a file: below the root, forward slashes, no leading `./`
-/

namespace CodeIndex.Path

/-! ## §1. Components. -/

/-- What a path is made of. -/
inductive Component where
  /-- The leading slash. -/
  | root
  /-- A `.` that the path starts with. -/
  | here
  /-- A `..` segment. -/
  | up
  /-- Any other segment. -/
  | name (text : List Char)
  deriving DecidableEq, Repr

/-- A segment stands between two slashes. -/
abbrev Segments := List (List Char)

/-- The segments of a path. -/
def segments (p : List Char) : Segments := p.splitOn '/'

/-- A path that starts at the root of the file system. -/
def isAbsolute (p : List Char) : Bool := p.head? == some '/'

/-- The component that a segment inside a path stands for, if any. -/
def Component.ofSegment? (s : List Char) : Option Component :=
  if s = [] then none
  else if s = ['.'] then none
  else if s = ['.', '.'] then some .up
  else some (.name s)

/-- A segment that stands for nothing. -/
def isVoid (s : List Char) : Bool := (Component.ofSegment? s).isNone

/-- The components among some segments, each with the segments after it. -/
def located : Segments → List (Component × Segments)
  | [] => []
  | s :: rest =>
    match Component.ofSegment? s with
    | some c => (c, rest) :: located rest
    | none => located rest

/-- The components of a path, each with the segments after it. -/
def components (p : List Char) : List (Component × Segments) :=
  match segments p with
  | [] => []
  | first :: rest =>
    if isAbsolute p then (.root, rest) :: located rest
    else if first = ['.'] then (.here, rest) :: located rest
    else located (first :: rest)

/-! ## §2. Head and body. -/

/-- Segments without the void ones at the end. -/
def dropVoidEnd (ss : Segments) : Segments := (ss.reverse.dropWhile isVoid).reverse

/-- Segments with slashes between them. -/
def joinSegments (ss : Segments) : List Char := ['/'].intercalate ss

/-- What a path starts with before its first segment proper: a slash, a `.`, or nothing. -/
inductive Head where
  /-- A leading slash. -/
  | root
  /-- A leading `.` segment. -/
  | here
  /-- Neither. -/
  | none
  deriving DecidableEq

/-- A path as its head and the segments after it. -/
def headBody (p : List Char) : Head × Segments :=
  match segments p with
  | [] => (.none, [])
  | first :: rest =>
    if isAbsolute p then (.root, rest)
    else if first = ['.'] then (.here, rest)
    else (.none, first :: rest)

/-- The path with the given head and segments. -/
def Head.rejoin : Head → Segments → List Char
  | .root, ss => '/' :: joinSegments ss
  | .here, [] => ['.']
  | .here, ss => '.' :: '/' :: joinSegments ss
  | .none, ss => joinSegments ss

/-- The path without what follows its last component. -/
def dropVoidTail (p : List Char) : List Char :=
  let (head, body) := headBody p
  head.rejoin (dropVoidEnd body)

/-- The path that holds the last component; `none` for the root and for the empty path. -/
def parent? (p : List Char) : Option (List Char) :=
  let (head, body) := headBody p
  match dropVoidEnd body with
  | [] => if head = .here then some [] else none
  | body => some (head.rejoin (dropVoidEnd body.dropLast))

/-! ## §3. Names. -/

/-- The last component, when it is a name. -/
def fileName? (p : List Char) : Option (List Char) :=
  match (components p).getLast? with
  | some (.name s, _) => some s
  | _ => none

/-- A file name cut at its last dot, unless the dot is its first character. -/
def splitName (name : List Char) : List Char × Option (List Char) :=
  match name.reverse.span (· != '.') with
  | (_, []) => (name, none)
  | (_, [_]) => (name, none)
  | (tail, _ :: stem) => (stem.reverse, some tail.reverse)

/-- The part of the file name after its last dot. -/
def extension? (p : List Char) : Option (List Char) :=
  (fileName? p).bind fun name => (splitName name).2

/-- The path with an extension put in place of the one its file name has; a path without a file name
stays as it is. -/
def setExtension (p extension : List Char) : List Char :=
  match fileName? p with
  | none => p
  | some name =>
    let (head, body) := headBody p
    head.rejoin ((dropVoidEnd body).dropLast ++ [(splitName name).1 ++ '.' :: extension])

/-- A text read from its end without the first `n` bytes; a character that does not fit in them
stays. -/
def dropBytes : (n : Nat) → List Char → List Char
  | _, [] => []
  | n, c :: rest => if c.utf8Size ≤ n then dropBytes (n - c.utf8Size) rest else c :: rest

/-- The path with another extension. An old extension is first cut off by its length, at the end of
the path. Of `..x` that leaves `..`, which is no file name, so nothing is put after it. -/
def withExtension (p extension : List Char) : List Char :=
  match extension? p with
  | none => setExtension p extension
  | some old =>
    setExtension (dropBytes (Text.byteLength old) p.reverse).reverse extension

/-! ## §4. Joining and stripping. -/

/-- `p` seen from `base`: an absolute path stays as it is. -/
def join (base p : List Char) : List Char :=
  if isAbsolute p then p
  else if base.isEmpty then p
  else if base.getLast? == some '/' then base ++ p
  else base ++ '/' :: p

/-- The rest of `p` after the components of `base`, when `p` starts with them. It is kept as written
from its first component to its last. -/
def strip? (base p : List Char) : Option (List Char) :=
  let front := (components base).map (·.1)
  let all := components p
  if front.isPrefixOf (all.map (·.1)) then
    match (all.take front.length).getLast? with
    | none => some (dropVoidTail p)
    | some (_, rest) => some (joinSegments (dropVoidEnd (rest.dropWhile isVoid)))
  else none

/-- Backslashes count as slashes in a key. -/
def slashed (p : List Char) : List Char := p.map fun c => if c == '\\' then '/' else c

/-- The path without one leading `./`. -/
def dropHere : List Char → List Char
  | '.' :: '/' :: rest => rest
  | p => p

/-- The key of a file in the project at `root`: below the root, forward slashes, no leading `./`. A
path outside the root is its own key. -/
def relative (root p : String) : String :=
  String.ofList (dropHere (slashed ((strip? root.toList p.toList).getD p.toList)))

/-- `p` seen from `base`, on strings. -/
def under (base p : String) : String := String.ofList (join base.toList p.toList)

end CodeIndex.Path
