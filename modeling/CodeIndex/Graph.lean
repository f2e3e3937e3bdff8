import CodeIndex.Json.Value

/-!
# The import graph and its central files

A file is central when central files import it. The rank of a file is its share of a surfer's time
who follows an import with the given probability, evenly among those of the file, and who is spread
evenly over all files otherwise; a file without imports spreads evenly too.
-/

namespace CodeIndex

/-- Files and the imports between them, each once, in the order of their first appearance. -/
structure Graph where
  files : List String
  imports : List (String × String)

namespace Graph

/-- The graph of some imports, each given by the importing and the imported file. -/
def ofImports (pairs : List (String × String)) : Graph where
  files := (pairs.flatMap fun (importer, imported) => [importer, imported]).eraseDups
  imports := pairs.eraseDups

/-- The files that a file imports. -/
def importsOf (g : Graph) (file : String) : List String :=
  (g.imports.filter (·.1 == file)).map (·.2)

/-! ## §1. Rank. -/

/-- The probability of following an import. -/
def damping : Float := 0.85

/-- How many rounds are computed. -/
def rounds : Nat := 100

/-- What a file passes on in one round. -/
structure Share where
  /-- To every file that it imports. -/
  along : Float
  /-- To every other file. -/
  across : Float

/-- What a file of the given rank passes on, where there are `count` files and it imports `degree`
of them. -/
def Share.of (count : Float) (degree : Nat) (rank : Float) : Share where
  along := damping * rank / Float.ofNat degree
  across := if degree = 0 then damping * rank / count else (1.0 - damping) * rank / count

/-- What a file collects on top of `sum`: for every file, whether it imports this one, and what it
passes on. -/
def collect (sum : Float) : List Bool → List Share → Float
  | imported :: row, s :: shares =>
    collect (sum + if imported then s.along else s.across) row shares
  | _, _ => sum

/-- One round: every file collects what all files pass on to it, and the ranks are scaled to sum to
one. There is a row for every file, which tells the files that import it. -/
def round (count : Float) (degrees : List Nat) (rows : List (List Bool)) (ranks : List Float) :
    List Float :=
  let shares := List.zipWith (Share.of count) degrees ranks
  let collected := rows.map fun row => collect 0.0 row shares
  let sum := collected.foldl (· + ·) 0.0
  collected.map (· / sum)

/-- The rank of every file. -/
def ranks (g : Graph) : List Float :=
  let count := Float.ofNat g.files.length
  let targets := g.files.map g.importsOf
  let rows := g.files.map fun file => targets.map (·.contains file)
  Nat.repeat (round count (targets.map List.length) rows) rounds (g.files.map fun _ => 1.0 / count)

/-- The files with the highest ranks, highest first and equals by path, at most `limit` of them. -/
def ranked (g : Graph) (limit : Nat) : List (String × Float) :=
  let before (a b : String × Float) : Bool := a.2 > b.2 || (a.2 == b.2 && a.1 ≤ b.1)
  ((g.files.zip g.ranks).mergeSort before).take limit

end Graph

end CodeIndex
