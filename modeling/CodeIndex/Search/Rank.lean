import CodeIndex.Search.Expression
import CodeIndex.Text.Terms
import CodeIndex.Word

/-!
# Ranked search

A row is searched by the terms of its columns. A word of the query is a phrase: its terms, next to
each other in one column. A row is a hit when every phrase stands in it. Hits are ordered by how much
they say about the phrases: a phrase that few rows have counts for more, a phrase that stands in a row
often counts for more, and a row with few terms counts for more.
-/

namespace CodeIndex.Search

/-- The terms of each column of a row. -/
abbrev Columns := List (List (List Char))

/-- A phrase: terms next to each other, the last of which may go on. -/
structure Phrase where
  terms : List (List Char)
  openEnded : Bool

namespace Phrase

/-- Whether the terms stand at the front of a column. -/
def standsAt (openEnded : Bool) : (terms column : List (List Char)) → Bool
  | [], _ => true
  | _ :: _, [] => false
  | [last], term :: _ => if openEnded then last.isPrefixOf term else last == term
  | first :: more, term :: column => first == term && standsAt openEnded more column

/-- How often the phrase stands in a column. -/
def countIn (p : Phrase) : List (List Char) → Nat
  | [] => 0
  | term :: column =>
    (if standsAt p.openEnded p.terms (term :: column) then 1 else 0) + p.countIn column

/-- How often the phrase stands in a row. -/
def count (p : Phrase) (row : Columns) : Nat := total (row.map p.countIn)

end Phrase

/-- The phrases of an expression. A word without terms is none. -/
def phrases? (expression : List Char) : Option (List Phrase) :=
  (readWords? expression).map fun words =>
    (words.map fun (word, openEnded) => Phrase.mk (Text.terms word) openEnded).filter
      (!·.terms.isEmpty)

/-! ## §1. Scores. -/

/-- How fast the weight of a phrase saturates as it stands in a row more often. -/
def saturation : Float := 1.2

/-- How much the length of a row counts. -/
def lengthWeight : Float := 0.75

/-- The weight of a phrase that `having` of `all` rows have. -/
def rarity (all having : Nat) : Float :=
  let weight := Float.log ((Float.ofNat all - Float.ofNat having + 0.5) / (Float.ofNat having + 0.5))
  if weight ≤ 0.0 then 1e-6 else weight

/-- The number of terms in a row. -/
def length (row : Columns) : Nat := total (row.map List.length)

/-- The score of a row, for the weight of each phrase and how often it stands there. -/
def score (weights : List Float) (counts : List Nat) (length meanLength : Float) : Float :=
  (weights.zip counts).foldl (fun sum (weight, count) =>
    let f := Float.ofNat count
    sum + weight * ((f * (saturation + 1.0))
      / (f + saturation * (1.0 - lengthWeight + lengthWeight * length / meanLength)))) 0.0

/-- The rows that an expression finds, best first and equals in their order. -/
def rank (columns : α → Columns) (expression : List Char) (rows : List α) : List α :=
  match phrases? expression with
  | none => []
  | some [] => []
  | some phrases =>
    let read := rows.map fun row => (row, columns row)
    let counted := read.map fun (row, cs) => (row, length cs, phrases.map fun (p : Phrase) => p.count cs)
    let mean := Float.ofNat (total (counted.map fun (_, n, _) => n)) / Float.ofNat rows.length
    let weights := (List.range phrases.length).map fun i =>
      rarity rows.length (counted.filter fun (_, _, counts) => 0 < counts.getD i 0).length
    let hits := counted.filter fun (_, _, counts) => counts.all (0 < ·)
    let scored := hits.map fun (row, n, counts) => (row, score weights counts (Float.ofNat n) mean)
    (scored.mergeSort fun a b => b.2 ≤ a.2).map (·.1)

end CodeIndex.Search
