/-!
# Sets of code points

A set of characters from the Unicode tables is kept as the sorted list of the code points where
membership changes: a character is in the set when an odd number of boundaries stand at or below
it. One binary search decides.
-/

namespace CodeIndex.Text

/-- How many of the sorted `bounds` are at most `n`, when all before `lo` are and none from `hi` on
is. The interval halves in each round, so `fuel` need not exceed its length. -/
def countBounds (bounds : Array Nat) (n : Nat) : (fuel lo hi : Nat) → Nat
  | 0, lo, _ => lo
  | fuel + 1, lo, hi =>
    if lo < hi then
      let mid := (lo + hi) / 2
      if bounds.getD mid 0 ≤ n then countBounds bounds n fuel (mid + 1) hi
      else countBounds bounds n fuel lo mid
    else lo

/-- Membership in the set whose boundaries are `bounds`. -/
def inRanges (bounds : Array Nat) (c : Char) : Bool :=
  countBounds bounds c.toNat bounds.size 0 bounds.size % 2 == 1

end CodeIndex.Text
