import CodeIndex.Json.Value
import CodeIndex.Vocabulary
import CodeIndex.Word

/-!
# Records in data values

A record is read from an object by the names of its fields, or from a list by their order. Members
that the record does not have are passed over; a field given twice is an error, and so is an item
too many. What is missing counts as given by its default, where the field has one.
-/

namespace CodeIndex.Json

/-- The values of a record's fields, as far as they are given. -/
def record? (names : List String) : Json → Option (List (Option Json))
  | .obj members =>
    names.mapM fun name =>
      match members.filter (·.1 == name) with
      | [] => some none
      | [(_, v)] => some (some v)
      | _ => none
  | .arr items =>
    if items.length ≤ names.length then
      some (items.map some ++ List.replicate (names.length - items.length) none)
    else none
  | _ => none

/-- The value of a field that must be given. -/
def required? (decode : Json → Option α) (field : Option Json) : Option α := field.bind decode

/-- The value of a field with a default. -/
def orElse? (decode : Json → Option α) (default : α) : Option Json → Option α
  | none => some default
  | some v => decode v

/-- The value of a field that may be absent. -/
def optional? (decode : Json → Option α) : Option Json → Option (Option α)
  | none => some none
  | some .null => some none
  | some v => (decode v).map some

/-- A whole number below `2 ^ bits`. -/
def unsigned? (bits : Nat) : Json → Option Nat
  | .num (.int n) => if 0 ≤ n && n.toNat < Nat.pow 2 bits then some n.toNat else none
  | _ => none

/-- A signed 64 bit number. -/
def signed? : Json → Option Int
  | .num (.int n) => if isSigned64 n then some n else none
  | _ => none

/-- A truth value. -/
def bool? : Json → Option Bool
  | .bool b => some b
  | _ => none

/-- A list of values. -/
def list? (decode : Json → Option α) : Json → Option (List α)
  | .arr items => items.mapM decode
  | _ => none

/-- A member of a vocabulary, by its word, or by its word as the only member of an object. -/
def word? {α : Type} [Vocabulary α] : Json → Option α
  | .str s => Vocabulary.ofName? s
  | .obj [(s, .null)] => Vocabulary.ofName? s
  | _ => none

end CodeIndex.Json
