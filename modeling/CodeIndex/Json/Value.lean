/-!
# Data values

The values that configuration files, tool calls and reports are made of. An object keeps its
members in the order and number in which they were given; `normalize` is the form in which two
texts of one value agree: members sorted by name, and of several with one name the last.
-/

namespace CodeIndex

/-- A number: a whole number where the text gives one that fits 64 bits, signed or unsigned, and
otherwise the double nearest to it. -/
inductive Number where
  /-- A whole number between the least signed and the greatest unsigned 64 bit number. -/
  | int (value : Int)
  /-- Any other number. -/
  | float (value : Float)

/-- A data value. -/
inductive Json where
  /-- The absent value. -/
  | null
  /-- A truth value. -/
  | bool (value : Bool)
  /-- A number. -/
  | num (value : Number)
  /-- A text. -/
  | str (value : String)
  /-- A list of values. -/
  | arr (items : List Json)
  /-- Named members, as given. -/
  | obj (members : List (String × Json))

instance : Inhabited Json := ⟨.null⟩

namespace Json

/-- A natural number. -/
def nat (n : Nat) : Json := .num (.int n)

/-- A whole number. -/
def int (n : Int) : Json := .num (.int n)

/-- The value inside, or the absent value. -/
def opt (toJson : α → Json) : Option α → Json
  | some a => toJson a
  | none => .null

/-- A list of values. -/
def list (toJson : α → Json) (items : List α) : Json := .arr (items.map toJson)

/-! ## §1. Looking inside. -/

/-- The last member with the given name. -/
def member? (name : String) : Json → Option Json
  | .obj members => members.reverse.lookup name
  | _ => none

/-- The text, when the value is one. -/
def asStr? : Json → Option String
  | .str s => some s
  | _ => none

/-! ## §2. The normal form. -/

/-- Put a member in its place among members sorted by name; one with the same name gives way. -/
def insertMember (name : String) (value : Json) :
    List (String × Json) → List (String × Json)
  | [] => [(name, value)]
  | (other, old) :: rest =>
    if name < other then (name, value) :: (other, old) :: rest
    else if name = other then (name, value) :: rest
    else (other, old) :: insertMember name value rest

mutual

/-- Members sorted by name at every depth, the last of one name kept. -/
def normalize : Json → Json
  | .arr items => .arr (normalizeItems items)
  | .obj members => .obj (normalizeMembers members [])
  | v => v

/-- Every item in its normal form. -/
def normalizeItems : List Json → List Json
  | [] => []
  | v :: rest => normalize v :: normalizeItems rest

/-- The members put one after another among those sorted so far. -/
def normalizeMembers : List (String × Json) → List (String × Json) → List (String × Json)
  | [], acc => acc
  | (name, v) :: rest, acc => normalizeMembers rest (insertMember name (normalize v) acc)

end

end Json

end CodeIndex
