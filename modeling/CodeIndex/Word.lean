/-!
# 32 and 64 bit numbers and sums

Counts and sizes are stored as 64 bit numbers, some of them signed. Where such a number ends, and the
sum of a list of counts. A count that is kept in 32 bits can stand where a number is wanted.
-/

namespace CodeIndex

/-- A 32 bit number is a number. -/
instance instCoeUInt32Nat : Coe UInt32 Nat := ⟨UInt32.toNat⟩

/-- The least number past the signed 64 bit numbers. -/
def signedEnd : Nat := 9223372036854775808

/-- The least number past the unsigned 64 bit numbers. -/
def unsignedEnd : Nat := 18446744073709551616

/-- Whether a number is a signed 64 bit number. -/
def isSigned64 (n : Int) : Bool := -(signedEnd : Int) ≤ n && n < (signedEnd : Int)

/-- The signed 64 bit number with the same bits as an unsigned one. -/
def signed64 (n : Nat) : Int := if n < signedEnd then (n : Int) else (n : Int) - (unsignedEnd : Int)

/-- The unsigned 64 bit number with the same bits as a signed one. -/
def unsigned64 (n : Int) : Nat := if n < 0 then (n + (unsignedEnd : Int)).toNat else n.toNat

/-- The sum of some counts. -/
def total (counts : List Nat) : Nat := counts.foldr (· + ·) 0

end CodeIndex
