import CodeIndex.Word

/-!
# Doubles as decimals, both ways

Reading. The digits of a number are taken as one 64 bit significand, as many as fit, and scaled by
a power of ten with one multiplication or division by an exactly rounded power; the result can be
a neighbour of the double that is nearest. A magnitude past the largest double is refused.

Writing. The fewest digits that read back: the value is `m · 2^q` exactly, the reals that round to
it form an interval, and of the decimal grids with 1, 2, … 17 digits the first that has a point in
the interval is taken, with the point nearest to the value, or the even one of two as near. All of
it is arithmetic on natural numbers.
-/

namespace CodeIndex.Decimal

/-! ## §1. Reading. -/

/-- The parts of a number as written: sign, digits before and after the point, and the exponent. -/
structure Parts where
  negative : Bool
  whole : List Nat
  fraction : List Nat
  exponent : Option (Bool × List Nat)

/-- Append digits to a significand while it fits 64 bits; gives the significand and how many digits
were appended. -/
def appendDigits : (significand : Nat) → List Nat → Nat × Nat
  | s, [] => (s, 0)
  | s, d :: rest =>
    if s * 10 + d < unsignedEnd then
      let (s', n) := appendDigits (s * 10 + d) rest
      (s', n + 1)
    else (s, 0)

/-- A power of ten as the nearest double. -/
def powerOfTen (n : Nat) : Float := Float.ofScientific 1 false n

/-- Scale `f` by `10^e`; `none` when the result is too large. Very small scales are applied in steps
of `10^-308`. -/
def scale : (fuel : Nat) → Float → Int → Option Float
  | 0, _, _ => some 0.0
  | fuel + 1, f, e =>
    if e.natAbs ≤ 308 then
      if 0 ≤ e then
        let g := f * powerOfTen e.natAbs
        if g.isInf then none else some g
      else some (f / powerOfTen e.natAbs)
    else if f == 0.0 then some f
    else if 0 ≤ e then none
    else scale fuel (f / powerOfTen 308) (e + 308)

/-- The exponent as written; one that does not fit 31 bits is given by its sign alone. -/
def writtenExponent : Option (Bool × List Nat) → Except Bool Int
  | none => .ok 0
  | some (up, digits) =>
    let n : Nat := digits.foldl (fun acc d => acc * 10 + d) 0
    if n ≤ 2147483647 then .ok (if up then (n : Int) else -(n : Int)) else .error up

/-- The double for the parts of a number; `none` when it is too large. -/
def Parts.toFloat? (p : Parts) : Option Float :=
  let (s, taken) := appendDigits 0 p.whole
  let dropped := p.whole.length - taken
  let (s, places) := appendDigits s p.fraction
  let shift : Int := (dropped : Int) - (places : Int)
  let signed (f : Float) : Float := if p.negative then -f else f
  match writtenExponent p.exponent with
  | .error up => if s ≠ 0 && up then none else some (signed 0.0)
  | .ok e =>
    let e := max (-2147483648) (min 2147483647 (shift + e))
    (scale 10 (Float.ofNat s) e).map signed

/-! ## §2. The value and its interval. -/

/-- A positive double as `mantissa · 2^exponent`. -/
structure Binary where
  mantissa : Nat
  exponent : Int
  /-- The next smaller double is only half as far away as the next larger one. -/
  lopsided : Bool

/-- The parts of a finite double, sign dropped. -/
def Binary.of (f : Float) : Binary :=
  let bits : Nat := f.toBits.toNat
  let fraction : Nat := bits % Nat.pow 2 52
  let biased : Nat := bits / Nat.pow 2 52 % Nat.pow 2 11
  if biased = 0 then ⟨fraction, -1074, false⟩
  else ⟨Nat.pow 2 52 + fraction, (biased : Int) - 1075, fraction == 0 && 1 < biased⟩

/-- A nonnegative rational number. -/
structure Ratio where
  num : Nat
  den : Nat

/-- `n · 2^e` as a ratio. -/
def Ratio.shift (n : Nat) (e : Int) : Ratio :=
  if 0 ≤ e then ⟨n * Nat.pow 2 e.toNat, 1⟩ else ⟨n, Nat.pow 2 e.natAbs⟩

/-- `n · 10^e` as a ratio. -/
def Ratio.scale (n : Nat) (e : Int) : Ratio :=
  if 0 ≤ e then ⟨n * Nat.pow 10 e.toNat, 1⟩ else ⟨n, Nat.pow 10 e.natAbs⟩

/-- Comparison of ratios. -/
def Ratio.lt (a b : Ratio) : Bool := a.num * b.den < b.num * a.den

/-- Comparison of ratios. -/
def Ratio.le (a b : Ratio) : Bool := a.num * b.den ≤ b.num * a.den

/-- The distance of two ratios. -/
def Ratio.dist (a b : Ratio) : Ratio :=
  ⟨((a.num * b.den : Nat) - (b.num * a.den : Nat) : Int).natAbs, a.den * b.den⟩

/-- Whether a ratio rounds to the double: it lies between the midpoints to the neighbours, and on
one of them only when the mantissa is even. -/
def Binary.holds (b : Binary) (r : Ratio) : Bool :=
  let low := if b.lopsided then Ratio.shift (4 * b.mantissa - 1) (b.exponent - 2)
             else Ratio.shift (2 * b.mantissa - 1) (b.exponent - 1)
  let high := Ratio.shift (2 * b.mantissa + 1) (b.exponent - 1)
  if b.mantissa % 2 = 0 then low.le r && r.le high else low.lt r && r.lt high

/-! ## §3. The fewest digits. -/

/-- A decimal number `digits · 10^unit`. -/
structure Digits where
  digits : Nat
  unit : Int

/-- The least `k` with `value < 10^k`, starting from a guess that is not above it. -/
def magnitude (value : Ratio) : (fuel : Nat) → Int → Int
  | 0, k => k
  | fuel + 1, k => if value.lt (Ratio.scale 1 k) then k else magnitude value fuel (k + 1)

/-- Whether the upper of two neighbouring points of a grid is the one to take: it is nearer, or as
near and the digits of the lower one are odd. -/
def takesUpper (value low high : Ratio) (below : Nat) : Bool :=
  (high.dist value).lt (low.dist value)
    || ((high.dist value).le (low.dist value) && below % 2 == 1)

/-- The point with `n` digits nearest to the value among those that read back. -/
def onGrid? (b : Binary) (value : Ratio) (k : Int) (n : Nat) : Option Digits :=
  let unit := k - n
  let below := if 0 ≤ unit then value.num / (value.den * Nat.pow 10 unit.toNat)
               else value.num * Nat.pow 10 unit.natAbs / value.den
  let low := Ratio.scale below unit
  let high := Ratio.scale (below + 1) unit
  match b.holds low, b.holds high with
  | true, true => some ⟨if takesUpper value low high below then below + 1 else below, unit⟩
  | true, false => some ⟨below, unit⟩
  | false, true => some ⟨below + 1, unit⟩
  | false, false => none

/-- The fewest digits that read back as the given positive double. -/
def shortest (f : Float) : Digits :=
  let b := Binary.of f
  let value := Ratio.shift b.mantissa b.exponent
  let k := magnitude value 700 (-330)
  ((List.range 17).findSome? fun i => onGrid? b value k (i + 1)).getD ⟨b.mantissa, 0⟩

/-! ## §4. The text. -/

/-- How a decimal is laid out: the exponents written with a point among the digits, and the mark in
front of any other exponent. -/
structure Layout where
  /-- The least power of ten written without an exponent. -/
  least : Int
  /-- The least power of ten that is written with one again. -/
  beyond : Int

/-- Numbers from `10^-5` up to but not including `10^16` are written without an exponent, with at
least one digit after the point; the exponent of any other carries its sign. -/
def layout : Layout := ⟨-5, 16⟩

/-- The digits with the point after the first of them, and none after a lone digit. -/
def scientific (digits : List Char) : List Char :=
  match digits with
  | [] => []
  | [d] => [d]
  | d :: rest => d :: '.' :: rest

/-- The digits laid out; `point` places of them stand before the decimal point. -/
def Layout.text (l : Layout) (digits : List Char) (point : Int) : List Char :=
  if point - 1 < l.least || l.beyond ≤ point - 1 then
    scientific digits ++ ['e', if 0 ≤ point - 1 then '+' else '-']
      ++ Nat.toDigits 10 (point - 1).natAbs
  else if point ≤ 0 then '0' :: '.' :: List.replicate point.natAbs '0' ++ digits
  else
    let n := point.toNat
    if digits.length ≤ n then digits ++ List.replicate (n - digits.length) '0' ++ ['.', '0']
    else digits.take n ++ '.' :: digits.drop n

/-- A finite double as text. -/
def render (f : Float) : List Char :=
  let negative := f.toBits.toNat / signedEnd == 1
  let body :=
    if f == 0.0 then ['0', '.', '0']
    else
      let d := shortest f
      let digits := Nat.toDigits 10 d.digits
      layout.text (digits.reverse.dropWhile (· == '0')).reverse (digits.length + d.unit)
  if negative then '-' :: body else body

end CodeIndex.Decimal
