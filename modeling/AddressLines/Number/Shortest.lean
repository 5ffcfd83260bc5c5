import AddressLines.Number.Binary64

/-!
# Shortest decimal digits of a float

Of all decimals that read back as a given float, those with the fewest digits, and of these the nearest to
its value. On the grid of decimals with `n` digits only the two neighbours of the value can be nearest, so
two candidates are tried for each `n`.
-/

namespace AddressLines

/-- The number `digits * 10 ^ exponent`. -/
structure Decimal where
  digits : Nat
  exponent : Int
deriving DecidableEq, Repr

namespace Decimal

/-- Number of decimal digits. -/
def width (n : Nat) : Nat :=
  (Nat.toDigits 10 n).length

def readsAs (r : Nat) (d : Decimal) : Bool :=
  Binary64.nearestDecimal d.digits d.exponent = r

/-- The exponent of the first digit: `10 ^ e ≤ value < 10 ^ (e + 1)`. Every float but zero is above
`10 ^ -324`, where the count of digits starts. -/
def leading (r : Nat) : Int :=
  (width (Binary64.units r * Nat.pow 10 324 / Nat.pow 2 1074) : Int) - 325

/-- The value in units of `10 ^ e`, as a fraction. -/
def gridFraction (r : Nat) (e : Int) : Nat × Nat :=
  if 0 ≤ e then (Binary64.units r, Nat.pow 2 1074 * Nat.pow 10 e.toNat)
  else (Binary64.units r * Nat.pow 10 (-e).toNat, Nat.pow 2 1074)

/-- The greatest decimal of `n` digits that is not above the value. -/
def below (r n : Nat) : Decimal :=
  let f := gridFraction r (leading r + 1 - n)
  ⟨f.1 / f.2, leading r + 1 - n⟩

/-- The least decimal of `n` digits that is above the value. -/
def above (r n : Nat) : Decimal :=
  ⟨(below r n).digits + 1, leading r + 1 - n⟩

/-- The value lies before the middle of its neighbours. -/
def isLowerHalf (r n : Nat) : Bool :=
  let f := gridFraction r (leading r + 1 - n)
  2 * (f.1 % f.2) < f.2

/-- The better neighbour of the value among decimals of `n` digits, if one reads back: the nearer one if
both do, the upper one from the middle on. -/
def onGrid? (r n : Nat) : Option Decimal :=
  if readsAs r (below r n) then
    if readsAs r (above r n) then some (if isLowerHalf r n then below r n else above r n)
    else some (below r n)
  else if readsAs r (above r n) then some (above r n)
  else none

/-- The value itself, which needs no rounding. -/
def exact (r : Nat) : Decimal :=
  ⟨Binary64.units r * Nat.pow 5 1074, -1074⟩

/-- Seventeen digits are enough for every float. -/
def shortest (r : Nat) : Decimal :=
  ((List.range 17).findSome? fun i => onGrid? r (i + 1)).getD (exact r)

end Decimal

end AddressLines
