/-!
# 64-bit floating-point numbers

A float is its 64 bits: a sign and 63 bits that grow with the magnitude. The magnitude that the 63 bits
`r` stand for is a whole multiple of `2 ^ -1074`, so all questions about it are questions about natural
numbers. `nearest` finds the float closest to a fraction.
-/

namespace AddressLines

structure Binary64 where
  bits : UInt64
deriving DecidableEq, Repr

namespace Binary64

/-- The 63 bits of positive infinity; all above are not a number. -/
def infinite : Nat := 2047 * Nat.pow 2 52

def isNegative (x : Binary64) : Bool :=
  Nat.pow 2 63 ≤ x.bits.toNat

/-- The bits without the sign. Floats of one sign are ordered as their magnitude bits are. -/
def magnitude (x : Binary64) : Nat :=
  x.bits.toNat % Nat.pow 2 63

def isNaN (x : Binary64) : Bool :=
  infinite < x.magnitude

def isInfinite (x : Binary64) : Bool :=
  x.magnitude = infinite

def isFinite (x : Binary64) : Bool :=
  x.magnitude < infinite

def ofMagnitude (negative : Bool) (r : Nat) : Binary64 :=
  ⟨UInt64.ofNat (if negative then Nat.pow 2 63 + r else r)⟩

def notANumber (negative : Bool) : Binary64 :=
  ofMagnitude negative (infinite + Nat.pow 2 51)

/-! ## Exact values -/

/-- The value of magnitude bits, in units of `2 ^ -1074`. The first two exponents share their unit. -/
def units (r : Nat) : Nat :=
  let step := Nat.pow 2 52
  if r < step then r else (step + r % step) * Nat.pow 2 (r / step - 1)

/-- A quotient rounded to the nearest whole number, a half to the even one. -/
def roundHalfEven (num den : Nat) : Nat :=
  let q := num / den
  let twice := 2 * (num % den)
  if twice < den ∨ (twice = den ∧ q % 2 = 0) then q else q + 1

/-- Magnitude bits of the float nearest to `num / den`, a half going to the even one, and to infinity
from the last float on. With `53` bits of precision in units of `2 ^ (s - 1074)`, a significand that
rounds up to `2 ^ 53` carries into the exponent. -/
def nearest (num den : Nat) : Nat :=
  let scaled := num * Nat.pow 2 1074
  let s := (scaled / den).log2 - 52
  min infinite (s * Nat.pow 2 52 + roundHalfEven scaled (den * Nat.pow 2 s))

/-- Magnitude bits of the float nearest to `digits * 10 ^ exponent`. Beyond `10 ^ 400` everything is
infinite, and below `10 ^ -400` everything is zero. -/
def nearestDecimal (digits : Nat) (exponent : Int) : Nat :=
  if digits = 0 then 0
  else if 400 < exponent then infinite
  else if exponent + (digits.log2 / 3 + 1 : Nat) < -400 then 0
  else if 0 ≤ exponent then nearest (digits * Nat.pow 10 exponent.toNat) 1
  else nearest digits (Nat.pow 10 (-exponent).toNat)

end Binary64

end AddressLines
