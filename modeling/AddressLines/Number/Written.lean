import AddressLines.Number.Shortest

/-!
# Floats as text

The shortest digits of a float, written positionally while the exponent of the first digit is from `-4`
to `5`, and with an exponent of at least two digits outside that range.
-/

namespace AddressLines

namespace Decimal

/-- The digits without the zeros at their end. -/
def digitList (d : Decimal) : List Char :=
  ((Nat.toDigits 10 d.digits).reverse.dropWhile (· == '0')).reverse

/-- The exponent of the first digit. -/
def firstExponent (d : Decimal) : Int :=
  d.exponent + width d.digits - 1

def isPositional (d : Decimal) : Bool :=
  -4 ≤ d.firstExponent && d.firstExponent < 6

/-- Digits with the point after the first `n` of them; zeros fill up to the point. -/
def placePoint (n : Nat) (ds : List Char) : List Char :=
  if ds.length ≤ n then ds ++ List.replicate (n - ds.length) '0'
  else ds.take n ++ '.' :: ds.drop n

def positional (d : Decimal) : List Char :=
  let e := d.firstExponent
  if 0 ≤ e then placePoint (e.toNat + 1) d.digitList
  else '0' :: '.' :: List.replicate ((-e).toNat - 1) '0' ++ d.digitList

def twoDigits (n : Nat) : List Char :=
  if n < 10 then '0' :: Nat.toDigits 10 n else Nat.toDigits 10 n

def scientific (d : Decimal) : List Char :=
  let e := d.firstExponent
  placePoint 1 d.digitList ++ 'e' :: (if e < 0 then '-' else '+') :: twoDigits e.natAbs

def text (d : Decimal) : List Char :=
  if d.isPositional then d.positional else d.scientific

end Decimal

namespace Binary64

def text (x : Binary64) : String :=
  if x.isNaN then "NaN"
  else if x.isInfinite then if x.isNegative then "-Inf" else "+Inf"
  else
    let body := if x.magnitude = 0 then ['0'] else (Decimal.shortest x.magnitude).text
    String.ofList (if x.isNegative then '-' :: body else body)

end Binary64

end AddressLines
