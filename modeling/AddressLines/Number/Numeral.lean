import AddressLines.Number.Binary64

/-!
# Numerals

Written numbers: whole numbers of 32 bits, and decimals with an optional point and exponent, which are
read as the nearest float. Both may carry a sign.
-/

namespace AddressLines.Numeral

/-- Takes a sign off the front of a text; tells whether it was a minus. -/
def unsigned : List Char → Bool × List Char
  | '-' :: cs => (true, cs)
  | '+' :: cs => (false, cs)
  | cs => (false, cs)

def digitsValue (ds : List Char) : Nat :=
  ds.foldl (fun n d => 10 * n + (d.toNat - '0'.toNat)) 0

/-- One or more digits and nothing else. -/
def natural? (cs : List Char) : Option Nat :=
  if !cs.isEmpty && cs.all Char.isDigit then some (digitsValue cs) else none

def signed? (cs : List Char) : Option Int :=
  let (negative, ds) := unsigned cs
  (natural? ds).map fun n => if negative then -n else n

/-- A whole number that fits in 32 bits with its sign. -/
def integer? (cs : List Char) : Option Int :=
  (signed? cs).filter fun n => -2147483648 ≤ n ∧ n < 2147483648

/-- The exponent part that may end a decimal. -/
def exponent? : List Char → Option Int
  | [] => some 0
  | c :: cs => if c = 'e' ∨ c = 'E' then signed? cs else none

/-- The digits after a decimal point, and what follows them. -/
def fraction : List Char → List Char × List Char
  | '.' :: cs => cs.span Char.isDigit
  | cs => ([], cs)

/-- A decimal without a sign: digits before or after the point, or both. -/
def decimal? (cs : List Char) : Option (Nat × Int) :=
  let (whole, rest) := cs.span Char.isDigit
  let (part, rest) := fraction rest
  if whole.isEmpty && part.isEmpty then none
  else (exponent? rest).map fun e => (digitsValue (whole ++ part), e - part.length)

def float? (cs : List Char) : Option Binary64 :=
  let (negative, body) := unsigned cs
  let word := String.ofList (body.map Char.toLower)
  if word = "inf" ∨ word = "infinity" then some (.ofMagnitude negative Binary64.infinite)
  else if word = "nan" then some (.notANumber negative)
  else (decimal? body).map fun (digits, e) =>
    .ofMagnitude negative (Binary64.nearestDecimal digits e)

end AddressLines.Numeral
