/-
This file holds finite doubles as exact numbers. Every finite double is a whole
number of units of 2^-1074, so a value is a natural number of such units, and
the operations that reading a decimal needs (the product and the quotient of two
doubles, each rounded to the nearest double) are one rounding of a ratio of
natural numbers.
-/

namespace ListQuery

namespace Double

/-- How many fractions there are for one exponent, which is 2^52. -/
def fractions : Nat := 4503599627370496

/-- The magnitude of infinity, whose exponent field is 2047 and whose fraction is zero. -/
def infinity : Nat := 2047 * fractions

end Double

/-- A finite double: its sign, and the 63 bits below the sign read as one number.
That number grows with the absolute value, and stops before the one of infinity. -/
structure Double where
  negative : Bool
  magnitude : Nat
  finite : magnitude < Double.infinity
deriving DecidableEq

namespace Double

/-! ### Magnitudes as numbers of units -/

/-- How many units of 2^-1074 one double is worth. -/
def unitsOfOne : Nat := Nat.pow 2 1074

/-- The units of a magnitude: 52 bits of fraction, below a hidden bit unless the exponent field is
zero, shifted by that field. -/
def units (magnitude : Nat) : Nat :=
  if magnitude < fractions then magnitude
  else (fractions + magnitude % fractions) * Nat.pow 2 (magnitude / fractions - 1)

/-- A quotient rounded to the nearest natural number, a half to the even one. -/
def roundDiv (numerator denominator : Nat) : Nat :=
  let quotient := numerator / denominator
  let rest := 2 * (numerator % denominator)
  if denominator < rest ∨ (denominator = rest ∧ quotient % 2 = 1) then quotient + 1 else quotient

/-- The magnitude nearest to `numerator / denominator` units. Values of 2^53 units and more lose the
bits below the top 53; a carry out of those runs into the exponent field, where it belongs. -/
def nearest (numerator denominator : Nat) : Nat :=
  let shift := Nat.log2 (numerator / denominator) - 52
  shift * fractions + roundDiv numerator (denominator * Nat.pow 2 shift)

/-- The magnitude nearest to a natural number. -/
def ofNat (number : Nat) : Nat :=
  nearest (number * unitsOfOne) 1

/-- The magnitude nearest to a power of ten. -/
def powerOfTen (exponent : Nat) : Nat :=
  ofNat (Nat.pow 10 exponent)

/-- The rounded product of two magnitudes. -/
def product (first second : Nat) : Nat :=
  nearest (units first * units second) unitsOfOne

/-- The rounded quotient of two magnitudes. -/
def quotient (first second : Nat) : Nat :=
  nearest (units first * unitsOfOne) (units second)

/-! ### Reading a decimal -/

/-- The magnitude that `significand * 10 ^ exponent` is read as, for a significand below 2^64. The
significand is rounded first and then scaled once by a rounded power of ten, or twice when the
exponent lies below that of the smallest such power; a smaller value still is zero. The result
reaches infinity when the number is too large. -/
def ofDecimal (significand : Nat) (exponent : Int) : Nat :=
  let start := ofNat significand
  if 0 ≤ exponent then
    if exponent ≤ 308 then product start (powerOfTen exponent.toNat)
    else if significand = 0 then 0 else infinity
  else if -308 ≤ exponent then quotient start (powerOfTen (-exponent).toNat)
  else if -616 ≤ exponent then
    quotient (quotient start (powerOfTen 308)) (powerOfTen (-exponent - 308).toNat)
  else 0

/-- The double with a sign and a magnitude, unless that magnitude is past the finite ones. -/
def ofMagnitude? (negative : Bool) (magnitude : Nat) : Option Double :=
  if finite : magnitude < infinity then some ⟨negative, magnitude, finite⟩ else none

/-- Equality of values: the two zeros are one number. -/
def same (first second : Double) : Bool :=
  first.magnitude == second.magnitude &&
    (first.negative == second.negative || first.magnitude == 0)

end Double

end ListQuery
