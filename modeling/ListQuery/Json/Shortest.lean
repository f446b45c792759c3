/-
This file chooses the decimal digits of a double: the fewest that still read
back as the same double under correct rounding, and of those the nearest to its
value. The choice is made on decimal grids of shrinking step, in exact
arithmetic, so the first grid with a point in the interval of the double gives
the fewest digits.
-/

import ListQuery.Json.Double

namespace ListQuery

namespace Double

/-- A decimal number `digits * 10 ^ exponent`. -/
structure Decimal where
  digits : Nat
  exponent : Int
deriving DecidableEq

/-- Whether a number lies in the interval of those that round to a magnitude; the number and the
ends of the interval are all given doubled. The ends belong to the interval when the magnitude is
even, because a half goes to the even neighbour. -/
def within (magnitude low twice high : Nat) : Bool :=
  if magnitude % 2 = 0 then low ≤ twice && twice ≤ high else low < twice && twice < high

/-- The point of the grid with step `10 ^ exponent` that reads back as the magnitude and is nearest
to it, if there is one. Only the two points beside the value can be; of two equally near ones the
even one is taken. -/
def onGrid? (magnitude : Nat) (exponent : Int) : Option Nat :=
  let step := Nat.pow 10 exponent.toNat * unitsOfOne
  let scale := Nat.pow 10 (-exponent).toNat
  let value := units magnitude * scale
  let low := (units (magnitude - 1) + units magnitude) * scale
  let high := (units magnitude + units (magnitude + 1)) * scale
  let below := value / step
  let above := below + 1
  match within magnitude low (2 * below * step) high,
    within magnitude low (2 * above * step) high with
  | true, true =>
    if 2 * value < (below + above) * step then some below
    else if (below + above) * step < 2 * value then some above
    else some (if below % 2 = 0 then below else above)
  | true, false => some below
  | false, true => some above
  | false, false => none

/-- The finest grid any double needs: its step is below the distance of two neighbouring doubles. -/
def finestExponent : Int := -324

/-- Walks down the grids from the one with exponent `count + finestExponent`. -/
def shortestFrom (magnitude : Nat) : Nat → Decimal
  | 0 => ⟨(onGrid? magnitude finestExponent).getD 0, finestExponent⟩
  | count + 1 =>
    match onGrid? magnitude (count + 1 + finestExponent) with
    | some digits => ⟨digits, count + 1 + finestExponent⟩
    | none => shortestFrom magnitude count

/-- The shortest decimal that reads back as a magnitude. A value below `10 ^ n` needs no grid
coarser than that power, so the walk starts at the number of digits before the point. -/
def shortest (magnitude : Nat) : Decimal :=
  if magnitude = 0 then ⟨0, 0⟩
  else shortestFrom magnitude (324 + (Nat.toDigits 10 (units magnitude / unitsOfOne)).length)

end Double

end ListQuery
