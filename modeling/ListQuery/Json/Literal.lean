/-
This file reads the numbers of JSON text. A literal keeps the digits as they are
written; its value is an integer where the text and the range allow one, else the
double that the digits lead to. Digits are collected in a word of 64 bits, and
those that no longer fit count by their place only, so the value of a long
literal can differ from the nearest double in its last bit.
-/

import ListQuery.Json.Number

namespace ListQuery

/-- A number as it is written. -/
structure Literal where
  negative : Bool
  whole : List Char
  fraction : List Char
  exponent : Option Int
deriving DecidableEq

namespace Literal

/-! ### Reading the text -/

/-- A fraction, which is empty or a point and at least one digit. -/
def readFraction? : List Char → Option (List Char × List Char)
  | '.' :: rest => Digits.split? rest
  | text => some ([], text)

/-- The size of an exponent. -/
def readExponentSize? (text : List Char) : Option (Int × List Char) := do
  let (digits, rest) ← Digits.split? text
  return (Digits.value digits, rest)

/-- An exponent behind its mark, with an optional sign. -/
def readSignedExponent? : List Char → Option (Option Int × List Char)
  | '+' :: rest => do
    let (size, rest) ← readExponentSize? rest
    return (some size, rest)
  | '-' :: rest => do
    let (size, rest) ← readExponentSize? rest
    return (some (-size), rest)
  | text => do
    let (size, rest) ← readExponentSize? text
    return (some size, rest)

/-- An exponent, which may be missing. -/
def readExponent? : List Char → Option (Option Int × List Char)
  | 'e' :: rest => readSignedExponent? rest
  | 'E' :: rest => readSignedExponent? rest
  | text => some (none, text)

/-- A literal without its sign. A whole part of several digits does not start with zero. -/
def readUnsigned? (negative : Bool) (text : List Char) : Option (Literal × List Char) := do
  let (whole, rest) ← Digits.split? text
  if whole.head? = some '0' ∧ whole ≠ ['0'] then none
  else do
    let (fraction, rest) ← readFraction? rest
    let (exponent, rest) ← readExponent? rest
    return (⟨negative, whole, fraction, exponent⟩, rest)

/-- A literal at the start of a text, and the text after it. -/
def read? : List Char → Option (Literal × List Char)
  | '-' :: rest => readUnsigned? true rest
  | text => readUnsigned? false text

/-! ### The value -/

/-- Appends digits to a significand while it stays below 2^64; the second result holds the digits
from the first one on that does not fit. -/
def absorb (significand : Nat) : List Char → Nat × List Char
  | [] => (significand, [])
  | digit :: rest =>
    let longer := 10 * significand + Digits.value [digit]
    if longer < UInt64.size then absorb longer rest else (significand, digit :: rest)

/-- The significand and the exponent of ten that the digits amount to. A digit left out of the whole
part moves the point, one left out of the fraction does not. -/
def decimal (literal : Literal) : Nat × Int :=
  let (leading, wholeLeft) := absorb 0 literal.whole
  let (significand, fractionLeft) := absorb leading literal.fraction
  let places : Int := literal.fraction.length - fractionLeft.length
  (significand, wholeLeft.length - places + literal.exponent.getD 0)

/-- The double that the digits lead to, unless it is too large. -/
def double? (literal : Literal) : Option Double :=
  let (significand, exponent) := literal.decimal
  Double.ofMagnitude? literal.negative (Double.ofDecimal significand exponent)

/-- The integer of a literal without fraction and exponent that is in range. Minus zero is none. -/
def integer? (literal : Literal) : Option Number :=
  if literal.fraction = [] ∧ literal.exponent = none then
    let size := Digits.value literal.whole
    if literal.negative then
      if inRange : 0 < size ∧ size ≤ 9223372036854775808 then
        some (.integer (-size) ⟨by omega, by omega⟩)
      else none
    else if inRange : size < 18446744073709551616 then
      some (.integer size ⟨by omega, by omega⟩)
    else none
  else none

/-- The number that a literal stands for; none when its size is beyond every double. -/
def number? (literal : Literal) : Option Number :=
  match literal.integer? with
  | some number => some number
  | none => literal.double?.map .double

end Literal

end ListQuery
