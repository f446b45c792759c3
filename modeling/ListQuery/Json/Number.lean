/-
This file holds the numbers of JSON documents and their text. A number is an
integer when it is written without fraction and exponent and fits a signed or an
unsigned word of 64 bits, else a double; the two kinds never compare equal.
-/

import ListQuery.Json.Shortest
import ListQuery.Text.Digits

namespace ListQuery

/-- A number of a document. Integers go from -2^63 to 2^64 - 1. -/
inductive Number where
  | integer (value : Int) (inRange : -9223372036854775808 ≤ value ∧ value < 18446744073709551616)
  | double (value : Double)
deriving DecidableEq

namespace Number

/-- The integer of an unsigned word. -/
def ofWord (word : UInt64) : Number :=
  .integer word.toNat ⟨by omega, by have := word.toNat_lt; omega⟩

/-- Equality of values within one kind: `0.0` and `-0.0` are the same number, but `1` and `1.0` are
not. -/
def same : Number → Number → Bool
  | .integer first _, .integer second _ => first == second
  | .double first, .double second => first.same second
  | _, _ => false

/-! ### The text of a double -/

/-- The exponents of the leading digit that are written without an exponent part. -/
def positional (exponent : Int) : Bool :=
  -5 ≤ exponent && exponent ≤ 15

/-- Digits with a point and no exponent part; a whole number ends in `.0`. -/
def positionalText (digits : List Char) (exponent : Int) : List Char :=
  if 0 ≤ exponent then digits ++ List.replicate exponent.toNat '0' ++ ['.', '0']
  else
    let whole := (digits.length + exponent).toNat
    if 0 < whole then digits.take whole ++ '.' :: digits.drop whole
    else '0' :: '.' :: (List.replicate ((-exponent).toNat - digits.length) '0' ++ digits)

/-- One digit before the point, none after it when it is the only one, and a signed exponent. -/
def scientificText (digits : List Char) (exponent : Int) : List Char :=
  let fraction := match digits.drop 1 with
    | [] => []
    | rest => '.' :: rest
  let sign := if exponent < 0 then '-' else '+'
  digits.take 1 ++ fraction ++ 'e' :: sign :: Digits.ofNat exponent.natAbs

/-- The text of a double: its shortest digits, in the one of the two forms that its size asks
for. -/
def doubleText (double : Double) : List Char :=
  let shortest := Double.shortest double.magnitude
  let digits := Digits.ofNat shortest.digits
  let exponent := shortest.exponent + digits.length - 1
  let text := if positional exponent then positionalText digits shortest.exponent
    else scientificText digits exponent
  if double.negative then '-' :: text else text

/-- The text of a number. -/
def text : Number → List Char
  | .integer value _ => Digits.ofInt value
  | .double value => doubleText value

end Number

end ListQuery
