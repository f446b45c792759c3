/-
This file holds counts, the numbers of rows and pages in requests and answers.
They are unsigned integers of 64 bits, in documents as well as in text. Decimal
digits are read in such words, one by one, and a number that does not fit is refused.
-/

import ListQuery.Json.Decoder

namespace ListQuery

/-- A number of rows or pages. -/
abbrev Count := UInt64

namespace Count

/-- The decoder of counts. -/
def decoder : Json.Decoder Count :=
  .word

/-- The document that stands for a count. -/
def toJson (count : Count) : Json :=
  .number (Number.ofWord count)

/-- The decimal text of a count. -/
def text (count : Count) : String :=
  String.ofList (Digits.ofNat count.toNat)

/-! ### Reading digits -/

/-- The product of two counts, unless it takes more than 64 bits. -/
def mul? (first second : Count) : Option Count :=
  if first.toBitVec.umulOverflow second.toBitVec then none else some (first * second)

/-- The sum of two counts, unless it takes more than 64 bits. -/
def add? (first second : Count) : Option Count :=
  if first.toBitVec.uaddOverflow second.toBitVec then none else some (first + second)

/-- The count with one more digit behind its decimal digits. There is none if the character is no
digit, or if 64 bits are too few. -/
def append? (count : Count) (char : Char) : Option Count := do
  let tens ← count.mul? 10
  if char.isDigit then tens.add? (UInt64.ofNat (char.toNat - '0'.toNat)) else none

/-- The count with some decimal digits, of which there is at least one, the first being the most
significant. -/
def ofDigits? : List Char → Option Count
  | [] => none
  | digits => digits.foldlM append? 0

end Count

end ListQuery
