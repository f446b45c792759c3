/-
This file tells messages from the locations they end with. Readers of documents
hand their complaints on in plain words, and words that end in a line and a
column are about that location. It is taken off when a complaint comes in, and
written again, in one way, only where the location is wanted.
-/

import ListQuery.Text.Digits

namespace ListQuery

/-- A line and a column of a text. -/
structure Location where
  line : Nat
  column : Nat
deriving DecidableEq

namespace Location

/-- How a message about a location ends. Lines count from one, so line zero stands for a location
that is not known and is not written. -/
def tail (location : Location) : String :=
  if location.line = 0 then ""
  else s!" at line {location.line} column {location.column}"

/-! ### Taking a location off a message

The end of a message is read backward, from its last character on. -/

/-- The number that a backward text starts with, and what follows it. The number has to fit 64
bits. -/
def numberBackward? (backward : List Char) : Option (Nat × List Char) :=
  let digits := (backward.takeWhile Char.isDigit).reverse
  if digits ≠ [] ∧ Digits.value digits < UInt64.size then
    some (Digits.value digits, backward.dropWhile Char.isDigit)
  else none

/-- What follows a phrase that a backward text starts with. -/
def phraseBackward? (phrase : String) (backward : List Char) : Option (List Char) :=
  phrase.toList.reverse.isPrefixOf? backward

/-- A message without the location that it ends with, and that location. -/
def split? (message : String) : Option (String × Location) := do
  let (column, backward) ← numberBackward? message.toList.reverse
  let backward ← phraseBackward? " column " backward
  let (line, backward) ← numberBackward? backward
  let backward ← phraseBackward? " at line " backward
  return (String.ofList backward.reverse, ⟨line, column⟩)

end Location

end ListQuery
