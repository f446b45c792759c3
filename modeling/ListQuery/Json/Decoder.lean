/-
This file defines decoders. A decoder reads values of one type in two ways: out
of a document that has been read whole, and straight from text, where the first
problem met on the way is the one reported. The combinators build both ways at
once, so a type says only once how it is read.
-/

import ListQuery.Json.Reader

namespace ListQuery

namespace Json

/-- A way to read values of one type. From text it takes the value off the front, blanks before it
included, with a bound on the containers that may be open at once. -/
structure Decoder (Value : Type) where
  ofJson : Json → Except Fault Value
  read : Nat → List Char → Except Fault (Value × List Char)

namespace Decoder

variable {Value Other : Type}

/-- The value that a whole text holds, given by its characters. -/
def ofChars (decoder : Decoder Value) (text : List Char) : Except Fault Value := do
  let (value, rest) ← decoder.read maxOpen text
  finish rest
  return value

/-- The value that a whole text holds. -/
def ofText (decoder : Decoder Value) (text : String) : Except Fault Value :=
  decoder.ofChars text.toList

/-- Changes what a decoder gives. -/
def map (change : Value → Other) (decoder : Decoder Value) : Decoder Other where
  ofJson document := return change (← decoder.ofJson document)
  read depth text := do
    let (value, rest) ← decoder.read depth text
    return (change value, rest)

/-! ### Wrong types -/

/-- The fault of a document that is not what its place asks for. -/
def unexpected (expected : Expected) (document : Json) : Fault :=
  .wrongType (Found.ofJson document) expected

/-- The fault of a text that does not start with what its place asks for. A container is refused at
its opening bracket, and any other document once it has been read. -/
def mismatch (expected : Expected) (text : List Char) : Fault :=
  match text with
  | '[' :: _ => .wrongType .sequence expected
  | '\x7b' :: _ => .wrongType .map expected
  | text =>
    match readScalar text with
    | .ok (document, _) => unexpected expected document
    | .error fault => fault

/-! ### Single values -/

/-- Any document. -/
def any : Decoder Json where
  ofJson document := .ok document
  read := Json.read

/-- A document that is read whole before its contents are looked at. -/
def whole (convert : Json → Except Fault Value) : Decoder Value where
  ofJson := convert
  read depth text := do
    let (document, rest) ← Json.read depth text
    return (← convert document, rest)

/-- An object that is read whole before its members are looked at. -/
def members (convert : List (String × Json) → Except Fault Value) : Decoder Value where
  ofJson
    | .object members => convert members
    | document => .error (unexpected .map document)
  read depth text :=
    match dropBlanks text with
    | '\x7b' :: rest => do
      match ← Json.read depth ('\x7b' :: rest) with
      | (.object members, rest) => return (← convert members, rest)
      | (document, _) => throw (unexpected .map document)
    | text => .error (mismatch .map text)

/-- A document that is no container, accepted or refused once it has been read. -/
def scalar (expected : Expected) (accept : Json → Except Fault Value) : Decoder Value where
  ofJson := accept
  read _ text :=
    match dropBlanks text with
    | '[' :: _ => .error (.wrongType .sequence expected)
    | '\x7b' :: _ => .error (.wrongType .map expected)
    | text => do
      let (document, rest) ← readScalar text
      return (← accept document, rest)

/-- An unsigned integer of 64 bits. -/
def word : Decoder UInt64 :=
  scalar .word fun
    | .number (.integer value inRange) =>
      if 0 ≤ value then .ok (UInt64.ofNat value.toNat)
      else .error (.wrongValue (.number (.integer value inRange)) .word)
    | document => .error (unexpected .word document)

/-- An unsigned integer of 8 bits. -/
def byte : Decoder UInt8 :=
  scalar .byte fun
    | .number (.integer value inRange) =>
      if 0 ≤ value ∧ value < 256 then .ok (UInt8.ofNat value.toNat)
      else .error (.wrongValue (.number (.integer value inRange)) .byte)
    | document => .error (unexpected .byte document)

/-- A string. -/
def string : Decoder String :=
  scalar .string fun
    | .string text => .ok text
    | document => .error (unexpected .string document)

/-! ### Combinations -/

/-- A value, or null in place of none. -/
def nullable (decoder : Decoder Value) : Decoder (Option Value) where
  ofJson
    | .null => .ok none
    | document => return some (← decoder.ofJson document)
  read depth text :=
    match dropBlanks text with
    | 'n' :: rest => return (none, (← readWord ['u', 'l', 'l'] .null rest).2)
    | text => do
      let (value, rest) ← decoder.read depth text
      return (some value, rest)

/-- An array of values. -/
def list (decoder : Decoder Value) : Decoder (List Value) where
  ofJson
    | .array items => items.mapM decoder.ofJson
    | document => .error (unexpected .sequence document)
  read depth text :=
    match depth, dropBlanks text with
    | 0, '[' :: _ => .error .malformed
    | depth + 1, '[' :: rest => do
      let (values, rest) ← foldElements ']' (readItem (decoder.read depth)) [] rest
      return (values.reverse, rest)
    | _, text => .error (mismatch .sequence text)

end Decoder

end Json

end ListQuery
