/-
This file reads and writes the strings of JSON text. A string is read in two
steps: its characters and escapes become code numbers, where an escape may also
give half of a surrogate pair, and the numbers are then joined into characters,
which fails when a half stands alone. A reader that only skips a string stops
after the first step.
-/

import ListQuery.Text.Digits

namespace ListQuery

namespace Quoted

/-! ### Reading -/

/-- The code number of an escape of one letter. -/
def shortEscape? (letter : Char) : Option Nat :=
  match letter with
  | '"' => some 0x22
  | '\\' => some 0x5c
  | '/' => some 0x2f
  | 'b' => some 0x08
  | 'f' => some 0x0c
  | 'n' => some 0x0a
  | 'r' => some 0x0d
  | 't' => some 0x09
  | _ => none

/-- The code numbers up to the closing quote, and the text after it. Control characters have to be
escaped. -/
def codes? : List Char → Option (List Nat × List Char)
  | [] => none
  | '"' :: rest => some ([], rest)
  | '\\' :: 'u' :: first :: second :: third :: fourth :: rest => do
    let code ← Digits.hexValue4? first second third fourth
    let (codes, rest) ← codes? rest
    return (code :: codes, rest)
  | '\\' :: letter :: rest => do
    let code ← shortEscape? letter
    let (codes, rest) ← codes? rest
    return (code :: codes, rest)
  | char :: rest =>
    if char.toNat < 0x20 then none
    else do
      let (codes, rest) ← codes? rest
      return (char.toNat :: codes, rest)

/-- Whether a code number is the first half of a surrogate pair. -/
def isLeading (code : Nat) : Bool :=
  0xd800 ≤ code && code < 0xdc00

/-- Whether a code number is the second half of a surrogate pair. -/
def isTrailing (code : Nat) : Bool :=
  0xdc00 ≤ code && code < 0xe000

/-- Joins surrogate pairs. Only escapes give such halves, so a pair is always one of two escapes. -/
def join? : List Nat → Option (List Char)
  | [] => some []
  | [code] => if isLeading code || isTrailing code then none else some [Char.ofNat code]
  | code :: next :: rest =>
    if isLeading code then
      if isTrailing next then do
        let chars ← join? rest
        return Char.ofNat (0x10000 + (code - 0xd800) * 0x400 + (next - 0xdc00)) :: chars
      else none
    else if isTrailing code then none
    else do
      let chars ← join? (next :: rest)
      return Char.ofNat code :: chars

/-- The string up to the closing quote, and the text after it. -/
def read? (text : List Char) : Option (String × List Char) := do
  let (codes, rest) ← codes? text
  let chars ← join? codes
  return (String.ofList chars, rest)

/-! ### Writing -/

/-- One character inside a written string. -/
def writeChar (char : Char) : List Char :=
  if char = '"' ∨ char = '\\' then ['\\', char]
  else if char = '\x08' then ['\\', 'b']
  else if char = '\x0c' then ['\\', 'f']
  else if char = '\n' then ['\\', 'n']
  else if char = '\r' then ['\\', 'r']
  else if char = '\t' then ['\\', 't']
  else if char.toNat < 0x20 then
    ['\\', 'u', '0', '0', Nat.digitChar (char.toNat / 16), Nat.digitChar (char.toNat % 16)]
  else [char]

/-- A string in quotes; everything but quotes, backslashes and control characters stands for
itself. -/
def write (text : String) : List Char :=
  '"' :: (text.toList.flatMap writeChar ++ ['"'])

end Quoted

end ListQuery
