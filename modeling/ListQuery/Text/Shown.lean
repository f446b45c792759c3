/-
This file quotes a string for a message. Quotes, backslashes and the common
control characters get short escapes, every other hidden character is shown by
its code point in braces, and an apostrophe stays as it is.
-/

import ListQuery.Text.Digits
import ListQuery.Text.Hidden

namespace ListQuery

namespace Text

/-- One character inside a quoted text. -/
def shownChar (char : Char) : List Char :=
  if char = '\x00' then ['\\', '0']
  else if char = '\t' then ['\\', 't']
  else if char = '\r' then ['\\', 'r']
  else if char = '\n' then ['\\', 'n']
  else if char = '\\' ∨ char = '"' then ['\\', char]
  else if isHidden char then ['\\', 'u', '\x7b'] ++ Digits.hex char.toNat ++ ['\x7d']
  else [char]

/-- A string in double quotes, as messages show it. -/
def shown (text : String) : String :=
  String.ofList ('"' :: (text.toList.flatMap shownChar ++ ['"']))

end Text

end ListQuery
