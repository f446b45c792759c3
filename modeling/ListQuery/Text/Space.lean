/-
This file trims white space in the sense of the Unicode property White_Space,
which has 25 characters. Settings from the environment and the input of the
command line are trimmed with it; JSON text has a narrower set of its own.
-/

namespace ListQuery

namespace Text

/-- The characters with the property White_Space. -/
def spaces : List Char :=
  ['\t', '\n', '\x0b', '\x0c', '\r', ' ', '\u0085', '\u00a0', '\u1680', '\u2000', '\u2001',
    '\u2002', '\u2003', '\u2004', '\u2005', '\u2006', '\u2007', '\u2008', '\u2009', '\u200a',
    '\u2028', '\u2029', '\u202f', '\u205f', '\u3000']

/-- Whether a character has the property White_Space. -/
def isSpace (char : Char) : Bool :=
  spaces.contains char

/-- A text without the white space at its two ends. -/
def trim (text : List Char) : List Char :=
  ((text.dropWhile isSpace).reverse.dropWhile isSpace).reverse

/-- Whether a text is empty or white space only. -/
def isBlank (text : String) : Bool :=
  text.toList.all isSpace

end Text

end ListQuery
