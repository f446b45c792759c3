/-
This file writes text into the query part of a request target. Every byte of the
UTF-8 form that is not a plain one is written as a percent sign and two
hexadecimal digits. Which bytes are plain is up to the one who writes; by custom
they are the printable ASCII characters that have no meaning of their own in a
query string, in JSON text or in a URL.
-/

namespace ListQuery

namespace Percent

/-- The printable ASCII characters that are escaped all the same. -/
def reserved : List Char :=
  ['"', '#', '$', '%', '&', '\x27', '+', ',', '/', ':', ';', '<', '=', '>', '?', '@', '[', '\\',
    ']', '^', '\x60', '\x7b', '|', '\x7d']

/-- Whether a byte stands for itself by custom. -/
def isPlain (byte : UInt8) : Bool :=
  0x21 ≤ byte.toNat && byte.toNat ≤ 0x7e && !reserved.contains (Char.ofNat byte.toNat)

/-- An upper-case hexadecimal digit. -/
def hexDigit (value : Nat) : Char :=
  Char.ofNat (if value < 10 then '0'.toNat + value else 'A'.toNat + (value - 10))

/-- One byte: itself if it is plain, or its escape. -/
def encodeByte (plain : UInt8 → Bool) (byte : UInt8) : List Char :=
  if plain byte then [Char.ofNat byte.toNat]
  else ['%', hexDigit (byte.toNat / 16), hexDigit (byte.toNat % 16)]

/-- A text as a key or a value of a query string. -/
def encode (plain : UInt8 → Bool) (text : String) : String :=
  String.ofList (text.toUTF8.data.toList.flatMap (encodeByte plain))

end Percent

end ListQuery
