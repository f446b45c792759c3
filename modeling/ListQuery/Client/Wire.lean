/-
This file holds the text of calls and answers on a connection that is closed
after one exchange. An answer is a status line and headers up to an empty line,
and then its body, which fills the rest of the connection unless the headers say
that it comes in chunks or give its length.
-/

import ListQuery.Client.Fetch

namespace ListQuery

namespace Wire

/-- The end of a line. -/
def lineEnd : String := "\r\n"

/-- The text of a call. -/
def call (call : Call) : String :=
  lineEnd.intercalate [call.requestLine, s!"host: {call.host}", s!"accept: {Call.accept}",
    "connection: close", "", ""]

/-- The text up to the first end of a line, and the text after it. -/
def splitLine : List UInt8 → Option (List UInt8 × List UInt8)
  | [] => none
  | 13 :: 10 :: rest => some ([], rest)
  | byte :: rest => (splitLine rest).map fun (line, rest) => (byte :: line, rest)

/-- A line as a string, a character for each byte. -/
def lineText (line : List UInt8) : String :=
  String.ofList (line.map fun byte => Char.ofNat byte.toNat)

/-- The lines up to the first empty one, and what follows that; there are at most `bound`. -/
def splitHead : Nat → List UInt8 → Option (List String × List UInt8)
  | 0, _ => none
  | bound + 1, bytes => do
    let (line, rest) ← splitLine bytes
    if line.isEmpty then return ([], rest)
    else
      let (lines, rest) ← splitHead bound rest
      return (lineText line :: lines, rest)

/-- The value of a header, by its name in lower case. -/
def header? (name : String) (lines : List String) : Option String :=
  lines.findSome? fun line =>
    match line.toList.span (· ≠ ':') with
    | (key, _ :: value) =>
      if (String.ofList key).toLower = name then some (String.ofList (Text.trim value)).toLower
      else none
    | _ => none

/-- The number that hexadecimal digits at the start of a line stand for. -/
def chunkSize (line : List UInt8) : Nat :=
  ((lineText line).toList.map Digits.hexValue?).takeWhile Option.isSome |>.foldl
    (fun size digit => 16 * size + digit.getD 0) 0

/-- The bytes of at most `bound` chunks, the last of which is empty. -/
def joinChunks : Nat → List UInt8 → Option (List UInt8)
  | 0, _ => none
  | bound + 1, bytes => do
    let (line, rest) ← splitLine bytes
    let size := chunkSize line
    if size = 0 then return []
    else
      let more ← joinChunks bound (rest.drop (size + 2))
      return rest.take size ++ more

/-- The bytes of a body. -/
def body? (lines : List String) (bytes : List UInt8) : Option (List UInt8) :=
  if header? "transfer-encoding" lines = some "chunked" then joinChunks bytes.length bytes
  else
    match (header? "content-length" lines).bind String.toNat? with
    | some length => some (bytes.take length)
    | none => some bytes

/-- The status in the first line of an answer. -/
def status? (line : String) : Option Status := do
  let code ← ((line.splitOn " ").drop 1).head?
  return ⟨← code.toNat?⟩

/-- The answer that a connection has brought. -/
def answer? (bytes : List UInt8) : Option Answer := do
  let (lines, rest) ← splitHead bytes.length bytes
  let status ← status? (← lines.head?)
  let body ← body? (lines.drop 1) rest
  let text ← String.fromUTF8? ⟨body.toArray⟩
  return .received status text

end Wire

end ListQuery
