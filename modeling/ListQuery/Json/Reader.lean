/-
This file reads documents from text. Reading takes a document off the front of a
text and leaves the rest, so the callers decide what may follow. A bound on the
containers that may be open at once makes the recursion structural. Values that
nobody asks for are skipped by a second reader, which knows the same grammar but
neither the bound nor any limit on numbers, and which joins no surrogates.
-/

import ListQuery.Json.Fault
import ListQuery.Json.Literal
import ListQuery.Json.Quoted

namespace ListQuery

namespace Json

/-! ### Blanks and punctuation -/

/-- The characters that may stand between the parts of a document. -/
def isBlank (char : Char) : Bool :=
  char = ' ' || char = '\t' || char = '\n' || char = '\r'

/-- A text from its first character on that is not blank. -/
def dropBlanks (text : List Char) : List Char :=
  text.dropWhile isBlank

/-- The text after a colon. -/
def readColon (text : List Char) : Except Fault (List Char) :=
  match dropBlanks text with
  | ':' :: rest => .ok rest
  | _ => .error .malformed

/-- The name of a member, and the text after it. -/
def readName (text : List Char) : Except Fault (String × List Char) :=
  match dropBlanks text with
  | '"' :: rest => Fault.require (Quoted.read? rest)
  | _ => .error .malformed

/-! ### Elements separated by commas -/

section Elements

variable {State : Type}

/-- Elements up to the closing bracket, of which there is at least one. Each takes the text on by at
least one character, so `bound` is never used up when it is the length of the text. -/
def foldMore (close : Char) (step : State → List Char → Except Fault (State × List Char)) :
    Nat → State → List Char → Except Fault (State × List Char)
  | 0, _, _ => .error .malformed
  | bound + 1, state, text => do
    let (state, rest) ← step state text
    match dropBlanks rest with
    | [] => .error .malformed
    | char :: rest =>
      if char = ',' then foldMore close step bound state rest
      else if char = close then .ok (state, rest)
      else .error .malformed

/-- Folds over the elements between an opening bracket, which has been read, and the closing one. -/
def foldElements (close : Char) (step : State → List Char → Except Fault (State × List Char))
    (state : State) (text : List Char) : Except Fault (State × List Char) :=
  match dropBlanks text with
  | [] => .error .malformed
  | char :: rest =>
    if char = close then .ok (state, rest)
    else foldMore close step (char :: rest).length state (char :: rest)

end Elements

/-! ### Documents -/

/-- The rest of a word, which stands for a document. -/
def readWord (word : List Char) (document : Json) (text : List Char) :
    Except Fault (Json × List Char) :=
  if word.isPrefixOf text then .ok (document, text.drop word.length) else .error .malformed

/-- A number at the start of a text. -/
def readNumber (text : List Char) : Except Fault (Json × List Char) := do
  let (literal, rest) ← Fault.require (Literal.read? text)
  let number ← Fault.require literal.number?
  return (.number number, rest)

/-- A document that is no container, at the start of a text. -/
def readScalar : List Char → Except Fault (Json × List Char)
  | 'n' :: rest => readWord ['u', 'l', 'l'] .null rest
  | 't' :: rest => readWord ['r', 'u', 'e'] (.boolean true) rest
  | 'f' :: rest => readWord ['a', 'l', 's', 'e'] (.boolean false) rest
  | '"' :: rest => do
    let (text, rest) ← Fault.require (Quoted.read? rest)
    return (.string text, rest)
  | text => readNumber text

/-- Adds an item to the ones before it, which are held in reverse; `value` reads it. -/
def readItem {Value : Type} (value : List Char → Except Fault (Value × List Char))
    (items : List Value) (text : List Char) : Except Fault (List Value × List Char) := do
  let (item, rest) ← value text
  return (item :: items, rest)

/-- Puts a member among the ones before it; `value` reads its value. A name that comes again keeps
its place and takes the later value. -/
def readMember (value : List Char → Except Fault (Json × List Char))
    (members : List (String × Json)) (text : List Char) :
    Except Fault (List (String × Json) × List Char) := do
  let (name, rest) ← readName text
  let rest ← readColon rest
  let (document, rest) ← value rest
  return (Keyed.put Prod.fst (name, document) members, rest)

/-- A document at the start of a text, blanks before it included, with at most `depth` containers
open at once. -/
def read : Nat → List Char → Except Fault (Json × List Char)
  | 0, text => readScalar (dropBlanks text)
  | depth + 1, text =>
    match dropBlanks text with
    | '[' :: rest => do
      let (items, rest) ← foldElements ']' (readItem (read depth)) [] rest
      return (.array items.reverse, rest)
    | '\x7b' :: rest => do
      let (members, rest) ← foldElements '\x7d' (readMember (read depth)) [] rest
      return (.object members, rest)
    | text => readScalar text

/-! ### Skipped values -/

/-- The text after a number, of any size. -/
def skipNumber (text : List Char) : Except Fault (List Char) := do
  let (_, rest) ← Fault.require (Literal.read? text)
  return rest

/-- The text after a string whose opening quote has been read. Halves of surrogate pairs may stand
alone. -/
def skipString (text : List Char) : Except Fault (List Char) := do
  let (_, rest) ← Fault.require (Quoted.codes? text)
  return rest

/-- The text after the name of a member. -/
def skipName (text : List Char) : Except Fault (List Char) :=
  match dropBlanks text with
  | '"' :: rest => skipString rest
  | _ => .error .malformed

/-- The text after a document that is no container. -/
def skipScalar : List Char → Except Fault (List Char)
  | '"' :: rest => skipString rest
  | 'n' :: rest => return (← readWord ['u', 'l', 'l'] .null rest).2
  | 't' :: rest => return (← readWord ['r', 'u', 'e'] .null rest).2
  | 'f' :: rest => return (← readWord ['a', 'l', 's', 'e'] .null rest).2
  | text => skipNumber text

/-- Goes past an item; `value` skips it. -/
def skipItem (value : List Char → Except Fault (List Char)) (_ : Unit) (text : List Char) :
    Except Fault (Unit × List Char) :=
  return ((), ← value text)

/-- Goes past a member; `value` skips its value. -/
def skipMember (value : List Char → Except Fault (List Char)) (_ : Unit) (text : List Char) :
    Except Fault (Unit × List Char) := do
  let rest ← skipName text
  let rest ← readColon rest
  return ((), ← value rest)

/-- The text after a document with at most `depth` containers open at once. -/
def skipWithin : Nat → List Char → Except Fault (List Char)
  | 0, text => skipScalar (dropBlanks text)
  | depth + 1, text =>
    match dropBlanks text with
    | '[' :: rest => return (← foldElements ']' (skipItem (skipWithin depth)) () rest).2
    | '\x7b' :: rest => return (← foldElements '\x7d' (skipMember (skipWithin depth)) () rest).2
    | text => skipScalar text

/-- The text after a document. Every container that is open has taken a character of the text, so
its length bounds them. -/
def skip (text : List Char) : Except Fault (List Char) :=
  skipWithin text.length text

/-! ### Whole texts -/

/-- How many containers may be open at once in a document that is read. -/
def maxOpen : Nat := 127

/-- Nothing but blanks is left of a text. -/
def finish (text : List Char) : Except Fault Unit :=
  if text.all isBlank then .ok () else .error .malformed

/-- The document that a whole text holds. -/
def ofText (text : String) : Except Fault Json := do
  let (document, rest) ← read maxOpen text.toList
  finish rest
  return document

end Json

end ListQuery
