/-
This file parses outlines back into relation trees. What follows the brace after
a name decides the form of the scope: another brace starts a query, which is cut
off by counting brackets outside of strings and then decoded, and anything else
starts the nested relations. A fault holds the text that is left, so its position
is the length of the text before it.
-/

import ListQuery.Relation.Outline

namespace ListQuery

namespace Outline

/-- Why parsing stops: the outline nests too deep, or there is a fault before the text that is
left. -/
inductive Stop where
  | tooDeep
  | before (left : List Char) (fault : OutlineFault)

/-! ### Queries -/

/-- Where a scan of JSON text stands: between the parts of a document, in a string, or in a string
behind a backslash. -/
inductive Place where
  | between
  | quoted
  | escaped
deriving DecidableEq

/-- What a scan has seen: its place, and how many brackets are open. -/
structure Scan where
  place : Place
  opened : Nat
deriving DecidableEq

/-- Goes past one character; none when it closes the outermost bracket. Brackets of both kinds count
alike, as whether they match is for the decoder to see. -/
def Scan.step (scan : Scan) (char : Char) : Option Scan :=
  match scan.place with
  | .escaped => some { scan with place := .quoted }
  | .quoted =>
    if char = '\\' then some { scan with place := .escaped }
    else if char = '"' then some { scan with place := .between }
    else some scan
  | .between =>
    if char = '"' then some { scan with place := .quoted }
    else if char = '\x7b' ∨ char = '[' then some { scan with opened := scan.opened + 1 }
    else if char = '\x7d' ∨ char = ']' then
      if scan.opened ≤ 1 then none else some { scan with opened := scan.opened - 1 }
    else some scan

/-- Splits a text behind the bracket that closes the outermost one. -/
def splitBalanced (scan : Scan) : List Char → Option (List Char × List Char)
  | [] => none
  | char :: rest =>
    match scan.step char with
    | none => some ([char], rest)
    | some next =>
      (splitBalanced next rest).map fun (object, rest) => (char :: object, rest)

/-- The query at the start of a text, which is an opening brace. -/
def readQuery (text : List Char) : Except Stop (Query × List Char) :=
  match splitBalanced ⟨.between, 0⟩ text with
  | none => .error (.before text .unterminatedQuery)
  | some (object, rest) =>
    match Query.decoder.ofChars object with
    | .ok query => .ok (query, rest)
    | .error fault => .error (.before text (.invalidQuery fault))

/-! ### Relations -/

/-- The parts of a scope after its opening brace; `nested` reads the relations in it. -/
def readScope (nested : List Char → Except Stop (RelationTree × List Char)) (text : List Char) :
    Except Stop ((Option Query × Option RelationTree) × List Char) :=
  match text with
  | '\x7b' :: _ => do
    let (query, rest) ← readQuery text
    match rest with
    | ',' :: rest => do
      let (tree, rest) ← nested rest
      return ((some query, some tree), rest)
    | '\x7d' :: _ => return ((some query, none), rest)
    | _ => throw (.before rest .queryEndExpected)
  | _ => do
    let (tree, rest) ← nested text
    return ((none, some tree), rest)

/-- A relation with the scope behind its name, if there is one. -/
def readRelation (nested : List Char → Except Stop (RelationTree × List Char)) (text : List Char) :
    Except Stop (Relation × List Char) :=
  match text.takeWhile fun char => !isReserved char with
  | [] => .error (.before text .nameExpected)
  | chars =>
    let name := String.ofList chars
    match text.drop chars.length with
    | '\x7b' :: rest => do
      let ((query, tree), rest) ← readScope nested rest
      match rest with
      | '\x7d' :: rest => return (.refined name query tree, rest)
      | _ => throw (.before rest (.unclosed name))
    | rest => .ok (.plain name, rest)

/-- Relations with commas between them, put into a tree up to a closing brace or the end. Each takes
the text on, so `bound` is never used up when it is the length of the text. -/
def readRelations (relation : List Char → Except Stop (Relation × List Char)) :
    Nat → RelationTree → List Char → Except Stop (RelationTree × List Char)
  | 0, _, text => .error (.before text .nameExpected)
  | bound + 1, tree, text => do
    let (relation', rest) ← relation text
    let tree := tree.put relation'
    match rest with
    | [] => return (tree, rest)
    | char :: more =>
      if char = ',' then readRelations relation bound tree more
      else if char = '\x7d' then return (tree, rest)
      else throw (.before rest .separatorExpected)

/-- A tree at the start of a text, with trees at no more than `levels` levels. It is empty only when
nothing stands before the closing brace or the end. -/
def readTree : Nat → List Char → Except Stop (RelationTree × List Char)
  | 0, _ => .error .tooDeep
  | levels + 1, text =>
    match text with
    | [] => .ok (.empty, text)
    | char :: _ =>
      if char = '\x7d' then .ok (.empty, text)
      else readRelations (readRelation (readTree levels)) text.length .empty text

/-! ### Whole outlines -/

/-- The length of a text in bytes of UTF-8. -/
def byteCount : List Char → Nat
  | [] => 0
  | char :: rest => char.utf8Size + byteCount rest

/-- The fault that stopped the parsing of a text. -/
def faultOf (text : List Char) : Stop → QueryFault
  | .tooDeep => .shape .treeTooDeep
  | .before left fault => .parse (byteCount text - byteCount left) fault

/-- The tree that a whole text is the outline of. -/
def parse (text : List Char) : Except Stop RelationTree :=
  match readTree (maxNesting + 1) text with
  | .ok (tree, []) => .ok tree
  | .ok (_, left) => .error (.before left .strayBrace)
  | .error stop => .error stop

end Outline

/-- The tree that a string is the outline of. -/
def RelationTree.ofOutline (outline : String) : Except QueryFault RelationTree :=
  (Outline.parse outline.toList).mapError (Outline.faultOf outline.toList)

end ListQuery
