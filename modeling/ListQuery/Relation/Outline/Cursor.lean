/-
This file follows the parsing of outlines over the bytes of the input. A run stands at
a position, which counts bytes, and looks at single bytes or takes pieces of the input
as text. It logs what it does: where it moves, which pieces it takes, from where it
takes the count of open brackets down, and how far its loop and its recursion get. A
piece that does not start and end at a character, or a count below zero, ends the run
in a way of its own, and so does fuel that is used up.
-/

import ListQuery.Relation.Outline.Parser

namespace ListQuery

namespace Outline

/-- What a run does on its way. -/
inductive Event where
  /-- It moves to a position. -/
  | moved (position : Nat)
  /-- It takes the piece of the input between two positions. -/
  | sliced (start stop : Nat)
  /-- It takes down the count of open brackets, from this many. -/
  | closed (opened : Nat)
  /-- A turn of its loop has read a relation, from one position to another. -/
  | turned (start stop : Nat)
  /-- It goes into the relations nested in a relation that starts at a position. -/
  | entered (start inner : Nat)
deriving DecidableEq

/-- Where a run stands, and what it has done so far, the last thing first. -/
structure Cursor where
  position : Nat
  log : List Event
deriving DecidableEq

/-- Why a run ends without a value. -/
inductive Halt where
  | fault (fault : QueryFault)
  /-- A piece does not start and end at characters, or a count falls below zero. -/
  | panic
  /-- The fuel is used up. -/
  | unfinished
deriving DecidableEq

/-- A run over the bytes of an input. Where it stands is known also when it ends without a value. -/
abbrev Run := EStateM Halt Cursor

/-- The bytes of an input. -/
def bytes (input : String) : List UInt8 :=
  input.toUTF8.data.toList

namespace Run

/-! ### Steps -/

/-- Adds to the log. -/
def note (event : Event) : Run Unit :=
  modify fun cursor => { cursor with log := event :: cursor.log }

/-- Where the run stands. -/
def position : Run Nat :=
  return (← get).position

/-- Moves to a position. -/
def moveTo (position : Nat) : Run Unit :=
  modify fun cursor => ⟨position, .moved position :: cursor.log⟩

/-- Moves on by one byte. -/
def advance : Run Unit := do
  moveTo ((← position) + 1)

/-- Ends the run with a fault at a position. -/
def failAt {Value : Type} (position : Nat) (fault : OutlineFault) : Run Value :=
  throw (.fault (.parse position fault))

section Parsing

variable (input : String)

/-- The byte at the position. -/
def peek : Run (Option UInt8) :=
  return (bytes input)[← position]?

/-- The piece of the input between two positions. -/
def slice (start stop : Nat) : Run String := do
  note (.sliced start stop)
  match input.pos? ⟨start⟩, input.pos? ⟨stop⟩ with
  | some first, some last =>
    if first ≤ last then return input.extract first last else throw .panic
  | _, _ => throw .panic

/-! ### Queries -/

/-- Goes past one byte; none when it closes the outermost bracket. -/
def scanByte (scan : Scan) (byte : UInt8) : Run (Option Scan) :=
  match scan.place with
  | .escaped => return some { scan with place := .quoted }
  | .quoted =>
    if byte = '\\'.toUInt8 then return some { scan with place := .escaped }
    else if byte = '"'.toUInt8 then return some { scan with place := .between }
    else return some scan
  | .between =>
    if byte = '"'.toUInt8 then return some { scan with place := .quoted }
    else if byte = '\x7b'.toUInt8 ∨ byte = '['.toUInt8 then
      return some { scan with opened := scan.opened + 1 }
    else if byte = '\x7d'.toUInt8 ∨ byte = ']'.toUInt8 then do
      note (.closed scan.opened)
      match scan.opened with
      | 0 => throw .panic
      | 1 => return none
      | opened + 2 => return some { scan with opened := opened + 1 }
    else return some scan

/-- The position behind the bracket that closes the outermost one, in bytes that start at a
position. -/
def scanBytes : Nat → Scan → List UInt8 → Run (Option Nat)
  | _, _, [] => return none
  | start, scan, byte :: rest => do
    match ← scanByte scan byte with
    | none => return some (start + 1)
    | some next => scanBytes (start + 1) next rest

/-- The bytes of the input from a position on. -/
def bytesFrom (start : Nat) : Run (List UInt8) :=
  if (bytes input).length < start then throw .panic else return (bytes input).drop start

/-- The query that starts at a position, when its end has been found. The run moves only when there
is one. -/
def queryTo (start : Nat) : Option Nat → Run Query
  | none => failAt start .unterminatedQuery
  | some stop => do
    let object ← slice input start stop
    match Query.decoder.ofText object with
    | .ok query =>
      moveTo stop
      return query
    | .error fault => failAt start (.invalidQuery fault)

/-- The query at the position, where a brace opens. -/
def query : Run Query := do
  let start ← position
  let left ← bytesFrom input start
  let stop ← scanBytes start ⟨.between, 0⟩ left
  queryTo input start stop

/-! ### Relations -/

/-- The name at the position, up to the first reserved character or the end. -/
def name : Run String := do
  let start ← position
  let left ← slice input start input.utf8ByteSize
  let length := byteCount (left.toList.takeWhile fun char => !isReserved char)
  if length = 0 then failAt start .nameExpected
  else
    moveTo (start + length)
    slice input start (start + length)

/-- Goes into the nested relations of the relation that starts at a position. -/
def enter (nested : Run RelationTree) (start : Nat) : Run RelationTree := do
  note (.entered start (← position))
  nested

/-- The parts of a scope whose query has been read. -/
def scopeBehind (nested : Run RelationTree) (start : Nat) (query : Query) :
    Run (Option Query × Option RelationTree) := do
  let next ← peek input
  if next = some ','.toUInt8 then
    advance
    return (some query, some (← enter nested start))
  else if next = some '\x7d'.toUInt8 then return (some query, none)
  else failAt (← position) .queryEndExpected

/-- The parts of the scope of a relation that starts at a position. -/
def scope (nested : Run RelationTree) (start : Nat) :
    Run (Option Query × Option RelationTree) := do
  if (← peek input) = some '\x7b'.toUInt8 then
    scopeBehind input nested start (← query input)
  else return (none, some (← enter nested start))

/-- The relation with a name, which starts at a position, when the brace of its scope has been
passed. -/
def refined (nested : Run RelationTree) (start : Nat) (name : String) : Run Relation := do
  let (query, tree) ← scope input nested start
  if (← peek input) = some '\x7d'.toUInt8 then
    advance
    return .refined name query tree
  else failAt (← position) (.unclosed name)

/-- The relation at the position; `nested` reads the relations in its scope. -/
def relation (nested : Run RelationTree) : Run Relation := do
  let start ← position
  let name ← name input
  if (← peek input) = some '\x7b'.toUInt8 then
    advance
    refined input nested start name
  else return .plain name

/-- Relations with commas between them, put into a tree up to a closing brace or the end. -/
def relations (relation : Run Relation) : Nat → RelationTree → Run RelationTree
  | 0, _ => throw .unfinished
  | fuel + 1, tree => do
    let start ← position
    let found ← relation
    note (.turned start (← position))
    let next ← peek input
    if next = some ','.toUInt8 then
      advance
      relations relation fuel (tree.put found)
    else if next = none ∨ next = some '\x7d'.toUInt8 then return tree.put found
    else failAt (← position) .separatorExpected

/-- The tree at the position, which lies under so many braces. -/
def tree : Nat → Nat → Run RelationTree
  | 0, _ => throw .unfinished
  | fuel + 1, depth => do
    if maxNesting < depth then throw (.fault (.shape .treeTooDeep))
    else
      let next ← peek input
      if next = none ∨ next = some '\x7d'.toUInt8 then return .empty
      else relations input (relation input (tree fuel (depth + 1))) (fuel + 1) .empty

/-- The tree that the whole input is the outline of. -/
def outline (fuel : Nat) : Run RelationTree := do
  let tree ← tree input fuel 0
  let stop ← position
  if stop < input.utf8ByteSize then failAt stop .strayBrace
  else return tree

end Parsing

end Run

end Outline

end ListQuery
