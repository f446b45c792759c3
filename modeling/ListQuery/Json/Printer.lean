/-
This file writes documents as text, in two forms: the compact one without any
blanks, which all parameters and bodies use, and the indented one for people.
-/

import ListQuery.Json.Basic
import ListQuery.Json.Quoted

namespace ListQuery

namespace Json

/-! ### The compact form -/

mutual

/-- The compact text of a document. -/
def write : Json → List Char
  | .null => ['n', 'u', 'l', 'l']
  | .boolean true => ['t', 'r', 'u', 'e']
  | .boolean false => ['f', 'a', 'l', 's', 'e']
  | .number value => value.text
  | .string text => Quoted.write text
  | .array items => '[' :: (writeItems items ++ [']'])
  | .object members => '\x7b' :: (writeMembers members ++ ['\x7d'])
termination_by structural document => document

/-- Items with commas between them. -/
def writeItems : List Json → List Char
  | [] => []
  | item :: rest => write item ++ writeMoreItems rest
termination_by structural items => items

/-- Items that follow others. -/
def writeMoreItems : List Json → List Char
  | [] => []
  | item :: rest => ',' :: (write item ++ writeMoreItems rest)
termination_by structural items => items

/-- Members with commas between them. -/
def writeMembers : List (String × Json) → List Char
  | [] => []
  | (name, value) :: rest => Quoted.write name ++ ':' :: (write value ++ writeMoreMembers rest)
termination_by structural members => members

/-- Members that follow others. -/
def writeMoreMembers : List (String × Json) → List Char
  | [] => []
  | (name, value) :: rest =>
    ',' :: (Quoted.write name ++ ':' :: (write value ++ writeMoreMembers rest))
termination_by structural members => members

end

/-- The compact text of a document as a string. -/
def text (document : Json) : String :=
  String.ofList document.write

/-! ### The indented form -/

/-- A new line with its indentation, two spaces a level. -/
def newLine (level : Nat) : List Char :=
  '\n' :: List.replicate (2 * level) ' '

mutual

/-- The indented text of a document that stands at a level. Empty containers stay on one line. -/
def writeIndented (level : Nat) : Json → List Char
  | .array (item :: rest) =>
    '[' :: (newLine (level + 1) ++ writeIndented (level + 1) item ++
      writeMoreIndentedItems level rest ++ newLine level ++ [']'])
  | .object ((name, value) :: rest) =>
    '\x7b' :: (newLine (level + 1) ++ Quoted.write name ++ [':', ' '] ++
      writeIndented (level + 1) value ++ writeMoreIndentedMembers level rest ++
      newLine level ++ ['\x7d'])
  | document => write document
termination_by structural document => document

/-- Items that follow others, each on a line of its own. -/
def writeMoreIndentedItems (level : Nat) : List Json → List Char
  | [] => []
  | item :: rest =>
    ',' :: (newLine (level + 1) ++ writeIndented (level + 1) item ++
      writeMoreIndentedItems level rest)
termination_by structural items => items

/-- Members that follow others, each on a line of its own. -/
def writeMoreIndentedMembers (level : Nat) : List (String × Json) → List Char
  | [] => []
  | (name, value) :: rest =>
    ',' :: (newLine (level + 1) ++ Quoted.write name ++ [':', ' '] ++
      writeIndented (level + 1) value ++ writeMoreIndentedMembers level rest)
termination_by structural members => members

end

/-- The indented text of a document as a string. -/
def indented (document : Json) : String :=
  String.ofList (document.writeIndented 0)

end Json

end ListQuery
