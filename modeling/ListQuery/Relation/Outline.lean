/-
This file writes relation trees as outlines, the compact form that requests send.
A relation is its name, followed by its scope in braces: the JSON text of the
query, the outline of the nested relations, or both with a comma between them. A
scope without parts is left out. The outline of a tree that passes the check can
be parsed again, because no name holds a brace or a comma.
-/

import ListQuery.Relation.Basic
import ListQuery.Json.Printer

namespace ListQuery

/-! ### Writing -/

/-- Pieces with commas between them. -/
def separated (pieces : List (List Char)) : List Char :=
  [','].intercalate pieces

/-- The parts of a scope in braces, or nothing when there are none. -/
def enclosed : List (List Char) → List Char
  | [] => []
  | parts => '\x7b' :: (separated parts ++ ['\x7d'])

/-- The text of the query of a scope, if it has one. -/
def queryPart : Option Query → List (List Char)
  | none => []
  | some query => [query.toJson.write]

mutual

/-- The outline of a relation. -/
def Relation.outline : Relation → List Char
  | .plain name => name.toList
  | .refined name query nested => name.toList ++ enclosed (queryPart query ++ nestedPart nested)
termination_by structural relation => relation

/-- The outlines of the relations of a tree. -/
def RelationTree.outlines : RelationTree → List (List Char)
  | [] => []
  | relation :: rest => relation.outline :: RelationTree.outlines rest
termination_by structural tree => tree

/-- The outline of the nested relations of a scope, if it has any. -/
def nestedPart : Option RelationTree → List (List Char)
  | none => []
  | some tree => [separated (RelationTree.outlines tree)]
termination_by structural nested => nested

end

/-! ### Checking -/

/-- The characters that end a name in an outline. -/
def isReserved (char : Char) : Bool :=
  char = '\x7b' || char = '\x7d' || char = ','

/-- Checks that a name can stand in an outline. -/
def checkName (name : String) : Except ShapeFault Unit :=
  if name.isEmpty then .error .emptyName
  else if name.toList.any isReserved then .error (.reservedName name)
  else .ok ()

namespace RelationTree

/-- The outline of a tree. -/
def outline (tree : RelationTree) : List Char :=
  separated tree.outlines

/-- Checks the trees at no more than `levels` levels, in the order in which they are written. -/
def checkWithin : Nat → RelationTree → Except ShapeFault Unit
  | 0, _ => .error .treeTooDeep
  | levels + 1, tree =>
    tree.forM fun relation => do
      checkName relation.name
      match relation with
      | .plain _ => return ()
      | .refined _ query nested =>
        query.forM Query.check
        nested.forM (checkWithin levels)

/-- Checks that a tree can be sent: its names can stand in an outline, its queries have filters that
pass their own check, and the nesting stays within the limit. -/
def check (tree : RelationTree) : Except ShapeFault Unit :=
  checkWithin (maxNesting + 1) tree

/-- The outline of a tree that passes the check. -/
def toOutline (tree : RelationTree) : Except QueryFault String := do
  tree.check.mapError QueryFault.shape
  return String.ofList tree.outline

end RelationTree

end ListQuery
