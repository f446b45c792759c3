/-
This file defines relation trees: the relations of an entity to include in an
answer, each either as it is or scoped by a query and by the relations to include
below it. A relation put under a name that is taken replaces the old one in place.
-/

import ListQuery.Query

namespace ListQuery

/-- One included relation. A scope may leave out its query and its nested relations; it is then not
the same as no scope, though it asks for nothing. -/
inductive Relation where
  | plain (name : String)
  | refined (name : String) (query : Option Query) (nested : Option (List Relation))

/-- The relations included at one level, in order. -/
abbrev RelationTree := List Relation

/-- The name of a relation. -/
def Relation.name : Relation → String
  | .plain name => name
  | .refined name _ _ => name

namespace RelationTree

/-- The tree without relations. -/
def empty : RelationTree := []

/-- Puts a relation in the place of the one with the same name, or at the end. -/
def put (tree : RelationTree) (relation : Relation) : RelationTree :=
  Keyed.put Relation.name relation tree

/-- Includes a relation as it is. -/
def plain (tree : RelationTree) (name : String) : RelationTree :=
  tree.put (.plain name)

/-- Includes a relation under a scope. -/
def refined (tree : RelationTree) (name : String) (query : Option Query)
    (nested : Option RelationTree) : RelationTree :=
  tree.put (.refined name query nested)

/-- The relation with a name. -/
def get? (tree : RelationTree) (name : String) : Option Relation :=
  Keyed.find? Relation.name name tree

end RelationTree

/-! ### Equality up to the order of members in values -/

/-- Whether two optional queries are both missing or the same. -/
def sameQuery : Option Query → Option Query → Bool
  | none, none => true
  | some first, some second => first.same second
  | _, _ => false

mutual

/-- Whether two relations have the same name and the same scope. -/
def Relation.same : Relation → Relation → Bool
  | .plain name, .plain otherName => name == otherName
  | .refined name query nested, .refined otherName otherQuery otherNested =>
    name == otherName && sameQuery query otherQuery && sameNested nested otherNested
  | _, _ => false
termination_by structural relation => relation

/-- Whether two trees hold the same relations in the same order. -/
def RelationTree.same : RelationTree → RelationTree → Bool
  | [], [] => true
  | relation :: rest, otherRelation :: otherRest =>
    relation.same otherRelation && RelationTree.same rest otherRest
  | _, _ => false
termination_by structural tree => tree

/-- Whether two optional trees are both missing or the same. -/
def sameNested : Option RelationTree → Option RelationTree → Bool
  | none, none => true
  | some tree, some otherTree => RelationTree.same tree otherTree
  | _, _ => false
termination_by structural nested => nested

end

end ListQuery
