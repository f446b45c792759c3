/-
This file relates relation trees to documents: an object with a member for each
relation, which is `true` or an object with the scope.
-/

import ListQuery.Relation.Basic

namespace ListQuery

/-! ### Decoding -/

namespace Relation

/-- Takes one member of a scope; `decode` is used for the nested relations. A part that is null is
left out. -/
def takeScopeMember (decode : Json → Except ShapeFault RelationTree)
    (scope : Option Query × Option RelationTree) (member : String × Json) :
    Except ShapeFault (Option Query × Option RelationTree) :=
  match member with
  | ("query", .null) => .ok scope
  | ("nested", .null) => .ok scope
  | ("query", value) => do
    let query ← (Query.decoder.ofJson value).mapError .relationQuery
    return (some query, scope.2)
  | ("nested", value) => return (scope.1, some (← decode value))
  | (key, _) => .error (.unexpectedKey key)

/-- The relation that a member of a tree stands for; `decode` is used for the nested relations. -/
def ofMember (decode : Json → Except ShapeFault RelationTree) (name : String) :
    Json → Except ShapeFault Relation
  | .boolean true => .ok (.plain name)
  | .object members => do
    let (query, nested) ← members.foldlM (takeScopeMember decode) (none, none)
    return .refined name query nested
  | _ => .error (.relationMalformed name)

end Relation

namespace RelationTree

/-- The tree that a document stands for, with trees at no more than `levels` levels. -/
def ofJsonWithin : Nat → Json → Except ShapeFault RelationTree
  | 0, _ => .error .treeTooDeep
  | levels + 1, .object members =>
    members.foldlM (fun tree member =>
      return tree.put (← Relation.ofMember (ofJsonWithin levels) member.1 member.2)) empty
  | _ + 1, _ => .error .treeNotObject

/-- The tree that a document stands for. -/
def ofJson (document : Json) : Except ShapeFault RelationTree :=
  ofJsonWithin (maxNesting + 1) document

/-- The decoder of relation trees. -/
def decoder : Json.Decoder RelationTree :=
  .whole fun document => (ofJson document).mapError QueryFault.inDocument

end RelationTree

/-! ### Encoding -/

/-- The member that stands for the query of a scope, if it has one. -/
def queryMember : Option Query → List (String × Json)
  | none => []
  | some query => [("query", query.toJson)]

mutual

/-- The value that stands for a relation under its name. -/
def Relation.toJson : Relation → Json
  | .plain _ => .boolean true
  | .refined _ query nested => .object (queryMember query ++ nestedMember nested)
termination_by structural relation => relation

/-- The members that stand for the relations of a tree. -/
def RelationTree.toMembers : RelationTree → List (String × Json)
  | [] => []
  | relation :: rest => (relation.name, relation.toJson) :: RelationTree.toMembers rest
termination_by structural tree => tree

/-- The member that stands for the nested relations of a scope, if it has any. -/
def nestedMember : Option RelationTree → List (String × Json)
  | none => []
  | some tree => [("nested", .object (RelationTree.toMembers tree))]
termination_by structural nested => nested

end

/-- The document that stands for a tree. -/
def RelationTree.toJson (tree : RelationTree) : Json :=
  .object tree.toMembers

end ListQuery
