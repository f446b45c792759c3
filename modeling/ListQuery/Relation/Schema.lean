/-
This file holds schemas, which say what relations an entity has and what the
related entities are, and the validation of relation trees against them.
-/

import ListQuery.Relation.Basic

namespace ListQuery

/-- An entity with its relations and the entities they lead to. -/
inductive Schema where
  | entity (relations : List (String × Schema))

namespace Schema

/-- The entity without relations. -/
def empty : Schema :=
  .entity []

/-- The relations of an entity. -/
def relations : Schema → List (String × Schema)
  | .entity relations => relations

/-- Declares a relation. Declaring a name again replaces what it led to. -/
def declare (schema : Schema) (name : String) (target : Schema) : Schema :=
  .entity (Keyed.put Prod.fst (name, target) schema.relations)

/-- The entity that a relation leads to. -/
def get? (schema : Schema) (name : String) : Option Schema :=
  (Keyed.find? Prod.fst name schema.relations).map Prod.snd

end Schema

mutual

/-- Checks a relation and everything nested below it against the entity that has it. -/
def Relation.validate (schema : Schema) : Relation → Except ShapeFault Unit
  | .plain name =>
    match schema.get? name with
    | some _ => .ok ()
    | none => .error (.unknownRelation name)
  | .refined name _ nested =>
    match schema.get? name with
    | some target => validateNested target nested
    | none => .error (.unknownRelation name)
termination_by structural relation => relation

/-- Checks a tree against its entity, each relation before the ones that follow it. -/
def RelationTree.validate (schema : Schema) : RelationTree → Except ShapeFault Unit
  | [] => .ok ()
  | relation :: rest => do
    relation.validate schema
    RelationTree.validate schema rest
termination_by structural tree => tree

/-- Checks the nested relations of a scope, if it has any. -/
def validateNested (schema : Schema) : Option RelationTree → Except ShapeFault Unit
  | none => .ok ()
  | some tree => RelationTree.validate schema tree
termination_by structural nested => nested

end

end ListQuery
