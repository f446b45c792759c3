/-
This file says which relation trees builders make, and what becomes of a tree whose
outline is parsed again. An outline has no form for a scope without parts, so such
a scope is read as none at all; otherwise a tree keeps its relations in order, and
only its queries are read back by laws of their own.
-/

import ListQuery.Proofs.Query.RoundTrip
import ListQuery.Relation.Document
import ListQuery.Relation.Outline

namespace ListQuery

/-! ### Parts of relations -/

namespace Relation

/-- The query in the scope of a relation. -/
def query? : Relation → Option Query
  | .plain _ => none
  | .refined _ query _ => query

/-- The relations nested in the scope of a relation. -/
def nested? : Relation → Option RelationTree
  | .plain _ => none
  | .refined _ _ nested => nested

end Relation

mutual

/-- The queries in a relation and in everything nested below it. -/
def Relation.queries : Relation → List Query
  | .plain _ => []
  | .refined _ query nested => query.toList ++ nestedQueries nested
termination_by structural relation => relation

/-- The queries at all levels of a tree. -/
def RelationTree.queries : RelationTree → List Query
  | [] => []
  | relation :: rest => relation.queries ++ RelationTree.queries rest
termination_by structural tree => tree

/-- The queries in the nested relations of a scope, if it has any. -/
def nestedQueries : Option RelationTree → List Query
  | none => []
  | some tree => RelationTree.queries tree
termination_by structural nested => nested

end

theorem RelationTree.queries_eq_flatMap (tree : RelationTree) :
    tree.queries = tree.flatMap Relation.queries := by
  induction tree with
  | nil => rfl
  | cons relation rest inductionHypothesis =>
    rw [RelationTree.queries, inductionHypothesis, List.flatMap_cons]

theorem RelationTree.queries_of_mem {tree : RelationTree} {relation : Relation}
    (member : relation ∈ tree) {query : Query} (held : query ∈ relation.queries) :
    query ∈ tree.queries := by
  rw [RelationTree.queries_eq_flatMap]
  exact List.mem_flatMap.mpr ⟨relation, member, held⟩

/-- The queries of a relation are the one in its scope and those of its nested relations. -/
theorem Relation.mem_queries {relation : Relation} {query : Query} :
    query ∈ relation.queries ↔ relation.query? = some query ∨
      ∃ inner, relation.nested? = some inner ∧ query ∈ RelationTree.queries inner := by
  cases relation with
  | plain name =>
    exact ⟨nofun, fun held => by rcases held with found | ⟨_, found, _⟩ <;> cases found⟩
  | refined name found nested =>
    rw [queries, List.mem_append, Option.mem_toList]
    refine or_congr Iff.rfl ?_
    cases nested with
    | none => exact ⟨nofun, fun ⟨_, given, _⟩ => by cases given⟩
    | some tree =>
      simp only [nestedQueries, nested?, Option.some.injEq, exists_eq_left']

/-! ### Trees as builders make them -/

/-- The filter of a query is made by builders, if it has one. -/
def Query.Built (query : Query) : Prop :=
  ∀ filter, query.filter = some filter → filter.Built

namespace RelationTree

/-- The trees that a run of builders makes, with queries and trees made in the same way inside
their scopes. -/
inductive Built : RelationTree → Prop
  | empty : Built RelationTree.empty
  | plain {tree : RelationTree} (name : String) (built : Built tree) : Built (tree.plain name)
  | refined {tree : RelationTree} (name : String) (query : Option Query)
      (nested : Option RelationTree) (built : Built tree)
      (queryBuilt : ∀ present, query = some present → present.Built)
      (nestedBuilt : ∀ inner, nested = some inner → Built inner) :
      Built (tree.refined name query nested)

/-- What holds of every tree that builders make: no name comes twice at any level, and the queries
have filters that builders make. -/
inductive WellFormed : RelationTree → Prop
  | intro {tree : RelationTree} (distinct : Keyed.Distinct Relation.name tree)
      (queries : ∀ relation ∈ tree, ∀ query, relation.query? = some query → query.WellFormed)
      (nested : ∀ relation ∈ tree, ∀ inner, relation.nested? = some inner → WellFormed inner) :
      WellFormed tree

variable {tree : RelationTree}

theorem WellFormed.distinct (wellFormed : tree.WellFormed) :
    Keyed.Distinct Relation.name tree := by
  cases wellFormed with
  | intro distinct _ _ => exact distinct

theorem WellFormed.queries (wellFormed : tree.WellFormed) :
    ∀ relation ∈ tree, ∀ query, relation.query? = some query → query.WellFormed := by
  cases wellFormed with
  | intro _ queries _ => exact queries

theorem WellFormed.nested (wellFormed : tree.WellFormed) :
    ∀ relation ∈ tree, ∀ inner, relation.nested? = some inner → WellFormed inner := by
  cases wellFormed with
  | intro _ _ nested => exact nested

theorem WellFormed.put (wellFormed : tree.WellFormed) {relation : Relation}
    (query : ∀ query, relation.query? = some query → query.WellFormed)
    (nested : ∀ inner, relation.nested? = some inner → WellFormed inner) :
    (tree.put relation).WellFormed := by
  refine .intro (Keyed.distinct_put _ _ wellFormed.distinct) ?_ ?_
  · intro other member
    rcases Keyed.mem_put member with rfl | before
    · exact query
    · exact wellFormed.queries other before
  · intro other member
    rcases Keyed.mem_put member with rfl | before
    · exact nested
    · exact wellFormed.nested other before

/-- Builders keep trees well formed. -/
theorem Built.wellFormed (built : tree.Built) : tree.WellFormed := by
  induction built with
  | empty => exact .intro List.nodup_nil nofun nofun
  | plain name _ inductionHypothesis => exact inductionHypothesis.put nofun nofun
  | refined name query nested _ queryBuilt _ inductionHypothesis nestedHypothesis =>
    refine inductionHypothesis.put (fun present given => ?_) nestedHypothesis
    exact fun filter held => (queryBuilt present given filter held).wellFormed

end RelationTree

/-! ### What is read back -/

mutual

/-- What a relation is read back as, given what becomes of queries: a scope without parts is left
out. -/
def Relation.trimmed (convert : Query → Query) : Relation → Relation
  | .plain name => .plain name
  | .refined name query nested =>
    if query.isNone && nested.isNone then .plain name
    else .refined name (query.map convert) (nestedTrimmed convert nested)
termination_by structural relation => relation

/-- What a tree is read back as: the same names in the same order. -/
def RelationTree.trimmed (convert : Query → Query) : RelationTree → RelationTree
  | [] => []
  | relation :: rest => relation.trimmed convert :: RelationTree.trimmed convert rest
termination_by structural tree => tree

/-- What the nested relations of a scope are read back as. -/
def nestedTrimmed (convert : Query → Query) : Option RelationTree → Option RelationTree
  | none => none
  | some tree => some (RelationTree.trimmed convert tree)
termination_by structural nested => nested

end

theorem RelationTree.trimmed_eq_map (convert : Query → Query) (tree : RelationTree) :
    tree.trimmed convert = tree.map (Relation.trimmed convert) := by
  induction tree with
  | nil => rfl
  | cons relation rest inductionHypothesis =>
    rw [RelationTree.trimmed, inductionHypothesis, List.map_cons]

theorem Relation.name_trimmed (convert : Query → Query) (relation : Relation) :
    (relation.trimmed convert).name = relation.name := by
  cases relation with
  | plain name => rfl
  | refined name query nested =>
    rw [trimmed]
    split <;> rfl

theorem Relation.query?_trimmed (convert : Query → Query) (relation : Relation) :
    (relation.trimmed convert).query? = relation.query?.map convert := by
  cases relation with
  | plain name => rfl
  | refined name query nested => cases query <;> cases nested <;> rfl

theorem Relation.nested?_trimmed (convert : Query → Query) (relation : Relation) :
    (relation.trimmed convert).nested? = relation.nested?.map (RelationTree.trimmed convert) := by
  cases relation with
  | plain name => rfl
  | refined name query nested => cases query <;> cases nested <;> rfl

theorem RelationTree.map_name_trimmed (convert : Query → Query) (tree : RelationTree) :
    (tree.trimmed convert).map Relation.name = tree.map Relation.name := by
  rw [trimmed_eq_map, List.map_map]
  exact List.map_congr_left fun relation _ => relation.name_trimmed convert

/-! ### Levels -/

/-- A tree passes the check at some levels exactly when its names and queries pass theirs and the
nested trees pass at one level less. -/
theorem RelationTree.checkWithin_succ {levels : Nat} {tree : RelationTree} :
    checkWithin (levels + 1) tree = .ok () ↔
      ∀ relation ∈ tree, checkName relation.name = .ok () ∧
        (∀ query, relation.query? = some query → query.check = .ok ()) ∧
        ∀ inner, relation.nested? = some inner → checkWithin levels inner = .ok () := by
  rw [checkWithin, Traversal.forM_eq_ok]
  refine forall₂_congr fun relation _ => ?_
  rw [Traversal.bind_eq_ok]
  cases relation with
  | plain name =>
    constructor
    · rintro ⟨_, named, _⟩
      exact ⟨named, nofun, nofun⟩
    · rintro ⟨named, _, _⟩
      exact ⟨(), named, rfl⟩
  | refined name query nested =>
    simp only [Relation.query?, Relation.nested?]
    rw [← Traversal.optionForM_eq_ok, ← Traversal.optionForM_eq_ok]
    constructor
    · rintro ⟨_, named, checked⟩
      obtain ⟨_, queryChecked, nestedChecked⟩ := Traversal.bind_eq_ok.mp checked
      exact ⟨named, queryChecked, nestedChecked⟩
    · rintro ⟨named, queryChecked, nestedChecked⟩
      exact ⟨(), named, Traversal.bind_eq_ok.mpr ⟨(), queryChecked, nestedChecked⟩⟩

end ListQuery
