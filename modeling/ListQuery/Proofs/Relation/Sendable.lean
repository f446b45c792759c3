/-
This file proves when the outline of a tree can be sent. Three things are checked on
the way through the tree, with two limits on depth that know nothing of each other:
the names of relations, the filters in queries, and the trees in scopes. Together
they come to what is in the tree, wherever it is. A tree is sent when nothing in it
is an obstacle, and the fault of a tree that is refused is about one.
-/

import ListQuery.Proofs.Filter.Levels
import ListQuery.Proofs.Relation.Levels
import ListQuery.Proofs.Relation.RoundTrip

namespace ListQuery

/-- A query is refused for its filter. -/
theorem Query.reason_of_check {query : Query} {fault : ShapeFault}
    (refused : query.check = .error fault) :
    ∃ filter, query.filter = some filter ∧ filter.Reason (maxNesting + 1) fault := by
  obtain ⟨filter, given, filterRefused⟩ := Traversal.exists_of_optionForM_error refused
  exact ⟨filter, given, Filter.reason_of_checkWithin filterRefused⟩

namespace RelationTree

variable {tree : RelationTree} {fault : ShapeFault}

/-- What is in the way of sending a tree, with the fault that says so. -/
inductive Obstacle (tree : RelationTree) : ShapeFault → Prop
  | emptyName (hasName : tree.HasName "") : Obstacle tree .emptyName
  | reservedName {name : String} (hasName : tree.HasName name) (nonempty : name ≠ "")
      (unwritable : Unwritable name) : Obstacle tree (.reservedName name)
  | reservedPath {query : Query} {filter : Filter} {path : String} (held : query ∈ tree.queries)
      (given : query.filter = some filter) (hasPath : filter.HasPath path)
      (reserved : path.toList.head? = some '$') : Obstacle tree (.reservedPath path)
  | filterTooDeep {query : Query} {filter inner : Filter} {count : Nat}
      (held : query ∈ tree.queries) (given : query.filter = some filter)
      (holds : filter.HoldsFilter count inner) (deep : 32 < count) : Obstacle tree .filterTooDeep
  | treeTooDeep {inner : RelationTree} {count : Nat} (holds : tree.HoldsTree count inner)
      (deep : 32 < count) : Obstacle tree .treeTooDeep

/-- Whatever the check finds is an obstacle. -/
theorem obstacle_of_check (refused : tree.check = .error fault) : tree.Obstacle fault := by
  cases reason_of_checkWithin refused with
  | level tooDeep =>
    obtain ⟨count, inner, holds, deep⟩ := Levels.exists_of_not_fits tooDeep
    exact .treeTooDeep holds deep
  | name hasName nameRefused =>
    rcases checkName_eq_error.mp nameRefused with ⟨rfl, rfl⟩ | ⟨nonempty, unwritable, rfl⟩
    · exact .emptyName hasName
    · exact .reservedName hasName nonempty unwritable
  | query held queryRefused =>
    obtain ⟨filter, given, reason⟩ := Query.reason_of_check queryRefused
    cases reason with
    | level tooDeep =>
      obtain ⟨count, inner, holds, deep⟩ := Levels.exists_of_not_fits tooDeep
      exact .filterTooDeep held given holds deep
    | path hasPath reserved =>
      exact .reservedPath held given hasPath (startsWithDollar_eq_true.mp reserved)

theorem exists_toOutline_iff : (∃ text, tree.toOutline = .ok text) ↔ tree.check = .ok () := by
  constructor
  · rintro ⟨text, sent⟩
    exact (toOutline_eq_ok.mp sent).1
  · exact fun checked => ⟨_, toOutline_eq_ok.mpr ⟨checked, rfl⟩⟩

/-- The outline of a tree is sent exactly when every name in the tree can be written, when in every
filter of a query no path starts with a dollar sign and no filter lies under more than 32
connectives and negations, and when no tree lies under more than 32 scopes. All else is refused with
a fault of shape, and it is about something in the tree that is not so. -/
theorem outline_sent_iff (tree : RelationTree) :
    ((∃ text, tree.toOutline = .ok text) ↔
      (∀ name, tree.HasName name → ¬Unwritable name) ∧
      (∀ query ∈ tree.queries, ∀ filter, query.filter = some filter →
        (∀ path, filter.HasPath path → path.toList.head? ≠ some '$') ∧
          ∀ count inner, filter.HoldsFilter count inner → count ≤ 32) ∧
      ∀ count inner, tree.HoldsTree count inner → count ≤ 32) ∧
    ∀ fault, tree.toOutline = .error fault →
      ∃ obstacle, fault = .shape obstacle ∧ tree.Obstacle obstacle := by
  constructor
  · have fits : tree.Fits (maxNesting + 1) ↔
        ∀ count inner, tree.HoldsTree count inner → count ≤ 32 :=
      forall₃_congr fun _ _ _ => Nat.lt_succ_iff
    have queries : (∀ query ∈ tree.queries, query.check = .ok ()) ↔
        ∀ query ∈ tree.queries, ∀ filter, query.filter = some filter →
          (∀ path, filter.HasPath path → path.toList.head? ≠ some '$') ∧
            ∀ count inner, filter.HoldsFilter count inner → count ≤ 32 :=
      forall₂_congr fun _ _ => Query.check_eq_ok.trans
        (forall₂_congr fun _ _ => Filter.check_eq_ok)
    rw [exists_toOutline_iff, check, checkWithin_eq_ok, fits, queries, and_comm, and_assoc]
  · intro fault refused
    obtain ⟨inner, checkRefused, rfl⟩ := toOutline_eq_error.mp refused
    exact ⟨inner, rfl, obstacle_of_check checkRefused⟩

end RelationTree

end ListQuery
