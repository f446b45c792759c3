/-
This file says which filters builders make, and what a filter becomes when it is
written and read back. Two conditions are not read back as they were: a bare value
that looks like an operator document is written as a test for equality and stays
one, and a set without operators is written as an empty object, which reads as a
bare value. A filter in which these two are replaced is settled.
-/

import ListQuery.Filter.Document
import ListQuery.Proofs.Json.Extent
import ListQuery.Proofs.Keyed
import ListQuery.Proofs.Traversal

namespace ListQuery

/-! ### Filters as builders make them -/

/-- No object in the values of a condition holds a name twice. -/
def Condition.WellFormed : Condition → Prop
  | .bare value => value.WellFormed
  | .operators set => ∀ comparison ∈ set.comparisons, comparison.operand.WellFormed

/-- The filters that a run of builders makes, with filters made in the same way inside them. -/
inductive Filter.Built : Filter → Prop
  | empty : Filter.Built Filter.empty
  | field {filter : Filter} (path : String) (condition : Condition) (built : Filter.Built filter)
      (wellFormed : condition.WellFormed) : Filter.Built (filter.field path condition)
  | group {filter : Filter} (connective : Connective) (branches : List Filter)
      (built : Filter.Built filter) (each : ∀ branch ∈ branches, Filter.Built branch) :
      Filter.Built (filter.group connective branches)
  | negation {filter branch : Filter} (built : Filter.Built filter)
      (builtBranch : Filter.Built branch) : Filter.Built (filter.negation branch)

namespace Clause

/-- The filters inside a clause. -/
def inner : Clause → List Filter
  | .field _ _ => []
  | .group _ branches => branches
  | .negation branch => [branch]

/-- The condition of a clause is well formed, if it has one. -/
def ValueWellFormed : Clause → Prop
  | .field _ condition => condition.WellFormed
  | _ => True

/-- The path of a clause does not read like a connective, if it has one. -/
def PathFree : Clause → Prop
  | .field path _ => startsWithDollar path = false
  | _ => True

end Clause

/-- What holds of every filter that builders make: no slot is taken twice, at any level, and the
values are well formed. -/
inductive Filter.WellFormed : Filter → Prop
  | intro {filter : Filter} (distinct : Keyed.Distinct Clause.slot filter)
      (values : ∀ clause ∈ filter, clause.ValueWellFormed)
      (inner : ∀ clause ∈ filter, ∀ branch ∈ clause.inner, Filter.WellFormed branch) :
      Filter.WellFormed filter

namespace Filter

variable {filter : Filter}

theorem WellFormed.distinct (wellFormed : filter.WellFormed) :
    Keyed.Distinct Clause.slot filter := by
  cases wellFormed with
  | intro distinct _ _ => exact distinct

theorem WellFormed.values (wellFormed : filter.WellFormed) :
    ∀ clause ∈ filter, clause.ValueWellFormed := by
  cases wellFormed with
  | intro _ values _ => exact values

theorem WellFormed.inner (wellFormed : filter.WellFormed) :
    ∀ clause ∈ filter, ∀ branch ∈ clause.inner, Filter.WellFormed branch := by
  cases wellFormed with
  | intro _ _ inner => exact inner

theorem WellFormed.put (wellFormed : filter.WellFormed) {clause : Clause}
    (value : clause.ValueWellFormed) (inner : ∀ branch ∈ clause.inner, Filter.WellFormed branch) :
    (filter.put clause).WellFormed := by
  refine .intro (Keyed.distinct_put _ _ wellFormed.distinct) ?_ ?_
  · intro other member
    rcases Keyed.mem_put member with rfl | before
    · exact value
    · exact wellFormed.values other before
  · intro other member
    rcases Keyed.mem_put member with rfl | before
    · exact inner
    · exact wellFormed.inner other before

/-- Builders keep filters well formed. -/
theorem Built.wellFormed (built : filter.Built) : filter.WellFormed := by
  induction built with
  | empty => exact .intro List.nodup_nil nofun nofun
  | field path condition _ value inductionHypothesis =>
    exact inductionHypothesis.put value nofun
  | group connective branches _ _ inductionHypothesis branchesHypothesis =>
    exact inductionHypothesis.put trivial branchesHypothesis
  | negation _ _ inductionHypothesis branchHypothesis =>
    refine inductionHypothesis.put trivial fun branch member => ?_
    rw [List.mem_singleton.mp member]
    exact branchHypothesis

end Filter

/-! ### What is read back -/

/-- What a condition is read back as. -/
def Condition.settled : Condition → Condition
  | .bare value =>
    match value.operatorMembers? with
    | some _ => .operators (OperatorSet.empty.put (.scalar .eq value))
    | none => .bare value
  | .operators set => if set.comparisons.isEmpty then .bare (.object []) else .operators set

mutual

/-- What a clause is read back as: one of the same kind under the same key. -/
def Clause.settled : Clause → Clause
  | .field path condition => .field path condition.settled
  | .group connective branches => .group connective (settledBranches branches)
  | .negation branch => .negation (Filter.settled branch)
termination_by structural clause => clause

/-- What a filter is read back as: the same clauses in the same order. -/
def Filter.settled : Filter → Filter
  | [] => []
  | clause :: rest => clause.settled :: Filter.settled rest
termination_by structural filter => filter

/-- What branches are read back as. -/
def settledBranches : List Filter → List Filter
  | [] => []
  | branch :: rest => Filter.settled branch :: settledBranches rest
termination_by structural branches => branches

end

theorem Filter.settled_eq_map (filter : Filter) : filter.settled = filter.map Clause.settled := by
  induction filter with
  | nil => rfl
  | cons clause rest inductionHypothesis =>
    rw [Filter.settled, inductionHypothesis, List.map_cons]

theorem settledBranches_eq_map (branches : List Filter) :
    settledBranches branches = branches.map Filter.settled := by
  induction branches with
  | nil => rfl
  | cons branch rest inductionHypothesis =>
    rw [settledBranches, inductionHypothesis, List.map_cons]

theorem Clause.slot_settled (clause : Clause) : clause.settled.slot = clause.slot := by
  cases clause <;> rfl

/-! ### Members and levels -/

theorem Filter.toMembers_eq_map (filter : Filter) :
    filter.toMembers = filter.map Clause.toMember := by
  induction filter with
  | nil => rfl
  | cons clause rest inductionHypothesis =>
    rw [Filter.toMembers, inductionHypothesis, List.map_cons]

theorem branchesToJson_eq_map (branches : List Filter) :
    branchesToJson branches = branches.map Filter.toJson := by
  induction branches with
  | nil => rfl
  | cons branch rest inductionHypothesis =>
    rw [branchesToJson, inductionHypothesis, List.map_cons]
    rfl

/-- A filter passes the check at some levels exactly when its paths are free and the filters inside
it pass at one level less. -/
theorem Filter.checkWithin_succ {levels : Nat} {filter : Filter} :
    Filter.checkWithin (levels + 1) filter = .ok () ↔
      ∀ clause ∈ filter, clause.PathFree ∧
        ∀ branch ∈ clause.inner, Filter.checkWithin levels branch = .ok () := by
  rw [Filter.checkWithin, Traversal.forM_eq_ok]
  refine forall₂_congr fun clause _ => ?_
  cases clause with
  | field path condition =>
    simp only [Clause.PathFree, Clause.inner, List.not_mem_nil, false_implies, implies_true,
      and_true]
    cases startsWithDollar path <;> simp
  | group connective branches =>
    simp only [Clause.PathFree, Clause.inner, true_and]
    exact Traversal.forM_eq_ok
  | negation branch =>
    simp only [Clause.PathFree, Clause.inner, true_and, List.mem_singleton, forall_eq]

end ListQuery
