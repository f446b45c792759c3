/-
This file proves when a filter keeps its meaning on the wire. What a filter means is
told by its normal form, in which every bare value is written out as a test for
equality. A filter that passes the check is read back with the same normal form,
except where it holds a set without operators: such a set asks for nothing, and the
empty object that is written for it is read as a value to be equal to.
-/

import ListQuery.Proofs.Filter.RoundTrip

namespace ListQuery

/-! ### Equality up to the order of members -/

theorem Number.same_self (number : Number) : number.same number = true := by
  cases number with
  | integer value inRange => exact beq_self_eq_true value
  | double value =>
    show (value.magnitude == value.magnitude && (value.negative == value.negative || _)) = true
    rw [beq_self_eq_true, beq_self_eq_true, Bool.true_or, Bool.true_and]

namespace Json

mutual

/-- A document in which no object holds a name twice is the same as itself. -/
theorem same_self : ∀ document : Json, document.WellFormed → document.same document = true
  | .null, _ => rfl
  | .boolean flag, _ => beq_self_eq_true flag
  | .number value, _ => value.same_self
  | .string text, _ => beq_self_eq_true text
  | .array items, wellFormed => sameItems_self items wellFormed
  | .object members, wellFormed => by
    rw [same, beq_self_eq_true, Bool.true_and]
    exact sameMembers_self wellFormed.1 members (fun _ held => held) wellFormed.2

theorem sameItems_self : ∀ items : List Json, ItemsWellFormed items → sameItems items items = true
  | [], _ => rfl
  | item :: rest, wellFormed => by
    rw [sameItems, same_self item wellFormed.1, sameItems_self rest wellFormed.2, Bool.true_and]

/-- Members that are held among others have their counterparts there. -/
theorem sameMembers_self {others : List (String × Json)}
    (distinct : Keyed.Distinct Prod.fst others) :
    ∀ members : List (String × Json), (∀ member ∈ members, member ∈ others) →
      MembersWellFormed members → sameMembers members others = true
  | [], _, _ => rfl
  | (name, value) :: rest, held, wellFormed => by
    rw [sameMembers, Keyed.lookup_of_mem distinct (held _ List.mem_cons_self)]
    simp only
    rw [same_self value wellFormed.1, Bool.true_and]
    exact sameMembers_self distinct rest
      (fun member inRest => held member (List.mem_cons_of_mem _ inRest)) wellFormed.2

end

end Json

theorem OperatorSet.same_self {set : OperatorSet}
    (wellFormed : ∀ comparison ∈ set.comparisons, comparison.operand.WellFormed) :
    set.same set = true := by
  unfold OperatorSet.same
  rw [beq_self_eq_true, Bool.true_and, List.all_eq_true]
  intro pair paired
  rw [List.zip_eq_zipWith, List.zipWith_self] at paired
  obtain ⟨comparison, held, rfl⟩ := List.mem_map.mp paired
  show (comparison.operator == comparison.operator && _) = true
  rw [beq_self_eq_true, Bool.true_and]
  exact comparison.operand.same_self (wellFormed comparison held)

theorem Condition.same_self {condition : Condition} (wellFormed : condition.WellFormed) :
    condition.same condition = true := by
  cases condition with
  | bare value => exact value.same_self wellFormed
  | operators set => exact OperatorSet.same_self wellFormed

/-! ### Filters clause by clause -/

theorem Filter.normalized_eq_map (filter : Filter) :
    filter.normalized = filter.map Clause.normalized := by
  induction filter with
  | nil => rfl
  | cons clause rest inductionHypothesis =>
    rw [Filter.normalized, inductionHypothesis, List.map_cons]

theorem normalizedBranches_eq_map (branches : List Filter) :
    normalizedBranches branches = branches.map Filter.normalized := by
  induction branches with
  | nil => rfl
  | cons branch rest inductionHypothesis =>
    rw [normalizedBranches, inductionHypothesis, List.map_cons]

/-- Two filters made from one are the same when their clauses are, one by one. -/
theorem Filter.same_map {first second : Clause → Clause} {filter : Filter} :
    Filter.same (filter.map first) (filter.map second) = true ↔
      ∀ clause ∈ filter, (first clause).same (second clause) = true := by
  induction filter with
  | nil => exact ⟨fun _ => nofun, fun _ => rfl⟩
  | cons clause rest inductionHypothesis =>
    rw [List.map_cons, List.map_cons, Filter.same, Bool.and_eq_true, inductionHypothesis,
      List.forall_mem_cons]

theorem sameBranches_map {first second : Filter → Filter} {branches : List Filter} :
    sameBranches (branches.map first) (branches.map second) = true ↔
      ∀ branch ∈ branches, (first branch).same (second branch) = true := by
  induction branches with
  | nil => exact ⟨fun _ => nofun, fun _ => rfl⟩
  | cons branch rest inductionHypothesis =>
    rw [List.map_cons, List.map_cons, sameBranches, Bool.and_eq_true, inductionHypothesis,
      List.forall_mem_cons]

/-! ### The conditions of a filter -/

mutual

/-- The conditions in a clause and in the filters inside it. -/
def Clause.conditions : Clause → List Condition
  | .field _ condition => [condition]
  | .group _ branches => branchesConditions branches
  | .negation branch => Filter.conditions branch
termination_by structural clause => clause

/-- The conditions at all levels of a filter. -/
def Filter.conditions : Filter → List Condition
  | [] => []
  | clause :: rest => clause.conditions ++ Filter.conditions rest
termination_by structural filter => filter

/-- The conditions at all levels of branches. -/
def branchesConditions : List Filter → List Condition
  | [] => []
  | branch :: rest => Filter.conditions branch ++ branchesConditions rest
termination_by structural branches => branches

end

theorem Filter.conditions_eq_flatMap (filter : Filter) :
    filter.conditions = filter.flatMap Clause.conditions := by
  induction filter with
  | nil => rfl
  | cons clause rest inductionHypothesis =>
    rw [Filter.conditions, inductionHypothesis, List.flatMap_cons]

theorem branchesConditions_eq_flatMap (branches : List Filter) :
    branchesConditions branches = branches.flatMap Filter.conditions := by
  induction branches with
  | nil => rfl
  | cons branch rest inductionHypothesis =>
    rw [branchesConditions, inductionHypothesis, List.flatMap_cons]

/-- A condition is missing from a filter when it is missing from every clause. -/
theorem Filter.not_mem_conditions {condition : Condition} {filter : Filter} :
    condition ∉ filter.conditions ↔ ∀ clause ∈ filter, condition ∉ clause.conditions := by
  rw [conditions_eq_flatMap, List.mem_flatMap]
  exact not_exists.trans (forall_congr' fun _ => not_and)

theorem not_mem_branchesConditions {condition : Condition} {branches : List Filter} :
    condition ∉ branchesConditions branches ↔
      ∀ branch ∈ branches, condition ∉ Filter.conditions branch := by
  rw [branchesConditions_eq_flatMap, List.mem_flatMap]
  exact not_exists.trans (forall_congr' fun _ => not_and)

/-! ### What keeps its meaning -/

namespace Condition

/-- The condition that asks for nothing. -/
def unasked : Condition := .operators .empty

/-- A condition that asks for something is settled without a change of meaning. -/
theorem normalized_settled {condition : Condition} (asks : condition ≠ unasked) :
    condition.settled.normalized = condition.normalized := by
  cases condition with
  | bare value => cases marked : value.operatorMembers? <;> simp only [settled, marked, normalized]
  | operators set =>
    have nonempty : ¬set.comparisons.isEmpty = true := fun empty => asks (congrArg
      Condition.operators (OperatorSet.eq_of_comparisons (List.isEmpty_iff.mp empty)))
    rw [settled, if_neg nonempty]

theorem normalized_wellFormed {condition : Condition} (wellFormed : condition.WellFormed) :
    condition.normalized.WellFormed := by
  cases condition with
  | bare value => exact List.forall_mem_singleton.mpr wellFormed
  | operators set => exact wellFormed

/-- Settling keeps the meaning of every condition but the one that asks for nothing. -/
theorem same_normalized_settled {condition : Condition} (wellFormed : condition.WellFormed) :
    condition.settled.normalized.same condition.normalized = true ↔ condition ≠ unasked := by
  constructor
  · rintro same rfl
    cases same
  · intro asks
    rw [normalized_settled asks]
    exact same_self (normalized_wellFormed wellFormed)

end Condition

namespace Clause

variable {clause : Clause}

/-- A clause keeps its meaning when the filters inside it do. -/
theorem normalized_settled
    (each : ∀ branch ∈ clause.inner, Condition.unasked ∉ branch.conditions →
      branch.settled.normalized = branch.normalized)
    (asks : Condition.unasked ∉ clause.conditions) :
    clause.settled.normalized = clause.normalized := by
  cases clause with
  | field path condition =>
    have asked : condition ≠ .unasked := fun same => asks (List.mem_singleton.mpr same.symm)
    rw [settled, normalized, normalized, Condition.normalized_settled asked]
  | group connective branches =>
    rw [conditions, not_mem_branchesConditions] at asks
    rw [settled, normalized, normalized, settledBranches_eq_map, normalizedBranches_eq_map,
      normalizedBranches_eq_map, List.map_map]
    exact congrArg (Clause.group connective) (List.map_congr_left fun branch member =>
      each branch member (asks branch member))
  | negation branch => exact congrArg Clause.negation (each branch List.mem_cons_self asks)

/-- A clause keeps its meaning exactly when every condition in it asks for something. -/
theorem same_normalized_settled (value : clause.ValueWellFormed)
    (each : ∀ branch ∈ clause.inner, branch.settled.normalized.same branch.normalized = true ↔
      Condition.unasked ∉ branch.conditions) :
    clause.settled.normalized.same clause.normalized = true ↔
      Condition.unasked ∉ clause.conditions := by
  cases clause with
  | field path condition =>
    rw [settled, normalized, normalized, same, beq_self_eq_true, Bool.true_and,
      Condition.same_normalized_settled value, conditions, List.mem_singleton]
    exact ne_comm
  | group connective branches =>
    rw [settled, normalized, normalized, settledBranches_eq_map, normalizedBranches_eq_map,
      normalizedBranches_eq_map, List.map_map, same, beq_self_eq_true, Bool.true_and,
      sameBranches_map, conditions, not_mem_branchesConditions]
    exact forall₂_congr each
  | negation branch => exact each branch List.mem_cons_self

end Clause

namespace Filter

variable {filter : Filter}

theorem normalized_settled (wellFormed : filter.WellFormed)
    (asks : Condition.unasked ∉ filter.conditions) :
    filter.settled.normalized = filter.normalized := by
  induction wellFormed with
  | @intro filter _ _ _ inductionHypothesis =>
    rw [not_mem_conditions] at asks
    rw [settled_eq_map, normalized_eq_map, normalized_eq_map, List.map_map]
    exact List.map_congr_left fun clause member =>
      Clause.normalized_settled (inductionHypothesis clause member) (asks clause member)

/-- A settled filter has the meaning of the filter exactly when every condition in the filter asks
for something. -/
theorem same_normalized_settled (wellFormed : filter.WellFormed) :
    filter.settled.normalized.same filter.normalized = true ↔
      Condition.unasked ∉ filter.conditions := by
  induction wellFormed with
  | @intro filter _ values _ inductionHypothesis =>
    rw [settled_eq_map, normalized_eq_map, normalized_eq_map, List.map_map, same_map,
      not_mem_conditions]
    exact forall₂_congr fun clause member =>
      Clause.same_normalized_settled (values clause member) (inductionHypothesis clause member)

/-- A filter that passes the check is read back, and it has kept its meaning exactly when it holds
no set without operators at any level. Then its normal form has not changed at all. -/
theorem meaning_kept_iff (built : filter.Built) (sendable : filter.check = .ok ()) :
    ∃ back, ofJson filter.toJson = .ok back ∧
      (back.normalized.same filter.normalized = true ↔
        Condition.operators .empty ∉ filter.conditions) ∧
      (Condition.operators .empty ∉ filter.conditions → back.normalized = filter.normalized) := by
  have wellFormed := built.wellFormed
  exact ⟨filter.settled, ofJsonWithin_toJson wellFormed sendable,
    same_normalized_settled wellFormed, normalized_settled wellFormed⟩

/-- A value that looks like an operator document, and a set with an operator, inside a negation and
a group. -/
def asking : Filter :=
  (Filter.empty.negation (Filter.empty.equals "a" (.object [("$gt", .null)]))).group .any
    [Filter.empty.field "b" (.operators (OperatorSet.empty.put (.flag .present true)))]

/-- Neither of them changes its meaning. -/
theorem meaning_kept_asking :
    asking.Built ∧ asking.check = .ok () ∧
      ∃ back, ofJson asking.toJson = .ok back ∧ back.normalized = asking.normalized := by
  have valueBuilt : (Filter.empty.equals "a" (.object [("$gt", .null)])).Built :=
    .field "a" _ .empty (Json.wellFormed_object.mpr
      ⟨List.pairwise_singleton _ _, List.forall_mem_singleton.mpr trivial⟩)
  have setBuilt : (Filter.empty.field "b"
      (.operators (OperatorSet.empty.put (.flag .present true)))).Built :=
    .field "b" _ .empty (List.forall_mem_singleton.mpr trivial)
  have built : asking.Built :=
    .group .any _ (.negation .empty valueBuilt) (List.forall_mem_singleton.mpr setBuilt)
  obtain ⟨back, read, _, kept⟩ := meaning_kept_iff built rfl
  refine ⟨built, rfl, back, read, kept fun held => ?_⟩
  rcases List.mem_cons.mp held with same | others
  · cases same
  · cases List.mem_singleton.mp others

/-- A set without operators is read back as a test for equality with the empty object. -/
theorem meaning_lost_unasked :
    (Filter.empty.field "b" (.operators .empty)).Built ∧
      (Filter.empty.field "b" (.operators .empty)).check = .ok () ∧
      ofJson (Filter.empty.field "b" (.operators .empty)).toJson =
        .ok (Filter.empty.equals "b" (.object [])) ∧
      (Filter.empty.equals "b" (.object [])).normalized.same
        (Filter.empty.field "b" (.operators .empty)).normalized = false :=
  ⟨.field "b" _ .empty nofun, rfl, rfl, rfl⟩

end Filter

end ListQuery
