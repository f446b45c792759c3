/-
This file proves that operator sets and conditions survive being written and read
back. Every operator has a key of its own that starts with a dollar sign, and an
operand is read by the type its operator asks for, so each member of an operator
document stands for one comparison and is written for no other.
-/

import ListQuery.Proofs.Filter.Settled

namespace ListQuery

/-! ### Operators and their keys -/

namespace Operator

theorem ofKey?_key (operator : Operator) : ofKey? operator.key = some operator := by
  cases operator with
  | between => decide
  | scalar test => cases test <;> decide
  | list test => cases test <;> decide
  | pattern test => cases test <;> decide
  | flag test => cases test <;> decide

theorem key_of_ofKey? {key : String} {operator : Operator} (found : ofKey? key = some operator) :
    operator.key = key := by
  unfold ofKey? at found
  have same := List.find?_some found
  exact beq_iff_eq.mp same

theorem startsWithDollar_key (operator : Operator) : startsWithDollar operator.key = true := by
  cases operator with
  | between => decide
  | scalar test => cases test <;> decide
  | list test => cases test <;> decide
  | pattern test => cases test <;> decide
  | flag test => cases test <;> decide

theorem key_injective {first second : Operator} (same : first.key = second.key) :
    first = second := by
  have found := ofKey?_key first
  rw [same, ofKey?_key] at found
  exact (Option.some.inj found).symm

end Operator

/-! ### Comparisons and their members -/

namespace Comparison

/-- The member of a comparison is read as that comparison. -/
theorem ofMember_toMember (comparison : Comparison) :
    ofMember comparison.toMember.1 comparison.toMember.2 = .ok comparison := by
  simp only [ofMember, toMember, Operator.ofKey?_key]
  cases comparison <;> rfl

theorem operator_of_ofOperand {operator : Operator} {operand : Json} {comparison : Comparison}
    (read : ofOperand operator operand = .ok comparison) :
    comparison.operator = operator ∧ comparison.operand = operand := by
  unfold ofOperand at read
  split at read <;> cases read <;> exact ⟨rfl, rfl⟩

/-- A comparison is written as the member that it was read from. -/
theorem toMember_of_ofMember {member : String × Json} {comparison : Comparison}
    (read : ofMember member.1 member.2 = .ok comparison) : comparison.toMember = member := by
  unfold ofMember at read
  split at read
  · rename_i operator found
    obtain ⟨sameOperator, sameOperand⟩ := operator_of_ofOperand read
    rw [toMember, sameOperator, sameOperand, Operator.key_of_ofKey? found]
  · cases read

end Comparison

/-! ### Operator sets and their documents -/

namespace OperatorSet

theorem eq_of_comparisons {first second : OperatorSet}
    (same : first.comparisons = second.comparisons) : first = second := by
  cases first
  cases second
  cases same
  rfl

theorem comparisons_foldl_put (comparisons : List Comparison) (set : OperatorSet) :
    (comparisons.foldl OperatorSet.put set).comparisons =
      comparisons.foldl (fun built comparison => Keyed.put Comparison.operator comparison built)
        set.comparisons := by
  induction comparisons generalizing set with
  | nil => rfl
  | cons comparison rest inductionHypothesis => exact inductionHypothesis (set.put comparison)

/-- An operator document is read by its members, of which there is at least one. -/
theorem ofMembers_eq_ok {members : List (String × Json)} {set : OperatorSet} :
    ofMembers members = .ok set ↔
      members ≠ [] ∧ ∃ comparisons,
        members.mapM (fun member => Comparison.ofMember member.1 member.2) = .ok comparisons ∧
          set.comparisons = Keyed.ofList Comparison.operator comparisons := by
  unfold ofMembers
  cases members with
  | nil => exact ⟨nofun, fun given => absurd rfl given.1⟩
  | cons member rest =>
    rw [if_neg (show ¬(member :: rest).isEmpty = true from nofun),
      Traversal.foldlM_eq_mapM (fun member : String × Json =>
        Comparison.ofMember member.1 member.2) OperatorSet.put, Traversal.bind_eq_ok]
    constructor
    · rintro ⟨comparisons, converted, same⟩
      cases same
      exact ⟨List.cons_ne_nil _ _, comparisons, converted, comparisons_foldl_put comparisons _⟩
    · rintro ⟨_, comparisons, converted, same⟩
      exact ⟨comparisons, converted, congrArg Except.ok
        (eq_of_comparisons ((comparisons_foldl_put comparisons _).trans same.symm))⟩

/-- The keys of an operator document are distinct, as the operators are. -/
theorem distinct_toMembers (set : OperatorSet) :
    Keyed.Distinct Prod.fst (set.comparisons.map Comparison.toMember) := by
  have distinctKeys : Keyed.Distinct (fun comparison => comparison.operator.key)
      set.comparisons :=
    Keyed.distinct_map (fun _ _ _ _ same => Operator.key_injective same) set.distinct
  rw [Keyed.Distinct, List.map_map]
  exact distinctKeys

/-- The document of a set with operators is read back as the set. -/
theorem ofMembers_toMembers (set : OperatorSet) (nonempty : set.comparisons ≠ []) :
    ofMembers (set.comparisons.map Comparison.toMember) = .ok set := by
  rw [ofMembers_eq_ok]
  refine ⟨fun empty => nonempty (List.map_eq_nil_iff.mp empty), set.comparisons, ?_, ?_⟩
  · rw [List.mapM_map]
    have read := Traversal.mapM_eq_ok_map fun comparison (_ : comparison ∈ set.comparisons) =>
      Comparison.ofMember_toMember comparison
    rwa [List.map_id'] at read
  · exact (Keyed.ofList_of_distinct _ set.distinct).symm

/-- A set is written as the members that it was read from, when no key occurs twice in them. -/
theorem toMembers_of_ofMembers {members : List (String × Json)} {set : OperatorSet}
    (distinct : Keyed.Distinct Prod.fst members) (read : ofMembers members = .ok set) :
    set.comparisons.map Comparison.toMember = members ∧ set.comparisons ≠ [] := by
  obtain ⟨nonempty, comparisons, converted, same⟩ := ofMembers_eq_ok.mp read
  have members_eq : comparisons.map Comparison.toMember = members := by
    have written := Traversal.map_eq_of_mapM converted fun member _ comparison single =>
      Comparison.toMember_of_ofMember single
    rwa [List.map_id'] at written
  have distinctOperators : Keyed.Distinct Comparison.operator comparisons := by
    refine Keyed.distinct_of_part Operator.key ?_
    rw [← members_eq, Keyed.Distinct, List.map_map] at distinct
    exact distinct
  rw [Keyed.ofList_of_distinct _ distinctOperators] at same
  rw [same]
  exact ⟨members_eq, fun empty => nonempty (by rw [← members_eq, empty, List.map_nil])⟩

end OperatorSet

end ListQuery
