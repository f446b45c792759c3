/-
This file proves what reading a filter from a document guarantees. The filter is
written as the very document that it was read from, it is settled and well formed,
and it passes the check, so nothing that was read is ever refused or changed when
it is sent on.
-/

import ListQuery.Proofs.Filter.RoundTrip

namespace ListQuery

/-- What holds of a filter that was read from a document at no more than `levels` levels. -/
structure Filter.ReadFrom (levels : Nat) (document : Json) (filter : Filter) : Prop where
  written : filter.toJson = document
  settled : filter.settled = filter
  wellFormed : filter.WellFormed
  sendable : Filter.checkWithin levels filter = .ok ()

/-! ### Clauses -/

namespace Clause

variable {decode : Json → Except ShapeFault Filter} {key : String} {value : Json} {clause : Clause}

theorem branchesOfJson_eq_ok {branches : List Filter}
    (read : branchesOfJson decode key value = .ok branches) :
    ∃ items, value = .array items ∧ items.mapM decode = .ok branches := by
  unfold branchesOfJson at read
  split at read
  · rename_i items
    refine ⟨items, rfl, Traversal.mapM_congr_ok read fun item _ branch single => ?_⟩
    split at single
    · exact single
    · cases single
  · cases read

/-- The members that are read as clauses: connectives with their branches, negations, and fields
with free paths. -/
theorem ofMember_cases (read : ofMember decode key value = .ok clause) :
    (∃ connective items branches, key = connective.key ∧ value = .array items ∧
      items.mapM decode = .ok branches ∧ clause = .group connective branches) ∨
    (∃ branch, key = negationKey ∧ decode value = .ok branch ∧ clause = .negation branch) ∨
    (∃ condition, startsWithDollar key = false ∧ Condition.ofJson value = .ok condition ∧
      clause = .field key condition) := by
  unfold ofMember at read
  split at read
  · rename_i isAll
    obtain ⟨branches, branchesRead, same⟩ := Traversal.bind_eq_ok.mp read
    obtain ⟨items, isArray, itemsRead⟩ := branchesOfJson_eq_ok branchesRead
    cases same
    exact .inl ⟨.all, items, branches, isAll, isArray, itemsRead, rfl⟩
  split at read
  · rename_i isAny
    obtain ⟨branches, branchesRead, same⟩ := Traversal.bind_eq_ok.mp read
    obtain ⟨items, isArray, itemsRead⟩ := branchesOfJson_eq_ok branchesRead
    cases same
    exact .inl ⟨.any, items, branches, isAny, isArray, itemsRead, rfl⟩
  split at read
  · rename_i isNegation
    split at read
    · obtain ⟨branch, branchRead, same⟩ := Traversal.bind_eq_ok.mp read
      cases same
      exact .inr (.inl ⟨branch, isNegation, branchRead, rfl⟩)
    · cases read
  split at read
  · cases read
  · rename_i free
    obtain ⟨condition, conditionRead, same⟩ := Traversal.bind_eq_ok.mp read
    cases same
    exact .inr (.inr ⟨condition, Bool.not_eq_true _ ▸ free, conditionRead, rfl⟩)

/-- What holds of a clause that was read from a member, the filters inside it at no more than
`levels` levels. -/
structure ReadFrom (levels : Nat) (member : String × Json) (clause : Clause) : Prop where
  written : clause.toMember = member
  settled : clause.settled = clause
  value : clause.ValueWellFormed
  free : clause.PathFree
  inner : ∀ branch ∈ clause.inner,
    branch.WellFormed ∧ Filter.checkWithin levels branch = .ok ()

/-- A clause inherits from the filters that were read inside it. -/
theorem readFrom_of_ofMember {levels : Nat}
    (each : ∀ document filter, document.WellFormed → decode document = .ok filter →
      filter.ReadFrom levels document)
    (wellFormed : value.WellFormed) (read : ofMember decode key value = .ok clause) :
    clause.ReadFrom levels (key, value) := by
  rcases ofMember_cases read with ⟨connective, items, branches, rfl, rfl, itemsRead, rfl⟩ |
    ⟨branch, rfl, branchRead, rfl⟩ | ⟨condition, free, conditionRead, rfl⟩
  · rw [Json.wellFormed_array] at wellFormed
    have inside : ∀ branch ∈ branches, branch.settled = branch ∧
        branch.WellFormed ∧ Filter.checkWithin levels branch = .ok () := by
      intro branch member
      obtain ⟨item, inItems, itemRead⟩ := Traversal.exists_of_mapM itemsRead member
      have held := each item branch (wellFormed item inItems) itemRead
      exact ⟨held.settled, held.wellFormed, held.sendable⟩
    have written : branches.map Filter.toJson = items := by
      have same := Traversal.map_eq_of_mapM itemsRead fun item inItems branch itemRead =>
        (each item branch (wellFormed item inItems) itemRead).written
      rwa [List.map_id'] at same
    refine ⟨?_, ?_, trivial, trivial, fun branch member => (inside branch member).2⟩
    · rw [toMember, branchesToJson_eq_map, written]
    · rw [settled, settledBranches_eq_map, List.map_congr_left fun branch member =>
        (inside branch member).1, List.map_id']
  · have held := each value branch wellFormed branchRead
    refine ⟨?_, ?_, trivial, trivial, List.forall_mem_singleton.mpr ?_⟩
    · exact congrArg (Prod.mk negationKey) held.written
    · rw [settled, held.settled]
    · exact ⟨held.wellFormed, held.sendable⟩
  · obtain ⟨written, conditionSettled⟩ := Condition.toJson_of_ofJson wellFormed conditionRead
    refine ⟨?_, ?_, ?_, free, fun _ inside => absurd inside List.not_mem_nil⟩
    · rw [toMember, written]
    · rw [settled, conditionSettled]
    · exact Condition.wellFormed_of_toJson (written.symm ▸ wellFormed)

end Clause

/-! ### Filters -/

namespace Filter

variable {filter : Filter} {document : Json}

/-- Distinct keys are read into distinct slots. -/
theorem distinct_of_keys {clauses : List Clause}
    (distinct : Keyed.Distinct Prod.fst (clauses.map Clause.toMember)) :
    Keyed.Distinct Clause.slot clauses := by
  rw [Keyed.Distinct, Clause.map_key_toMember] at distinct
  exact Keyed.distinct_of_part Slot.key distinct

/-- Clauses that were read from the members of an object are the filter that was read from it. -/
theorem readFrom_of_each {levels : Nat} {clauses : List Clause} {members : List (String × Json)}
    (distinct : Keyed.Distinct Clause.slot clauses)
    (written : clauses.map Clause.toMember = members)
    (each : ∀ clause ∈ clauses, ∃ member, clause.ReadFrom levels member) :
    Filter.ReadFrom (levels + 1) (.object members) clauses := by
  refine ⟨?_, ?_, ?_, ?_⟩
  · rw [toJson, toMembers_eq_map, written]
  · rw [settled_eq_map]
    refine (List.map_congr_left fun clause inClauses => ?_).trans (List.map_id' _)
    obtain ⟨_, held⟩ := each clause inClauses
    exact held.settled
  · refine .intro distinct (fun clause inClauses => ?_) fun clause inClauses => ?_
    · obtain ⟨_, held⟩ := each clause inClauses
      exact held.value
    · obtain ⟨_, held⟩ := each clause inClauses
      exact fun branch inside => (held.inner branch inside).1
  · rw [checkWithin_succ]
    intro clause inClauses
    obtain ⟨_, held⟩ := each clause inClauses
    exact ⟨held.free, fun branch inside => (held.inner branch inside).2⟩

/-- What was read as a filter, at whatever levels, is that filter written. -/
theorem readFrom_of_ofJsonWithin {levels : Nat} (wellFormed : document.WellFormed)
    (read : ofJsonWithin levels document = .ok filter) : filter.ReadFrom levels document := by
  induction levels generalizing document filter with
  | zero => cases read
  | succ levels inductionHypothesis =>
    cases document with
    | object members =>
      obtain ⟨clauses, converted, built⟩ := ofJsonWithin_object.mp read
      obtain ⟨distinct, values⟩ := Json.wellFormed_object.mp wellFormed
      have each : ∀ member ∈ members, ∀ clause,
          Clause.ofMember (ofJsonWithin levels) member.1 member.2 = .ok clause →
          clause.ReadFrom levels member := fun member inMembers clause clauseRead =>
        Clause.readFrom_of_ofMember (fun _ _ => inductionHypothesis) (values member inMembers)
          clauseRead
      have written : clauses.map Clause.toMember = members := by
        have same := Traversal.map_eq_of_mapM converted fun member inMembers clause clauseRead =>
          (each member inMembers clause clauseRead).written
        rwa [List.map_id'] at same
      -- No clause replaced another one while the filter was built, so the clauses are the filter.
      have distinctSlots := distinct_of_keys (written.symm ▸ distinct)
      rw [built, Keyed.ofList_of_distinct _ distinctSlots]
      refine readFrom_of_each distinctSlots written fun clause inClauses => ?_
      obtain ⟨member, inMembers, clauseRead⟩ := Traversal.exists_of_mapM converted inClauses
      exact ⟨member, each member inMembers clause clauseRead⟩
    | null => cases read
    | boolean flag => cases read
    | number value => cases read
    | string text => cases read
    | array items => cases read

/-- What holds of a filter that was read out of a document with at most `bound` containers open at
once. -/
structure ReadWithin (bound : Nat) (filter : Filter) : Prop where
  settled : filter.settled = filter
  wellFormed : filter.WellFormed
  shallow : filter.toJson.opened ≤ bound

theorem readWithin_of_ofJson {bound : Nat} (wellFormed : document.WellFormed)
    (shallow : document.opened ≤ bound) (read : decoder.ofJson document = .ok filter) :
    filter.ReadWithin bound := by
  have held := readFrom_of_ofJsonWithin wellFormed (Traversal.mapError_eq_ok.mp read)
  exact ⟨held.settled, held.wellFormed, held.written.symm ▸ shallow⟩

/-- A filter that was read from a document passes the check, and it is read again from what is
written for it. -/
theorem reread_of_ofJson (wellFormed : document.WellFormed)
    (read : decoder.ofJson document = .ok filter) :
    filter.check = .ok () ∧ decoder.ofJson filter.toJson = .ok filter := by
  have held := readFrom_of_ofJsonWithin wellFormed (Traversal.mapError_eq_ok.mp read)
  exact ⟨held.sendable, held.written.symm ▸ read⟩

/-- A filter that passes the check still does when it is settled. -/
theorem check_settled (wellFormed : filter.WellFormed) (sendable : filter.check = .ok ()) :
    filter.settled.check = .ok () :=
  (readFrom_of_ofJsonWithin (toJson_wellFormed wellFormed sendable)
    (ofJsonWithin_toJson wellFormed sendable)).sendable

end Filter

end ListQuery
