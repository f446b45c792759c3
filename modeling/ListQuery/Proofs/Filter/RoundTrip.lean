/-
This file proves that filters survive being written and read back. What is written
for a filter that passes the check holds no key twice, because a field path that
would collide with a connective does not pass, and it is read back as the settled
filter, level by level within the same limit on both sides. The other way round, a
document without repeated keys that is read as a filter is what that filter is
written as, and the filter is settled already.
-/

import ListQuery.Proofs.Filter.Operators

namespace ListQuery

/-! ### Conditions -/

namespace Condition

/-- The value of a condition is read as the settled condition. -/
theorem ofJson_toJson (condition : Condition) :
    ofJson condition.toJson = .ok condition.settled := by
  cases condition with
  | bare value =>
    cases marked : value.operatorMembers? with
    | some members =>
      simp only [toJson, settled, marked]
      rfl
    | none => simp only [toJson, settled, ofJson, marked]
  | operators set =>
    obtain ⟨comparisons, distinct⟩ := set
    cases comparisons with
    | nil => rfl
    | cons comparison rest =>
      have marked : (OperatorSet.toJson ⟨comparison :: rest, distinct⟩).operatorMembers? =
          some ((comparison :: rest).map Comparison.toMember) :=
        if_pos (Operator.startsWithDollar_key comparison.operator)
      have read : OperatorSet.ofMembers ((comparison :: rest).map Comparison.toMember) =
          .ok ⟨comparison :: rest, distinct⟩ :=
        OperatorSet.ofMembers_toMembers ⟨comparison :: rest, distinct⟩ (List.cons_ne_nil _ _)
      simp only [toJson, ofJson, marked, read]
      rfl

/-- Settling a condition does not change what is written for it. -/
theorem toJson_settled (condition : Condition) : condition.settled.toJson = condition.toJson := by
  cases condition with
  | bare value =>
    cases marked : value.operatorMembers? with
    | some members =>
      simp only [toJson, settled, marked]
      rfl
    | none => simp only [toJson, settled, marked]
  | operators set =>
    obtain ⟨comparisons, distinct⟩ := set
    cases comparisons <;> rfl

/-- A condition that was read is settled and is written as the value it was read from. -/
theorem toJson_of_ofJson {value : Json} (wellFormed : value.WellFormed) {condition : Condition}
    (read : ofJson value = .ok condition) :
    condition.toJson = value ∧ condition.settled = condition := by
  unfold ofJson at read
  cases marked : value.operatorMembers? with
  | none =>
    rw [marked] at read
    cases read
    constructor
    · simp only [toJson, marked]
    · simp only [settled, marked]
  | some members =>
    rw [marked] at read
    obtain ⟨set, setRead, same⟩ := Traversal.bind_eq_ok.mp read
    cases same
    have isObject : value = .object members := by
      unfold Json.operatorMembers? at marked
      split at marked
      · split at marked <;> cases marked
        rfl
      · cases marked
    rw [isObject, Json.wellFormed_object] at wellFormed
    obtain ⟨written, nonempty⟩ := OperatorSet.toMembers_of_ofMembers wellFormed.1 setRead
    constructor
    · rw [isObject, ← written]
      rfl
    · rw [settled, if_neg fun empty => nonempty (List.isEmpty_iff.mp empty)]

/-- The value of a well-formed condition is well formed. -/
theorem toJson_wellFormed {condition : Condition} (wellFormed : condition.WellFormed) :
    condition.toJson.WellFormed := by
  cases condition with
  | bare value =>
    cases marked : value.operatorMembers? with
    | some members =>
      simp only [toJson, marked]
      rw [Json.wellFormed_object]
      refine ⟨List.pairwise_singleton _ _, fun member single => ?_⟩
      rw [List.mem_singleton.mp single]
      exact wellFormed
    | none =>
      simp only [toJson, marked]
      exact wellFormed
  | operators set =>
    refine Json.wellFormed_object.mpr ⟨?_, ?_⟩
    · exact OperatorSet.distinct_toMembers set
    · intro member written
      obtain ⟨comparison, held, rfl⟩ := List.mem_map.mp written
      exact wellFormed comparison held

/-- A condition that is written as a well-formed value is well formed. -/
theorem wellFormed_of_toJson {condition : Condition} (wellFormed : condition.toJson.WellFormed) :
    condition.WellFormed := by
  cases condition with
  | bare value =>
    cases marked : value.operatorMembers? with
    | some members =>
      simp only [toJson, marked] at wellFormed
      exact (Json.wellFormed_object.mp wellFormed).2 _ List.mem_cons_self
    | none =>
      simp only [toJson, marked] at wellFormed
      exact wellFormed
  | operators set =>
    intro comparison held
    exact (Json.wellFormed_object.mp wellFormed).2 _ (List.mem_map_of_mem held)

end Condition

/-! ### Clauses -/

/-- A free path differs from every key that starts with a dollar sign. -/
theorem ne_of_free {path key : String} (free : startsWithDollar path = false)
    (marked : startsWithDollar key = true) : path ≠ key := by
  rintro rfl
  rw [free] at marked
  cases marked

/-- The slot that a key belongs to in a document. -/
def Slot.ofKey (key : String) : Slot :=
  if key = Connective.all.key then .group .all
  else if key = Connective.any.key then .group .any
  else if key = negationKey then .negation
  else .field key

namespace Clause

/-! The key of a clause decides how its value is read. -/

theorem ofMember_group (decode : Json → Except ShapeFault Filter) (connective : Connective)
    (value : Json) :
    ofMember decode connective.key value =
      (do return .group connective (← branchesOfJson decode connective.key value)) := by
  cases connective with
  | all => exact if_pos rfl
  | any => exact (if_neg (by decide)).trans (if_pos rfl)

theorem ofMember_negation (decode : Json → Except ShapeFault Filter)
    (members : List (String × Json)) :
    ofMember decode negationKey (.object members) =
      (do return .negation (← decode (.object members))) :=
  (if_neg (by decide)).trans ((if_neg (by decide)).trans (if_pos rfl))

/-- The keys of connectives and negations start with a dollar sign, so no free path is one. -/
theorem ofMember_field {path : String} (free : startsWithDollar path = false)
    (decode : Json → Except ShapeFault Filter) (value : Json) :
    ofMember decode path value = (do return .field path (← Condition.ofJson value)) := by
  unfold ofMember
  rw [if_neg (ne_of_free free (by decide)), if_neg (ne_of_free free (by decide)),
    if_neg (ne_of_free free (by decide)), if_neg (by rw [free]; exact Bool.false_ne_true)]

/-- Branches are read one by one, when each is read. -/
theorem branchesOfJson_toJson {decode : Json → Except ShapeFault Filter} {key : String}
    {branches : List Filter}
    (each : ∀ branch ∈ branches, decode branch.toJson = .ok branch.settled) :
    branchesOfJson decode key (.array (branchesToJson branches)) =
      .ok (settledBranches branches) := by
  rw [branchesToJson_eq_map, settledBranches_eq_map, branchesOfJson, List.mapM_map]
  exact Traversal.mapM_eq_ok_map each

/-- The member of a clause is read as the settled clause, when the filters inside are. -/
theorem ofMember_toMember {decode : Json → Except ShapeFault Filter} {clause : Clause}
    (free : clause.PathFree)
    (each : ∀ branch ∈ clause.inner, decode branch.toJson = .ok branch.settled) :
    ofMember decode clause.toMember.1 clause.toMember.2 = .ok clause.settled := by
  cases clause with
  | field path condition =>
    rw [toMember, ofMember_field free, Condition.ofJson_toJson]
    rfl
  | group connective branches =>
    have read : branchesOfJson decode connective.key (.array (branchesToJson branches)) =
        .ok (settledBranches branches) := branchesOfJson_toJson each
    rw [toMember, ofMember_group, read]
    rfl
  | negation branch =>
    have read := each branch List.mem_cons_self
    rw [Filter.toJson] at read
    rw [toMember, ofMember_negation, read]
    rfl

theorem toMember_settled {clause : Clause}
    (each : ∀ branch ∈ clause.inner, branch.settled.toJson = branch.toJson) :
    clause.settled.toMember = clause.toMember := by
  cases clause with
  | field path condition =>
    rw [settled, toMember, toMember, Condition.toJson_settled]
  | group connective branches =>
    rw [settled, toMember, toMember, branchesToJson_eq_map, branchesToJson_eq_map,
      settledBranches_eq_map, List.map_map]
    exact congrArg (fun items => (connective.key, Json.array items)) (List.map_congr_left each)
  | negation branch =>
    exact congrArg (Prod.mk negationKey) (each branch List.mem_cons_self)

theorem map_key_toMember (clauses : List Clause) :
    (clauses.map toMember).map Prod.fst = clauses.map fun clause => clause.slot.key := by
  rw [List.map_map]
  exact List.map_congr_left fun clause _ => by cases clause <;> rfl

/-- The key of a clause whose path does not read like a connective tells its slot. -/
theorem ofKey_slot {clause : Clause} (free : clause.PathFree) :
    Slot.ofKey clause.slot.key = clause.slot := by
  cases clause with
  | field path condition =>
    exact (if_neg (ne_of_free free (by decide))).trans
      ((if_neg (ne_of_free free (by decide))).trans (if_neg (ne_of_free free (by decide))))
  | group connective branches => cases connective <;> rfl
  | negation branch => rfl

theorem toMember_wellFormed {clause : Clause} (value : clause.ValueWellFormed)
    (each : ∀ branch ∈ clause.inner, branch.toJson.WellFormed) :
    clause.toMember.2.WellFormed := by
  cases clause with
  | field path condition => exact Condition.toJson_wellFormed value
  | group connective branches =>
    rw [toMember, branchesToJson_eq_map, Json.wellFormed_array, List.forall_mem_map]
    exact each
  | negation branch => exact each branch List.mem_cons_self

end Clause

/-! ### Filters -/

namespace Filter

variable {filter : Filter}

/-- Reading an object as a filter is reading its members as clauses and putting them together. -/
theorem ofJsonWithin_object {levels : Nat} {members : List (String × Json)} :
    ofJsonWithin (levels + 1) (.object members) = .ok filter ↔
      ∃ clauses, members.mapM (fun member =>
          Clause.ofMember (ofJsonWithin levels) member.1 member.2) = .ok clauses ∧
        filter = Keyed.ofList Clause.slot clauses := by
  rw [ofJsonWithin, Traversal.foldlM_eq_mapM (fun member : String × Json =>
    Clause.ofMember (ofJsonWithin levels) member.1 member.2) Filter.put, Traversal.bind_eq_ok]
  constructor
  · rintro ⟨clauses, converted, same⟩
    cases same
    exact ⟨clauses, converted, rfl⟩
  · rintro ⟨clauses, converted, rfl⟩
    exact ⟨clauses, converted, rfl⟩

theorem distinct_settled (distinct : Keyed.Distinct Clause.slot filter) :
    Keyed.Distinct Clause.slot (filter.map Clause.settled) := by
  rw [Keyed.Distinct, List.map_map]
  exact (List.map_congr_left fun clause _ => Clause.slot_settled clause) ▸ distinct

/-- What is written for a filter is read back as the settled filter, level by level. -/
theorem ofJsonWithin_toJson {levels : Nat} (wellFormed : filter.WellFormed)
    (sendable : checkWithin levels filter = .ok ()) :
    ofJsonWithin levels filter.toJson = .ok filter.settled := by
  induction levels generalizing filter with
  | zero => cases sendable
  | succ levels inductionHypothesis =>
    rw [checkWithin_succ] at sendable
    rw [toJson, toMembers_eq_map, settled_eq_map, ofJsonWithin_object]
    refine ⟨filter.map Clause.settled, ?_, ?_⟩
    · rw [List.mapM_map]
      refine Traversal.mapM_eq_ok_map fun clause member => ?_
      refine Clause.ofMember_toMember (sendable clause member).1 fun branch inside => ?_
      exact inductionHypothesis (wellFormed.inner clause member branch inside)
        ((sendable clause member).2 branch inside)
    · exact (Keyed.ofList_of_distinct _ (distinct_settled wellFormed.distinct)).symm

/-- Settling a filter does not change what is written for it. -/
theorem toJson_settled (wellFormed : filter.WellFormed) :
    filter.settled.toJson = filter.toJson := by
  induction wellFormed with
  | @intro filter _ _ _ inductionHypothesis =>
    rw [toJson, toJson, toMembers_eq_map, toMembers_eq_map, settled_eq_map, List.map_map]
    exact congrArg Json.object (List.map_congr_left fun clause member =>
      Clause.toMember_settled (inductionHypothesis clause member))

/-- What is written for a filter that passes the check holds no key twice, at any level. -/
theorem toJson_wellFormed {levels : Nat} (wellFormed : filter.WellFormed)
    (sendable : checkWithin levels filter = .ok ()) : filter.toJson.WellFormed := by
  induction levels generalizing filter with
  | zero => cases sendable
  | succ levels inductionHypothesis =>
    rw [checkWithin_succ] at sendable
    rw [toJson, toMembers_eq_map, Json.wellFormed_object]
    constructor
    · -- Slots are distinct, and so are keys, since no free path is the key of a connective.
      have tells : ∀ first ∈ filter, ∀ second ∈ filter,
          first.slot.key = second.slot.key → first.slot = second.slot := by
        intro first inFirst second inSecond same
        rw [← Clause.ofKey_slot (sendable first inFirst).1, same,
          Clause.ofKey_slot (sendable second inSecond).1]
      rw [Keyed.Distinct, Clause.map_key_toMember]
      exact Keyed.distinct_map tells wellFormed.distinct
    · intro member written
      obtain ⟨clause, held, rfl⟩ := List.mem_map.mp written
      refine Clause.toMember_wellFormed (wellFormed.values clause held) fun branch inside => ?_
      exact inductionHypothesis (wellFormed.inner clause held branch inside)
        ((sendable clause held).2 branch inside)

/-- A filter that passes the check survives the wire. No key occurs twice in what is written for it;
it is read back with the same clauses in the same slots, settled at every level; and what is read
back is written as the same document. -/
theorem reread_eq_settled (built : filter.Built) (sendable : filter.check = .ok ()) :
    filter.toJson.WellFormed ∧ ofJson filter.toJson = .ok filter.settled ∧
      filter.settled.map Clause.slot = filter.map Clause.slot ∧
      filter.settled.toJson = filter.toJson := by
  have wellFormed := built.wellFormed
  refine ⟨toJson_wellFormed wellFormed sendable, ofJsonWithin_toJson wellFormed sendable, ?_,
    toJson_settled wellFormed⟩
  rw [settled_eq_map, List.map_map]
  exact List.map_congr_left fun clause _ => Clause.slot_settled clause

/-- A filter with the two conditions that are not read back as they were, both inside others. -/
def lookalikes : Filter :=
  (Filter.empty.group .any [Filter.empty.equals "a" (.object [("$gt", .null)])]).negation
    (Filter.empty.field "b" (.operators .empty))

/-- Inside a group and a negation, the value that looks like an operator document becomes a test for
equality, and the set without operators an empty value. -/
theorem reread_lookalikes :
    lookalikes.Built ∧ lookalikes.check = .ok () ∧
      ofJson lookalikes.toJson =
        .ok ((Filter.empty.group .any [Filter.empty.field "a" (.operators
            (OperatorSet.empty.put (.scalar .eq (.object [("$gt", .null)]))))]).negation
          (Filter.empty.equals "b" (.object []))) := by
  have valueBuilt : (Filter.empty.equals "a" (.object [("$gt", .null)])).Built :=
    .field "a" _ .empty (Json.wellFormed_object.mpr
      ⟨List.pairwise_singleton _ _, List.forall_mem_singleton.mpr trivial⟩)
  have setBuilt : (Filter.empty.field "b" (.operators .empty)).Built := .field "b" _ .empty nofun
  have built : lookalikes.Built :=
    .negation (.group .any _ .empty (List.forall_mem_singleton.mpr valueBuilt)) setBuilt
  exact ⟨built, rfl, (reread_eq_settled built rfl).2.1⟩

end Filter

end ListQuery
