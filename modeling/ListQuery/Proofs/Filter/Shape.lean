/-
This file proves that reading a filter accepts exactly the documented shape. The
shape is told without the decoder: which members an object may have, what an operator
takes for an operand, and how deep filters may lie inside each other. What has the
shape is read, and is written again as the very document that it was read from; all
else is refused, with a fault that is about filters.
-/

import ListQuery.Proofs.Filter.Reading
import ListQuery.Proofs.Levels

namespace ListQuery

/-! ### The documented shape -/

/-- The members of operator documents: a known operator with an operand of the type it takes. -/
inductive IsComparison : String × Json → Prop
  | scalar {key : String} {operand : Json}
      (known : key ∈ ["$eq", "$ne", "$gt", "$gte", "$lt", "$lte"]) : IsComparison (key, operand)
  | list {key : String} {operands : List Json} (known : key ∈ ["$in", "$nin"]) :
      IsComparison (key, .array operands)
  | pattern {key text : String} (known : key ∈ ["$like", "$ilike"]) :
      IsComparison (key, .string text)
  | pair {low high : Json} : IsComparison ("$between", .array [low, high])
  | flag {key : String} {holds : Bool} (known : key ∈ ["$exists", "$null"]) :
      IsComparison (key, .boolean holds)

/-- The values of fields. The first key alone decides whether an object is an operator document, and
then every member has to be a comparison. -/
def Json.IsCondition (value : Json) : Prop :=
  ∀ first others, value = .object (first :: others) → startsWithDollar first.1 = true →
    ∀ member ∈ first :: others, IsComparison member

/-- The members of filter documents, whatever the filters inside them are like. -/
inductive IsClause : String × Json → Prop
  | group {key : String} {items : List Json} (connective : key ∈ ["$and", "$or"]) :
      IsClause (key, .array items)
  | negation {value : Json} : IsClause ("$not", value)
  | field {path : String} {value : Json} (free : startsWithDollar path = false)
      (condition : value.IsCondition) : IsClause (path, value)

/-- The documents inside a member that stand in the place of filters. -/
inductive IsBranch : String × Json → Json → Prop
  | group {key : String} {items : List Json} {item : Json} (connective : key ∈ ["$and", "$or"])
      (held : item ∈ items) : IsBranch (key, .array items) item
  | negation {value : Json} : IsBranch ("$not", value) value

/-- The documents of filters, however deep: objects whose members are clauses with such documents
inside them. -/
inductive Json.IsFilter : Json → Prop
  | object {members : List (String × Json)} (clauses : ∀ member ∈ members, IsClause member)
      (branches : ∀ member ∈ members, ∀ branch, IsBranch member branch → IsFilter branch) :
      IsFilter (.object members)

/-- A document stands in the place of a filter in a member of a document. -/
inductive Json.HasBranch : Json → Json → Prop
  | object {members : List (String × Json)} {member : String × Json} {branch : Json}
      (held : member ∈ members) (inside : IsBranch member branch) :
      HasBranch (.object members) branch

/-- A document stands in the place of a filter under so many connectives and negations. -/
abbrev Json.HoldsFilter : Json → Nat → Json → Prop :=
  Levels.Holds Json.HasBranch

/-- The faults that are about filters and their documents. -/
def ShapeFault.IsOfFilter : ShapeFault → Prop
  | .filterNotObject | .filterTooDeep | .unknownConnective _ | .branchesNotArray _
  | .branchNotObject _ | .negationNotObject | .unknownOperator _ | .operandNotArray _
  | .operandNotString _ | .operandNotBoolean _ | .operandNotPair => True
  | _ => False

/-! ### Comparisons -/

/-- The members of operator documents are those that are written for comparisons. -/
theorem isComparison_iff {member : String × Json} :
    IsComparison member ↔ ∃ comparison : Comparison, comparison.toMember = member := by
  constructor
  · intro shape
    cases shape with
    | @scalar key operand known =>
      have named : key ∈ [.eq, .ne, .gt, .gte, .lt, .lte].map fun test =>
        (Operator.scalar test).key := known
      obtain ⟨test, _, rfl⟩ := List.mem_map.mp named
      exact ⟨.scalar test operand, rfl⟩
    | @list key operands known =>
      have named : key ∈ [.within, .outside].map fun test => (Operator.list test).key := known
      obtain ⟨test, _, rfl⟩ := List.mem_map.mp named
      exact ⟨.list test operands, rfl⟩
    | @pattern key text known =>
      have named : key ∈ [.like, .ilike].map fun test => (Operator.pattern test).key := known
      obtain ⟨test, _, rfl⟩ := List.mem_map.mp named
      exact ⟨.pattern test text, rfl⟩
    | @pair low high => exact ⟨.between low high, rfl⟩
    | @flag key holds known =>
      have named : key ∈ [.present, .null].map fun test => (Operator.flag test).key := known
      obtain ⟨test, _, rfl⟩ := List.mem_map.mp named
      exact ⟨.flag test holds, rfl⟩
  · rintro ⟨comparison, rfl⟩
    cases comparison with
    | scalar test operand =>
      have known : (Operator.scalar test).key ∈ ["$eq", "$ne", "$gt", "$gte", "$lt", "$lte"] := by
        cases test <;> decide
      exact .scalar known
    | list test operands =>
      have known : (Operator.list test).key ∈ ["$in", "$nin"] := by cases test <;> decide
      exact .list known
    | pattern test text =>
      have known : (Operator.pattern test).key ∈ ["$like", "$ilike"] := by cases test <;> decide
      exact .pattern known
    | between low high => exact .pair
    | flag test holds =>
      have known : (Operator.flag test).key ∈ ["$exists", "$null"] := by cases test <;> decide
      exact .flag known

theorem Comparison.exists_ofMember_iff {member : String × Json} :
    (∃ comparison, ofMember member.1 member.2 = .ok comparison) ↔ IsComparison member := by
  rw [isComparison_iff]
  constructor
  · rintro ⟨comparison, read⟩
    exact ⟨comparison, toMember_of_ofMember read⟩
  · rintro ⟨comparison, rfl⟩
    exact ⟨comparison, ofMember_toMember comparison⟩

theorem Comparison.isOfFilter_of_ofMember {member : String × Json} {fault : ShapeFault}
    (failed : ofMember member.1 member.2 = .error fault) : fault.IsOfFilter := by
  unfold ofMember at failed
  split at failed
  · unfold ofOperand at failed
    split at failed <;> cases failed <;> trivial
  · cases failed
    trivial

/-! ### Conditions -/

theorem Json.operatorMembers?_eq_some {value : Json} {members : List (String × Json)} :
    value.operatorMembers? = some members ↔
      ∃ first others, value = .object (first :: others) ∧ startsWithDollar first.1 = true ∧
        members = first :: others := by
  unfold operatorMembers?
  split
  · rename_i key operand rest
    cases marked : startsWithDollar key with
    | true =>
      constructor
      · intro same
        cases same
        exact ⟨_, _, rfl, marked, rfl⟩
      · rintro ⟨_, _, same, _, rfl⟩
        cases same
        rfl
    | false =>
      refine ⟨nofun, ?_⟩
      rintro ⟨_, _, same, marks, _⟩
      cases same
      rw [marked] at marks
      cases marks
  · rename_i other
    refine ⟨nofun, ?_⟩
    rintro ⟨first, others, rfl, _⟩
    exact absurd rfl (other first.1 first.2 others)

namespace OperatorSet

theorem exists_ofMembers_iff {members : List (String × Json)} :
    (∃ set, ofMembers members = .ok set) ↔
      members ≠ [] ∧ ∀ member ∈ members, IsComparison member := by
  simp only [← Comparison.exists_ofMember_iff]
  rw [← Traversal.exists_mapM_iff]
  constructor
  · rintro ⟨set, read⟩
    obtain ⟨nonempty, comparisons, converted, _⟩ := ofMembers_eq_ok.mp read
    exact ⟨nonempty, comparisons, converted⟩
  · rintro ⟨nonempty, comparisons, converted⟩
    exact ⟨⟨_, Keyed.distinct_ofList _ comparisons⟩,
      ofMembers_eq_ok.mpr ⟨nonempty, comparisons, converted, rfl⟩⟩

theorem isOfFilter_of_ofMembers {members : List (String × Json)} (nonempty : members ≠ [])
    {fault : ShapeFault} (failed : ofMembers members = .error fault) : fault.IsOfFilter := by
  unfold ofMembers at failed
  rw [if_neg fun empty => nonempty (List.isEmpty_iff.mp empty),
    Traversal.foldlM_eq_mapM (fun member : String × Json =>
      Comparison.ofMember member.1 member.2) OperatorSet.put] at failed
  obtain ⟨member, _, memberFailed⟩ :=
    Traversal.exists_of_mapM_error (Traversal.bind_pure_eq_error.mp failed)
  exact Comparison.isOfFilter_of_ofMember memberFailed

end OperatorSet

namespace Condition

theorem exists_ofJson_iff {value : Json} :
    (∃ condition, ofJson value = .ok condition) ↔ value.IsCondition := by
  unfold ofJson
  cases marked : value.operatorMembers? with
  | none =>
    refine ⟨fun _ first others same marks => ?_, fun _ => ⟨.bare value, rfl⟩⟩
    rw [Json.operatorMembers?_eq_some.mpr ⟨first, others, same, marks, rfl⟩] at marked
    cases marked
  | some members =>
    obtain ⟨first, others, rfl, marks, rfl⟩ := Json.operatorMembers?_eq_some.mp marked
    constructor
    · rintro ⟨condition, read⟩ _ _ ⟨⟩ _
      obtain ⟨set, setRead, _⟩ := Traversal.bind_eq_ok.mp read
      exact (OperatorSet.exists_ofMembers_iff.mp ⟨set, setRead⟩).2
    · intro shape
      obtain ⟨set, setRead⟩ := OperatorSet.exists_ofMembers_iff.mpr
        ⟨List.cons_ne_nil first others, shape first others rfl marks⟩
      exact ⟨.operators set, Traversal.bind_eq_ok.mpr ⟨set, setRead, rfl⟩⟩

theorem isOfFilter_of_ofJson {value : Json} {fault : ShapeFault}
    (failed : ofJson value = .error fault) : fault.IsOfFilter := by
  unfold ofJson at failed
  split at failed
  · rename_i members marked
    obtain ⟨first, others, _, _, rfl⟩ := Json.operatorMembers?_eq_some.mp marked
    exact OperatorSet.isOfFilter_of_ofMembers (List.cons_ne_nil _ _)
      (Traversal.bind_pure_eq_error.mp failed)
  · cases failed

end Condition

/-! ### Clauses -/

theorem Connective.startsWithDollar_key (connective : Connective) :
    startsWithDollar connective.key = true := by
  cases connective <;> decide

theorem Connective.key_ne_negationKey (connective : Connective) :
    connective.key ≠ negationKey := by
  cases connective <;> decide

theorem mem_connectiveKeys {key : String} :
    key ∈ ["$and", "$or"] ↔ ∃ connective : Connective, key = connective.key := by
  constructor
  · intro named
    have mapped : key ∈ [Connective.all, .any].map Connective.key := named
    obtain ⟨connective, _, rfl⟩ := List.mem_map.mp mapped
    exact ⟨connective, rfl⟩
  · rintro ⟨connective, rfl⟩
    cases connective <;> decide

section Members

variable {key : String} {value branch : Json}

theorem isClause_iff :
    IsClause (key, value) ↔
      (∃ connective items, key = Connective.key connective ∧ value = .array items) ∨
        key = negationKey ∨ startsWithDollar key = false ∧ value.IsCondition := by
  constructor
  · intro shape
    cases shape with
    | @group _ items named =>
      obtain ⟨connective, rfl⟩ := mem_connectiveKeys.mp named
      exact .inl ⟨connective, items, rfl, rfl⟩
    | negation => exact .inr (.inl rfl)
    | field free condition => exact .inr (.inr ⟨free, condition⟩)
  · rintro (⟨connective, items, rfl, rfl⟩ | rfl | ⟨free, condition⟩)
    · exact .group (mem_connectiveKeys.mpr ⟨connective, rfl⟩)
    · exact .negation
    · exact .field free condition

theorem isBranch_iff :
    IsBranch (key, value) branch ↔
      (∃ connective items, key = Connective.key connective ∧ value = .array items ∧
        branch ∈ items) ∨ key = negationKey ∧ branch = value := by
  constructor
  · intro inside
    cases inside with
    | @group _ items _ named held =>
      obtain ⟨connective, rfl⟩ := mem_connectiveKeys.mp named
      exact .inl ⟨connective, items, rfl, rfl, held⟩
    | negation => exact .inr ⟨rfl, rfl⟩
  · rintro (⟨connective, items, rfl, rfl, held⟩ | ⟨rfl, rfl⟩)
    · exact .group (mem_connectiveKeys.mpr ⟨connective, rfl⟩) held
    · exact .negation

end Members

namespace Clause

variable {decode : Json → Except ShapeFault Filter} {key : String} {value : Json}

/-- Branches are read when they are decoded, since nothing but an object is. -/
theorem branchesOfJson_of_mapM
    (object : ∀ document filter, decode document = .ok filter →
      ∃ members, document = .object members)
    {items : List Json} {branches : List Filter} (decoded : items.mapM decode = .ok branches) :
    branchesOfJson decode key (.array items) = .ok branches := by
  refine Traversal.mapM_congr_ok decoded fun item _ branch single => ?_
  obtain ⟨members, rfl⟩ := object item branch single
  exact single

/-- A member is read exactly when it is a clause whose branches are decoded. -/
theorem exists_ofMember_iff
    (object : ∀ document filter, decode document = .ok filter →
      ∃ members, document = .object members) :
    (∃ clause, ofMember decode key value = .ok clause) ↔
      IsClause (key, value) ∧
        ∀ branch, IsBranch (key, value) branch → ∃ filter, decode branch = .ok filter := by
  constructor
  · rintro ⟨clause, read⟩
    rcases ofMember_cases read with ⟨connective, items, branches, rfl, rfl, itemsRead, _⟩ |
      ⟨filter, rfl, filterRead, _⟩ | ⟨condition, free, conditionRead, _⟩
    · refine ⟨isClause_iff.mpr (.inl ⟨connective, items, rfl, rfl⟩), fun branch inside => ?_⟩
      rcases isBranch_iff.mp inside with ⟨_, _, _, same, held⟩ | ⟨same, _⟩
      · cases same
        exact Traversal.exists_mapM_iff.mp ⟨branches, itemsRead⟩ branch held
      · exact absurd same connective.key_ne_negationKey
    · refine ⟨isClause_iff.mpr (.inr (.inl rfl)), fun branch inside => ?_⟩
      rcases isBranch_iff.mp inside with ⟨connective, _, same, _⟩ | ⟨_, rfl⟩
      · exact absurd same.symm connective.key_ne_negationKey
      · exact ⟨filter, filterRead⟩
    · have shape := Condition.exists_ofJson_iff.mp ⟨condition, conditionRead⟩
      refine ⟨isClause_iff.mpr (.inr (.inr ⟨free, shape⟩)), fun branch inside => ?_⟩
      rcases isBranch_iff.mp inside with ⟨connective, _, same, _⟩ | ⟨same, _⟩
      · exact absurd same (ne_of_free free connective.startsWithDollar_key)
      · exact absurd same (ne_of_free free (by decide))
  · rintro ⟨shape, each⟩
    rcases isClause_iff.mp shape with ⟨connective, items, rfl, rfl⟩ | rfl | ⟨free, condition⟩
    · obtain ⟨branches, decoded⟩ := Traversal.exists_mapM_iff.mpr fun item held =>
        each item (isBranch_iff.mpr (.inl ⟨connective, items, rfl, rfl, held⟩))
      refine ⟨.group connective branches, ?_⟩
      rw [ofMember_group, branchesOfJson_of_mapM object decoded]
      rfl
    · obtain ⟨filter, decoded⟩ := each value (isBranch_iff.mpr (.inr ⟨rfl, rfl⟩))
      obtain ⟨members, rfl⟩ := object value filter decoded
      refine ⟨.negation filter, ?_⟩
      rw [ofMember_negation, decoded]
      rfl
    · obtain ⟨read, conditionRead⟩ := Condition.exists_ofJson_iff.mpr condition
      refine ⟨.field key read, ?_⟩
      rw [ofMember_field free, conditionRead]
      rfl

theorem isOfFilter_of_branchesOfJson
    (each : ∀ document fault, decode document = .error fault → fault.IsOfFilter)
    {fault : ShapeFault} (failed : branchesOfJson decode key value = .error fault) :
    fault.IsOfFilter := by
  unfold branchesOfJson at failed
  split at failed
  · obtain ⟨item, _, itemFailed⟩ := Traversal.exists_of_mapM_error failed
    split at itemFailed
    · exact each _ fault itemFailed
    · cases itemFailed
      trivial
  · cases failed
    trivial

theorem isOfFilter_of_ofMember
    (each : ∀ document fault, decode document = .error fault → fault.IsOfFilter)
    {fault : ShapeFault} (failed : ofMember decode key value = .error fault) :
    fault.IsOfFilter := by
  unfold ofMember at failed
  split at failed
  · exact isOfFilter_of_branchesOfJson each (Traversal.bind_pure_eq_error.mp failed)
  split at failed
  · exact isOfFilter_of_branchesOfJson each (Traversal.bind_pure_eq_error.mp failed)
  split at failed
  · split at failed
    · exact each _ fault (Traversal.bind_pure_eq_error.mp failed)
    · cases failed
      trivial
  split at failed
  · cases failed
    trivial
  · exact Condition.isOfFilter_of_ofJson (Traversal.bind_pure_eq_error.mp failed)

end Clause

/-! ### Filters -/

namespace Filter

variable {levels : Nat} {document : Json}

theorem object_of_ofJsonWithin {filter : Filter}
    (read : ofJsonWithin levels document = .ok filter) :
    ∃ members, document = .object members := by
  unfold ofJsonWithin at read
  split at read
  · cases read
  · exact ⟨_, rfl⟩
  · cases read

/-- An object is read as a filter exactly when its members are clauses whose branches are read at
one level less. -/
theorem exists_ofJsonWithin_object {members : List (String × Json)} :
    (∃ filter, ofJsonWithin (levels + 1) (.object members) = .ok filter) ↔
      ∀ member ∈ members, IsClause member ∧
        ∀ branch, IsBranch member branch → ∃ filter, ofJsonWithin levels branch = .ok filter := by
  have each : ∀ member : String × Json,
      (∃ clause, Clause.ofMember (ofJsonWithin levels) member.1 member.2 = .ok clause) ↔
        IsClause member ∧
          ∀ branch, IsBranch member branch → ∃ filter, ofJsonWithin levels branch = .ok filter :=
    fun _ => Clause.exists_ofMember_iff fun _ _ => object_of_ofJsonWithin
  constructor
  · rintro ⟨filter, read⟩ member held
    obtain ⟨clauses, converted, _⟩ := ofJsonWithin_object.mp read
    exact (each member).mp (Traversal.exists_mapM_iff.mp ⟨clauses, converted⟩ member held)
  · intro shape
    obtain ⟨clauses, converted⟩ := Traversal.exists_mapM_iff.mpr fun member held =>
      (each member).mpr (shape member held)
    exact ⟨_, ofJsonWithin_object.mpr ⟨clauses, converted, rfl⟩⟩

/-- What is read at some levels has the shape, and no filter in it lies deeper. -/
theorem exists_ofJsonWithin_iff :
    (∃ filter, ofJsonWithin levels document = .ok filter) ↔
      document.IsFilter ∧ Levels.Fits Json.HasBranch levels document := by
  induction levels generalizing document with
  | zero =>
    constructor
    · rintro ⟨filter, read⟩
      cases read
    · exact fun held => absurd held.2 Levels.not_fits_zero
  | succ levels inductionHypothesis =>
    rw [Levels.fits_succ]
    constructor
    · rintro ⟨filter, read⟩
      obtain ⟨members, rfl⟩ := object_of_ofJsonWithin read
      have each := exists_ofJsonWithin_object.mp ⟨filter, read⟩
      have inside := fun member held branch isBranch =>
        inductionHypothesis.mp ((each member held).2 branch isBranch)
      refine ⟨.object (fun member held => (each member held).1)
        fun member held branch isBranch => (inside member held branch isBranch).1, ?_⟩
      rintro branch ⟨held, isBranch⟩
      exact (inside _ held branch isBranch).2
    · rintro ⟨shape, fits⟩
      cases shape with
      | object clauses branches =>
        exact exists_ofJsonWithin_object.mpr fun member held =>
          ⟨clauses member held, fun branch isBranch => inductionHypothesis.mpr
            ⟨branches member held branch isBranch, fits branch (.object held isBranch)⟩⟩

theorem isOfFilter_of_ofJsonWithin {fault : ShapeFault}
    (failed : ofJsonWithin levels document = .error fault) : fault.IsOfFilter := by
  induction levels generalizing document fault with
  | zero =>
    cases failed
    trivial
  | succ levels inductionHypothesis =>
    cases document with
    | object members =>
      rw [ofJsonWithin, Traversal.foldlM_eq_mapM (fun member : String × Json =>
        Clause.ofMember (ofJsonWithin levels) member.1 member.2) Filter.put] at failed
      obtain ⟨member, _, memberFailed⟩ :=
        Traversal.exists_of_mapM_error (Traversal.bind_pure_eq_error.mp failed)
      exact Clause.isOfFilter_of_ofMember (fun _ _ => inductionHypothesis) memberFailed
    | null | boolean | number | string | array =>
      cases failed
      trivial

/-- Reading a filter accepts exactly the documented shape, and writing the filter undoes it. What is
refused is refused with a fault that is about filters; what is read passes the check, and it is
written as the very document that it was read from. -/
theorem ofJson_documented (wellFormed : document.WellFormed) :
    ((∃ filter, ofJson document = .ok filter) ↔
      document.IsFilter ∧ ∀ count inner, document.HoldsFilter count inner → count ≤ 32) ∧
    (∀ fault, ofJson document = .error fault → fault.IsOfFilter) ∧
    ∀ filter, ofJson document = .ok filter → filter.check = .ok () ∧ filter.toJson = document := by
  refine ⟨?_, fun _ => isOfFilter_of_ofJsonWithin, fun filter read => ?_⟩
  · rw [ofJson, exists_ofJsonWithin_iff]
    simp only [Levels.Fits, maxNesting, Nat.lt_succ_iff]
  · have held := readFrom_of_ofJsonWithin wellFormed read
    exact ⟨held.sendable, held.written⟩

/-- A document with a field beside a group, a negation in the group, and operators in both. -/
def mixed : Json :=
  .object [("name", .string "x"), ("$or", .array [
    .object [("age", .object [("$in", .array [.null])])],
    .object [("$not", .object [("born", .object [("$between", .array [.null, .null]),
      ("$exists", .boolean true)])])]])]

theorem ofJson_mixed :
    mixed.WellFormed ∧ mixed.IsFilter ∧
      (∀ count inner, mixed.HoldsFilter count inner → count ≤ 32) ∧
      ∃ filter, ofJson mixed = .ok filter ∧ filter.check = .ok () ∧ filter.toJson = mixed := by
  have wellFormed : mixed.WellFormed := by
    simp [mixed, Json.WellFormed, Json.ItemsWellFormed, Json.MembersWellFormed, Keyed.Distinct]
  have read : ∃ filter, ofJson mixed = .ok filter := ⟨_, rfl⟩
  obtain ⟨accepted, _, kept⟩ := ofJson_documented wellFormed
  obtain ⟨shape, bounded⟩ := accepted.mp read
  obtain ⟨filter, filterRead⟩ := read
  exact ⟨wellFormed, shape, bounded, filter, filterRead, kept filter filterRead⟩

end Filter

end ListQuery
