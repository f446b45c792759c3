/-
This file proves that a bare value is a shorthand. A filter document may give the
value that a field is to be equal to in place of a test for equality; writing all
these tests out is a change of the document, and taking the normal form is a change
of the filter. The two are the same change, made before reading and after it. So
documents that differ in the shorthand only are read as filters with one normal form.
-/

import ListQuery.Proofs.Filter.Meaning
import ListQuery.Proofs.Filter.Reading
import ListQuery.Proofs.Parameters

namespace ListQuery

/-! ### Documents without the shorthand -/

namespace Json

/-- The value of a field, with a test for equality in place of a bare value. -/
def explicitValue (value : Json) : Json :=
  match value.operatorMembers? with
  | some _ => value
  | none => .object [("$eq", value)]

mutual

/-- A filter document, or an array of them, with a test for equality in place of every bare value of
a field. What is inside the values of fields stays as it is. -/
def explicit : Json → Json
  | .array items => .array (explicitItems items)
  | .object members => .object (explicitMembers members)
  | document => document
termination_by structural document => document

/-- Filter documents one by one. -/
def explicitItems : List Json → List Json
  | [] => []
  | item :: rest => explicit item :: explicitItems rest
termination_by structural items => items

/-- The members of a filter document: filters under connectives, and the values of fields. -/
def explicitMembers : List (String × Json) → List (String × Json)
  | [] => []
  | (key, value) :: rest =>
    (key, if key ∈ ["$and", "$or", "$not"] then explicit value else explicitValue value) ::
      explicitMembers rest
termination_by structural members => members

end

/-- A member of a filter document. -/
def explicitMember (member : String × Json) : String × Json :=
  (member.1, if member.1 ∈ ["$and", "$or", "$not"] then member.2.explicit
    else member.2.explicitValue)

theorem explicitItems_eq_map (items : List Json) : explicitItems items = items.map explicit := by
  induction items with
  | nil => rfl
  | cons item rest inductionHypothesis =>
    rw [explicitItems, inductionHypothesis, List.map_cons]

theorem explicitMembers_eq_map (members : List (String × Json)) :
    explicitMembers members = members.map explicitMember := by
  induction members with
  | nil => rfl
  | cons member rest inductionHypothesis =>
    rw [explicitMembers, inductionHypothesis, List.map_cons, explicitMember]

/-- The keys of connectives and of negations are those that filters stand under. -/
theorem explicitMember_connective {key : String} (isConnective : key ∈ ["$and", "$or", "$not"])
    (value : Json) : explicitMember (key, value) = (key, value.explicit) :=
  congrArg (Prod.mk key) (if_pos isConnective)

theorem explicitMember_field {path : String} (free : startsWithDollar path = false)
    (value : Json) : explicitMember (path, value) = (path, value.explicitValue) := by
  have notConnective : path ∉ ["$and", "$or", "$not"] := by
    intro isConnective
    have marked : ∀ key ∈ ["$and", "$or", "$not"], startsWithDollar key = true := by decide
    exact ne_of_free free (marked path isConnective) rfl
  exact congrArg (Prod.mk path) (if_neg notConnective)

end Json

/-! ### Normal forms -/

mutual

/-- A normal form is its own normal form. -/
theorem Clause.normalized_normalized : ∀ clause : Clause,
    clause.normalized.normalized = clause.normalized
  | .field _ (.bare _) => rfl
  | .field _ (.operators _) => rfl
  | .group connective branches =>
    congrArg (Clause.group connective) (normalizedBranches_normalizedBranches branches)
  | .negation branch => congrArg Clause.negation (Filter.normalized_normalized branch)

theorem Filter.normalized_normalized : ∀ filter : Filter,
    filter.normalized.normalized = filter.normalized
  | [] => rfl
  | clause :: rest =>
    congrArg₂ List.cons (Clause.normalized_normalized clause) (Filter.normalized_normalized rest)

theorem normalizedBranches_normalizedBranches : ∀ branches : List Filter,
    normalizedBranches (normalizedBranches branches) = normalizedBranches branches
  | [] => rfl
  | branch :: rest =>
    congrArg₂ List.cons (Filter.normalized_normalized branch)
      (normalizedBranches_normalizedBranches rest)

end

theorem Clause.slot_normalized (clause : Clause) : clause.normalized.slot = clause.slot := by
  cases clause <;> rfl

namespace Condition

/-- The normal form of a condition that was read is written as the explicit value, and it is settled
as well. -/
theorem normalized_of_ofJson {value : Json} (wellFormed : value.WellFormed) {condition : Condition}
    (read : ofJson value = .ok condition) :
    condition.normalized.toJson = value.explicitValue ∧
      condition.normalized.settled = condition.normalized := by
  obtain ⟨written, settled⟩ := toJson_of_ofJson wellFormed read
  unfold ofJson at read
  unfold Json.explicitValue
  cases marked : value.operatorMembers? with
  | none =>
    rw [marked] at read
    cases read
    exact ⟨rfl, rfl⟩
  | some members =>
    rw [marked] at read
    obtain ⟨set, _, same⟩ := Traversal.bind_eq_ok.mp read
    cases same
    exact ⟨written, settled⟩

end Condition

/-! ### Reading without the shorthand -/

namespace Clause

variable {decode : Json → Except ShapeFault Filter} {key : String} {value : Json} {clause : Clause}

/-- The normal form of a clause is what is read from the explicit member, when that is so of the
filters inside. -/
theorem normalized_readFrom {levels : Nat}
    (each : ∀ document filter, document.WellFormed → decode document = .ok filter →
      filter.normalized.ReadFrom levels document.explicit)
    (wellFormed : value.WellFormed) (read : ofMember decode key value = .ok clause) :
    clause.normalized.ReadFrom levels (Json.explicitMember (key, value)) := by
  rcases ofMember_cases read with ⟨connective, items, branches, rfl, rfl, itemsRead, rfl⟩ |
    ⟨branch, rfl, branchRead, rfl⟩ | ⟨condition, free, conditionRead, rfl⟩
  · rw [Json.wellFormed_array] at wellFormed
    have inside : ∀ branch ∈ branches, ∃ item : Json,
        branch.normalized.ReadFrom levels item.explicit := by
      intro branch member
      obtain ⟨item, inItems, itemRead⟩ := Traversal.exists_of_mapM itemsRead member
      exact ⟨item, each item branch (wellFormed item inItems) itemRead⟩
    have written : branches.map (fun branch => branch.normalized.toJson) =
        items.map Json.explicit :=
      Traversal.map_eq_of_mapM itemsRead fun item inItems branch itemRead =>
        (each item branch (wellFormed item inItems) itemRead).written
    have isConnective : connective.key ∈ ["$and", "$or", "$not"] := by cases connective <;> decide
    refine ⟨?_, ?_, trivial, trivial, ?_⟩
    · rw [normalized, toMember, normalizedBranches_eq_map, branchesToJson_eq_map, List.map_map,
        Json.explicitMember_connective isConnective, Json.explicit, Json.explicitItems_eq_map]
      exact congrArg (fun items => (connective.key, Json.array items)) written
    · rw [normalized, settled, normalizedBranches_eq_map, settledBranches_eq_map, List.map_map]
      refine congrArg (group connective) (List.map_congr_left fun branch member => ?_)
      obtain ⟨_, held⟩ := inside branch member
      exact held.settled
    · intro branch member
      rw [normalized, inner, normalizedBranches_eq_map] at member
      obtain ⟨source, inBranches, rfl⟩ := List.mem_map.mp member
      obtain ⟨_, held⟩ := inside source inBranches
      exact ⟨held.wellFormed, held.sendable⟩
  · have held := each value branch wellFormed branchRead
    refine ⟨?_, ?_, trivial, trivial, List.forall_mem_singleton.mpr ?_⟩
    · rw [Json.explicitMember_connective (by decide)]
      exact congrArg (Prod.mk negationKey) held.written
    · exact congrArg negation held.settled
    · exact ⟨held.wellFormed, held.sendable⟩
  · obtain ⟨written, conditionSettled⟩ := Condition.normalized_of_ofJson wellFormed conditionRead
    refine ⟨?_, ?_, ?_, free, fun _ inside => absurd inside List.not_mem_nil⟩
    · rw [normalized, toMember, written, Json.explicitMember_field free]
    · rw [normalized, settled, conditionSettled]
    · have conditionWritten := (Condition.toJson_of_ofJson wellFormed conditionRead).1
      exact Condition.normalized_wellFormed
        (Condition.wellFormed_of_toJson (conditionWritten.symm ▸ wellFormed))

end Clause

namespace Filter

variable {document : Json} {filter : Filter}

/-- The normal form of a filter that was read is what is read from the explicit document, at the
same levels. -/
theorem normalized_readFrom {levels : Nat} (wellFormed : document.WellFormed)
    (read : ofJsonWithin levels document = .ok filter) :
    filter.normalized.ReadFrom levels document.explicit := by
  induction levels generalizing document filter with
  | zero => cases read
  | succ levels inductionHypothesis =>
    cases document with
    | object members =>
      obtain ⟨clauses, converted, built⟩ := ofJsonWithin_object.mp read
      obtain ⟨distinct, values⟩ := Json.wellFormed_object.mp wellFormed
      have each : ∀ member ∈ members, ∀ clause,
          Clause.ofMember (ofJsonWithin levels) member.1 member.2 = .ok clause →
          clause.normalized.ReadFrom levels (Json.explicitMember member) :=
        fun member inMembers clause clauseRead => Clause.normalized_readFrom
          (fun _ _ => inductionHypothesis) (values member inMembers) clauseRead
      have written : (clauses.map Clause.normalized).map Clause.toMember =
          members.map Json.explicitMember := by
        rw [List.map_map]
        exact Traversal.map_eq_of_mapM converted fun member inMembers clause clauseRead =>
          (each member inMembers clause clauseRead).written
      -- The explicit members have the keys of the members, so they fill distinct slots too.
      have distinctNormalized : Keyed.Distinct Clause.slot (clauses.map Clause.normalized) := by
        refine distinct_of_keys (written.symm ▸ ?_)
        rw [Keyed.Distinct, List.map_map]
        exact distinct
      have distinctSlots : Keyed.Distinct Clause.slot clauses := by
        rw [Keyed.Distinct, List.map_map] at distinctNormalized
        rwa [Keyed.Distinct, ← List.map_congr_left fun clause _ => Clause.slot_normalized clause]
      rw [built, Keyed.ofList_of_distinct _ distinctSlots, normalized_eq_map, Json.explicit,
        Json.explicitMembers_eq_map]
      refine readFrom_of_each distinctNormalized written fun clause inClauses => ?_
      obtain ⟨source, inSource, rfl⟩ := List.mem_map.mp inClauses
      obtain ⟨member, inMembers, clauseRead⟩ := Traversal.exists_of_mapM converted inSource
      exact ⟨_, each member inMembers source clauseRead⟩
    | null => cases read
    | boolean flag => cases read
    | number value => cases read
    | string text => cases read
    | array items => cases read

/-- Two filters that were read have one normal form exactly when their documents differ in the
shorthand only. -/
theorem normalized_eq_iff {other : Json} {otherFilter : Filter} (wellFormed : document.WellFormed)
    (read : ofJson document = .ok filter) (otherWellFormed : other.WellFormed)
    (otherRead : ofJson other = .ok otherFilter) :
    otherFilter.normalized = filter.normalized ↔ other.explicit = document.explicit := by
  have held := normalized_readFrom wellFormed read
  have otherHeld := normalized_readFrom otherWellFormed otherRead
  constructor
  · intro same
    rw [← otherHeld.written, ← held.written, same]
  · intro same
    rw [← otherHeld.settled, ← held.settled]
    have reread := ofJsonWithin_toJson otherHeld.wellFormed otherHeld.sendable
    rw [otherHeld.written, same, ← held.written,
      ofJsonWithin_toJson held.wellFormed held.sendable] at reread
    exact (Except.ok.inj reread).symm

/-- Writing every test for equality out and taking the normal form are the same, before reading and
after it. The explicit document is read as the normal form and is what the normal form is written
as, with the order of its keys; the normal form passes the check, it does not change when it is
taken again, and it is compiled to the text of the explicit document. So documents that are read
differ in the shorthand only exactly when their filters have one normal form. -/
theorem ofJson_explicit (wellFormed : document.WellFormed) (read : ofJson document = .ok filter) :
    ofJson document.explicit = .ok filter.normalized ∧
      filter.normalized.toJson = document.explicit ∧
      filter.normalized.check = .ok () ∧
      filter.normalized.normalized = filter.normalized ∧
      ({ filter := some filter.normalized } : Request).compile =
        .ok { filter := some document.explicit.text } ∧
      ∀ other otherFilter, other.WellFormed → ofJson other = .ok otherFilter →
        (otherFilter.normalized = filter.normalized ↔ other.explicit = document.explicit) := by
  have held := normalized_readFrom wellFormed read
  have reread := ofJsonWithin_toJson held.wellFormed held.sendable
  rw [held.written, held.settled] at reread
  refine ⟨reread, held.written, held.sendable, normalized_normalized filter, ?_, ?_⟩
  · refine Request.compile_eq_ok.mpr ⟨?_, none, rfl, ?_⟩
    · rintro _ ⟨⟩
      exact held.sendable
    · rw [← held.written]
      rfl
  · exact fun _ _ => normalized_eq_iff wellFormed read

/-- Under connectives and a negation, the bare values are written out, also the one that has
operators inside it; what is inside the values is left alone. -/
theorem ofJson_explicit_nested :
    let document : Json := .object [("$or", .array [.object [("a", .array [.null])],
      .object [("$not", .object [("b", .object [("c", .object [("$gt", .null)])]),
        ("d", .object [("$ne", .object [("$eq", .null)])])])]])]
    document.WellFormed ∧
      ∃ filter, ofJson document = .ok filter ∧
        ofJson (.object [("$or", .array [.object [("a", .object [("$eq", .array [.null])])],
          .object [("$not", .object [
            ("b", .object [("$eq", .object [("c", .object [("$gt", .null)])])]),
            ("d", .object [("$ne", .object [("$eq", .null)])])])]])]) = .ok filter.normalized := by
  intro document
  have wellFormed : document.WellFormed := by
    simp [document, Json.WellFormed, Json.ItemsWellFormed, Json.MembersWellFormed, Keyed.Distinct]
  obtain ⟨filter, read⟩ : ∃ filter, ofJson document = .ok filter := ⟨_, rfl⟩
  exact ⟨wellFormed, filter, read, (ofJson_explicit wellFormed read).1⟩

end Filter

end ListQuery
