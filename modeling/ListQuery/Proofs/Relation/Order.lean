/-
This file says when two documents differ in the order of the members of records
only, and proves that relation trees do not notice. The document of a request holds
objects of two kinds. Records, that is the request, its scopes, and their queries,
have members that stand for fields; relation maps, filters, sort orders, and plain
values have members in an order of their own. The kinds alternate on the way down,
so what an object is depends on the place where it stands.
-/

import ListQuery.Proofs.Json.Order
import ListQuery.Proofs.Relation.Reading

namespace ListQuery

namespace Json

/-! ### Documents up to the order of fields -/

/-- What a document inside the document of a request stands for. -/
inductive Place where
  | request
  | relationMap
  | scope
  | query
  | value

namespace Place

/-- What a member of an object in a place stands for. -/
def member : Place → String → Place
  | .request, "nested" => .relationMap
  | .relationMap, _ => .scope
  | .scope, "query" => .query
  | .scope, "nested" => .relationMap
  | _, _ => .value

theorem member_request {key : String} (other : key ≠ "nested") :
    Place.request.member key = .value := by
  unfold member
  split
  · exact absurd rfl other
  · contradiction
  · contradiction
  · contradiction
  · rfl

/-- How the members of an object in a place may be arranged: those of records in any order. -/
def Arranges : Place → List (String × Json) → List (String × Json) → Prop
  | .request, members, others | .scope, members, others | .query, members, others =>
    members.Perm others
  | .relationMap, members, others | .value, members, others => members = others

end Place

mutual

/-- Two documents in a place differ only in the order of the members of records, wherever these are
in the documents. A request may also be an array with its relation map as the fourth item. -/
def Reordered : Place → Json → Json → Prop
  | .value, first, second => first = second
  | .request, .array (filter :: sort :: select :: nested :: rest), second =>
    ∃ other, second = .array (filter :: sort :: select :: other :: rest) ∧
      Reordered .relationMap nested other
  | place, .object members, second =>
    ∃ arranged others, second = .object others ∧ place.Arranges arranged others ∧
      ReorderedMembers place members arranged
  | _, first, second => first = second
termination_by structural _ first => first

/-- The values of members differ in such a way one by one. -/
def ReorderedMembers : Place → List (String × Json) → List (String × Json) → Prop
  | _, [], others => others = []
  | place, (name, value) :: rest, others =>
    ∃ other otherRest, others = (name, other) :: otherRest ∧
      Reordered (place.member name) value other ∧ ReorderedMembers place rest otherRest
termination_by structural _ members => members

end

/-- Two members of objects in a place have one name, and values that differ so. -/
def ReorderedMember (place : Place) (member other : String × Json) : Prop :=
  member.1 = other.1 ∧ member.2.Reordered (place.member member.1) other.2

variable {place : Place} {first second : Json}

theorem ReorderedMembers.pairs {members others : List (String × Json)}
    (reordered : ReorderedMembers place members others) :
    List.Forall₂ (ReorderedMember place) members others := by
  induction members generalizing others with
  | nil =>
    rw [ReorderedMembers] at reordered
    subst reordered
    exact .nil
  | cons member rest inductionHypothesis =>
    rw [ReorderedMembers] at reordered
    obtain ⟨other, otherRest, rfl, value, others⟩ := reordered
    exact .cons ⟨rfl, value⟩ (inductionHypothesis others)

/-- The three ways in which documents differ so: not at all, as objects, or as the arrays that a
request may be. -/
theorem Reordered.cases (reordered : first.Reordered place second) :
    first = second ∨
    (∃ members arranged others, first = .object members ∧ second = .object others ∧
      place.Arranges arranged others ∧ List.Forall₂ (ReorderedMember place) members arranged) ∨
    (place = .request ∧ ∃ filter sort select nested other rest,
      first = .array (filter :: sort :: select :: nested :: rest) ∧
      second = .array (filter :: sort :: select :: other :: rest) ∧
      nested.Reordered .relationMap other) := by
  unfold Reordered at reordered
  split at reordered
  · exact .inl reordered
  · obtain ⟨other, rfl, nested⟩ := reordered
    exact .inr (.inr ⟨rfl, _, _, _, _, other, _, rfl, rfl, nested⟩)
  · obtain ⟨arranged, others, rfl, arranges, members⟩ := reordered
    exact .inr (.inl ⟨_, arranged, others, rfl, rfl, arranges, members.pairs⟩)
  · exact .inl reordered

theorem Reordered.null_iff (reordered : first.Reordered place second) :
    first = .null ↔ second = .null := by
  rcases reordered.cases with rfl | ⟨_, _, _, rfl, rfl, _⟩ | ⟨_, _, _, _, _, _, _, rfl, rfl, _⟩
  · exact Iff.rfl
  · exact ⟨nofun, nofun⟩
  · exact ⟨nofun, nofun⟩

/-- Members with plain values do not differ at all. -/
theorem eq_of_reorderedMembers {members others : List (String × Json)}
    (plain : ∀ name, place.member name = .value)
    (pairs : List.Forall₂ (ReorderedMember place) members others) : members = others := by
  refine List.forall₂_eq_eq_eq ▸ pairs.imp fun member other paired => ?_
  obtain ⟨named, value⟩ := paired
  rw [plain, Reordered] at value
  exact Prod.ext named value

theorem map_fst_of_reorderedMembers {members others : List (String × Json)}
    (pairs : List.Forall₂ (ReorderedMember place) members others) :
    members.map Prod.fst = others.map Prod.fst := by
  induction pairs with
  | nil => rfl
  | cons paired _ inductionHypothesis => rw [List.map_cons, List.map_cons, paired.1,
      inductionHypothesis]

end Json

/-! ### Queries -/

namespace Query

/-- No two parts of a query are set together. -/
theorem commutes_layout : layout.fields.Pairwise Json.Field.Commutes := by
  simp only [layout, List.pairwise_cons, List.forall_mem_cons, List.not_mem_nil, false_implies,
    implies_true, and_true, List.Pairwise.nil]
  refine ⟨⟨?_, ?_, ?_, ?_, ?_⟩, ⟨?_, ?_, ?_, ?_⟩, ⟨?_, ?_, ?_⟩, ⟨?_, ?_⟩, ?_⟩
  all_goals exact Json.Field.commutes_optional fun _ _ _ => rfl

/-- A query is read from its document with the members in any order. -/
theorem ofJson_reordered {first second : Json} {query : Query}
    (reordered : first.Reordered .query second) :
    decoder.ofJson first = .ok query ↔ decoder.ofJson second = .ok query := by
  rcases reordered.cases with rfl | ⟨members, arranged, others, rfl, rfl, arranges, pairs⟩ |
    ⟨notRequest, _⟩
  · exact Iff.rfl
  · rw [Json.eq_of_reorderedMembers (fun _ => rfl) pairs]
    exact Json.Layout.ofJson_object_perm rfl (by decide) commutes_layout arranges
  · cases notRequest

end Query

/-! ### Scopes -/

namespace Relation

variable {decode : Json → Except ShapeFault RelationTree} {name : String} {relation : Relation}
  {scope next : Option Query × Option RelationTree}

theorem takeScopeMember_query {value : Json} :
    takeScopeMember decode scope ("query", value) = .ok next ↔
      ∃ found, Json.ReadsPart Query.decoder.ofJson value found ∧
        next = (found.or scope.1, scope.2) := by
  refine Json.readsPart_iff (fun value => takeScopeMember decode scope ("query", value))
    (fun found => (found.or scope.1, scope.2)) rfl fun value notNull next => ?_
  rw [takeScopeMember, Traversal.bind_eq_ok]
  · exact exists_congr fun query => and_congr Traversal.mapError_eq_ok (Except.ok.injEq _ _).to_iff
  · exact notNull

theorem takeScopeMember_nested {value : Json} :
    takeScopeMember decode scope ("nested", value) = .ok next ↔
      ∃ found, Json.ReadsPart decode value found ∧ next = (scope.1, found.or scope.2) := by
  refine Json.readsPart_iff (fun value => takeScopeMember decode scope ("nested", value))
    (fun found => (scope.1, found.or scope.2)) rfl fun value notNull next => ?_
  rw [takeScopeMember, Traversal.bind_eq_ok]
  · exact exists_congr fun inner => and_congr_right fun _ => (Except.ok.injEq _ _).to_iff
  · exact notNull

/-- A scope takes a query and nested relations, and nothing else. -/
theorem takeScopeMember_eq_ok {member : String × Json} :
    takeScopeMember decode scope member = .ok next ↔
      (member.1 = "query" ∧ ∃ found, Json.ReadsPart Query.decoder.ofJson member.2 found ∧
        next = (found.or scope.1, scope.2)) ∨
      (member.1 = "nested" ∧ ∃ found, Json.ReadsPart decode member.2 found ∧
        next = (scope.1, found.or scope.2)) := by
  obtain ⟨key, value⟩ := member
  constructor
  · intro taken
    by_cases isQuery : key = "query"
    · subst isQuery
      exact .inl ⟨rfl, takeScopeMember_query.mp taken⟩
    by_cases isNested : key = "nested"
    · subst isNested
      exact .inr ⟨rfl, takeScopeMember_nested.mp taken⟩
    unfold takeScopeMember at taken
    split at taken
    · exact absurd (congrArg Prod.fst ‹_›) isQuery
    · exact absurd (congrArg Prod.fst ‹_›) isNested
    · exact absurd (congrArg Prod.fst ‹_›) isQuery
    · exact absurd (congrArg Prod.fst ‹_›) isNested
    · cases taken
  · rintro (⟨rfl, read⟩ | ⟨rfl, read⟩)
    · exact takeScopeMember_query.mpr read
    · exact takeScopeMember_nested.mpr read

/-- The query and the nested relations of a scope do not come in each other's way. -/
theorem takeScopeMember_commutes {first second : String × Json}
    {middle final : Option Query × Option RelationTree} (different : first.1 ≠ second.1)
    (taken : takeScopeMember decode scope first = .ok middle)
    (takenAgain : takeScopeMember decode middle second = .ok final) :
    ∃ between, takeScopeMember decode scope second = .ok between ∧
      takeScopeMember decode between first = .ok final := by
  rw [takeScopeMember_eq_ok] at taken takenAgain
  rcases taken with ⟨named, found, read, rfl⟩ | ⟨named, found, read, rfl⟩
  · rcases takenAgain with ⟨again, _⟩ | ⟨otherNamed, other, otherRead, rfl⟩
    · exact absurd (named.trans again.symm) different
    · exact ⟨_, takeScopeMember_eq_ok.mpr (.inr ⟨otherNamed, other, otherRead, rfl⟩),
        takeScopeMember_eq_ok.mpr (.inl ⟨named, found, read, rfl⟩)⟩
  · rcases takenAgain with ⟨otherNamed, other, otherRead, rfl⟩ | ⟨again, _⟩
    · exact ⟨_, takeScopeMember_eq_ok.mpr (.inl ⟨otherNamed, other, otherRead, rfl⟩),
        takeScopeMember_eq_ok.mpr (.inr ⟨named, found, read, rfl⟩)⟩
    · exact absurd (named.trans again.symm) different

theorem ofMember_object {members : List (String × Json)} :
    ofMember decode name (.object members) = .ok relation ↔
      ∃ scope, members.foldlM (takeScopeMember decode) (none, none) = .ok scope ∧
        relation = .refined name scope.1 scope.2 := by
  rw [ofMember, Traversal.bind_eq_ok]
  refine exists_congr fun scope => and_congr_right fun _ => ?_
  exact ⟨fun same => by cases same; rfl, fun same => by rw [same]; rfl⟩

/-- A relation is read from its scope with the members in any order, when the nested relations
are. -/
theorem ofMember_reordered {first second : Json} (wellFormed : first.WellFormed)
    (each : ∀ first second : Json, first.WellFormed → first.Reordered .relationMap second →
      ∀ tree, decode first = .ok tree ↔ decode second = .ok tree)
    (reordered : first.Reordered .scope second) :
    ofMember decode name first = .ok relation ↔ ofMember decode name second = .ok relation := by
  rcases reordered.cases with rfl | ⟨members, arranged, others, rfl, rfl, arranges, pairs⟩ |
    ⟨notRequest, _⟩
  · exact Iff.rfl
  · obtain ⟨distinct, values⟩ := Json.wellFormed_object.mp wellFormed
    have arrangedDistinct : (arranged.map Prod.fst).Nodup :=
      Json.map_fst_of_reorderedMembers pairs ▸ distinct
    have othersDistinct : (others.map Prod.fst).Nodup :=
      (arranges.map Prod.fst).nodup_iff.mp arrangedDistinct
    rw [ofMember_object, ofMember_object]
    refine exists_congr fun scope => and_congr_left fun _ => Iff.trans ?_ ⟨
      Traversal.foldlM_perm (fun _ _ _ _ _ => takeScopeMember_commutes) arranges arrangedDistinct,
      Traversal.foldlM_perm (fun _ _ _ _ _ => takeScopeMember_commutes) arranges.symm
        othersDistinct⟩
    refine Traversal.foldlM_congr_ok pairs fun member inMembers other paired state next => ?_
    obtain ⟨key, value⟩ := member
    obtain ⟨otherKey, otherValue⟩ := other
    obtain ⟨rfl, reordered⟩ : key = otherKey ∧ _ := paired
    rw [takeScopeMember_eq_ok, takeScopeMember_eq_ok]
    refine or_congr (and_congr_right ?_) (and_congr_right ?_)
    · rintro rfl
      exact exists_congr fun found => and_congr_left fun _ =>
        Json.ReadsPart.congr reordered.null_iff fun _ => Query.ofJson_reordered reordered
    · rintro rfl
      exact exists_congr fun found => and_congr_left fun _ =>
        Json.ReadsPart.congr reordered.null_iff
          (each value otherValue (values _ inMembers) reordered)
  · cases notRequest

end Relation

/-! ### Trees -/

namespace RelationTree

variable {first second : Json} {tree : RelationTree}

/-- A tree is read from its document with the members of scopes and queries in any order. -/
theorem ofJsonWithin_reordered {levels : Nat} (wellFormed : first.WellFormed)
    (reordered : first.Reordered .relationMap second) :
    ofJsonWithin levels first = .ok tree ↔ ofJsonWithin levels second = .ok tree := by
  induction levels generalizing first second tree with
  | zero => exact Iff.rfl
  | succ levels inductionHypothesis =>
    rcases reordered.cases with rfl | ⟨members, _, others, rfl, rfl, rfl, pairs⟩ | ⟨notRequest, _⟩
    · exact Iff.rfl
    · rw [ofJsonWithin_object, ofJsonWithin_object]
      refine exists_congr fun relations => and_congr_left fun _ => ?_
      refine Traversal.mapM_pairs_ok pairs fun member inMembers other paired relation => ?_
      obtain ⟨named, reordered⟩ := paired
      rw [← named]
      exact Relation.ofMember_reordered ((Json.wellFormed_object.mp wellFormed).2 member inMembers)
        (fun _ _ wellFormed reordered _ => inductionHypothesis wellFormed reordered) reordered
    · cases notRequest

theorem ofJson_reordered (wellFormed : first.WellFormed)
    (reordered : first.Reordered .relationMap second) :
    decoder.ofJson first = .ok tree ↔ decoder.ofJson second = .ok tree :=
  Traversal.mapError_eq_ok.trans
    ((ofJsonWithin_reordered wellFormed reordered).trans Traversal.mapError_eq_ok.symm)

end RelationTree

end ListQuery
