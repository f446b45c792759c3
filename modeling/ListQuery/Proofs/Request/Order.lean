/-
This file proves that the order of members does not matter where a document of a
request has records, and that it does matter where the document has relation maps:
the outline that is sent names the relations of each map in the order of the map.
So the outline can be told from the document, without the request that is read.
-/

import ListQuery.Proofs.Parameters
import ListQuery.Proofs.Relation.Order

namespace ListQuery

/-! ### Outlines of documents -/

namespace Json

mutual

/-- The outline of a relation map, with its relations in the order of the map; none for null. -/
def mapOutline : Json → List (List Char)
  | .object members => [separated (relationOutlines members)]
  | _ => []
termination_by structural document => document

/-- The outlines of the relations in a map, one by one. -/
def relationOutlines : List (String × Json) → List (List Char)
  | [] => []
  | (name, scope) :: rest => (name.toList ++ scopeOutline scope) :: relationOutlines rest
termination_by structural members => members

/-- What follows the name of a relation: its query and its nested relations, if it has them. -/
def scopeOutline : Json → List Char
  | .object members => enclosed
      (queryPart (Query.decoder.ofJson (memberOrNull members "query")).toOption ++
        nestedOutline members)
  | _ => []
termination_by structural document => document

/-- The outline of the relation map among the members of a scope. -/
def nestedOutline : List (String × Json) → List (List Char)
  | [] => []
  | (key, value) :: rest => if key = "nested" then mapOutline value else nestedOutline rest
termination_by structural members => members

end

theorem relationOutlines_eq_map (members : List (String × Json)) :
    relationOutlines members =
      members.map fun member => member.1.toList ++ member.2.scopeOutline := by
  induction members with
  | nil => rfl
  | cons member rest inductionHypothesis =>
    rw [relationOutlines, inductionHypothesis, List.map_cons]

theorem nestedOutline_eq (members : List (String × Json)) :
    nestedOutline members = (memberOrNull members "nested").mapOutline := by
  induction members with
  | nil => rfl
  | cons member rest inductionHypothesis =>
    rw [nestedOutline, memberOrNull, List.lookup_cons]
    by_cases named : member.1 = "nested"
    · rw [if_pos named, named, beq_self_eq_true]
      rfl
    · rw [if_neg named, inductionHypothesis, beq_eq_false_iff_ne.mpr (Ne.symm named)]
      rfl

end Json

/-! ### Outlines in the order of relation maps -/

namespace Relation

variable {decode : Json → Except ShapeFault RelationTree} {name : String} {value : Json}
  {relation : Relation}

/-- The parts of a scope that was read are read from the values under their names. -/
theorem readsParts_of_foldlM {members : List (String × Json)}
    {scope : Option Query × Option RelationTree} (distinct : (members.map Prod.fst).Nodup)
    (taken : members.foldlM (takeScopeMember decode) (none, none) = .ok scope) :
    Json.ReadsPart Query.decoder.ofJson (Json.memberOrNull members "query") scope.1 ∧
      Json.ReadsPart decode (Json.memberOrNull members "nested") scope.2 := by
  constructor
  · refine Json.readsPart_of_foldlM Prod.fst "query" (fun member before next other stepped => ?_)
      (fun value before next unset stepped => ?_) distinct rfl taken
    · rcases takeScopeMember_eq_ok.mp stepped with ⟨named, _⟩ | ⟨_, _, _, rfl⟩
      · exact absurd named other
      · rfl
    · obtain ⟨found, read, rfl⟩ := takeScopeMember_query.mp stepped
      rw [unset, Option.or_none]
      exact read
  · refine Json.readsPart_of_foldlM Prod.snd "nested" (fun member before next other stepped => ?_)
      (fun value before next unset stepped => ?_) distinct rfl taken
    · rcases takeScopeMember_eq_ok.mp stepped with ⟨_, _, _, rfl⟩ | ⟨named, _⟩
      · rfl
      · exact absurd named other
    · obtain ⟨found, read, rfl⟩ := takeScopeMember_nested.mp stepped
      rw [unset, Option.or_none]
      exact read

/-- The outline of a relation that was read is told from its document, when the outlines of nested
relations are. -/
theorem outline_of_ofMember (wellFormed : value.WellFormed)
    (each : ∀ document tree, document.WellFormed → decode document = .ok tree →
      nestedPart (some tree) = document.mapOutline)
    (read : ofMember decode name value = .ok relation) :
    relation.name = name ∧ relation.outline = name.toList ++ value.scopeOutline := by
  cases value with
  | boolean flag =>
    cases flag with
    | true =>
      cases read
      exact ⟨rfl, (List.append_nil _).symm⟩
    | false => cases read
  | object members =>
    obtain ⟨distinct, values⟩ := Json.wellFormed_object.mp wellFormed
    obtain ⟨scope, taken, rfl⟩ := ofMember_object.mp read
    obtain ⟨query, nested⟩ := readsParts_of_foldlM distinct taken
    have querySame : queryPart scope.1 =
        queryPart (Query.decoder.ofJson (Json.memberOrNull members "query")).toOption := by
      rcases query with ⟨null, same⟩ | ⟨_, present, decoded, same⟩
      · rw [null, same]
        rfl
      · rw [decoded, same]
        rfl
    have nestedSame : nestedPart scope.2 = Json.nestedOutline members := by
      rw [Json.nestedOutline_eq]
      rcases nested with ⟨null, same⟩ | ⟨notNull, inner, decoded, same⟩
      · rw [null, same]
        rfl
      · rw [same]
        exact each _ inner (Json.wellFormed_memberOrNull values) decoded
    refine ⟨rfl, ?_⟩
    rw [outline, Json.scopeOutline, querySame, nestedSame]
  | null => cases read
  | number number => cases read
  | string text => cases read
  | array items => cases read

end Relation

namespace RelationTree

/-- The outline of a tree that was read names the relations in the order of the document. -/
theorem nestedPart_of_ofJsonWithin {levels : Nat} {document : Json} {tree : RelationTree}
    (wellFormed : document.WellFormed) (read : ofJsonWithin levels document = .ok tree) :
    nestedPart (some tree) = document.mapOutline := by
  induction levels generalizing document tree with
  | zero => cases read
  | succ levels inductionHypothesis =>
    cases document with
    | object members =>
      obtain ⟨distinct, values⟩ := Json.wellFormed_object.mp wellFormed
      obtain ⟨relations, converted, rfl⟩ := ofJsonWithin_object.mp read
      have each : ∀ member ∈ members, ∀ relation,
          Relation.ofMember (ofJsonWithin levels) member.1 member.2 = .ok relation →
          relation.name = member.1 ∧
            relation.outline = member.1.toList ++ member.2.scopeOutline :=
        fun member held relation relationRead => Relation.outline_of_ofMember (values member held)
          (fun _ _ => inductionHypothesis) relationRead
      have names : relations.map Relation.name = members.map Prod.fst :=
        Traversal.map_eq_of_mapM converted fun member held relation relationRead =>
          (each member held relation relationRead).1
      have outlines : relations.map Relation.outline =
          members.map fun member => member.1.toList ++ member.2.scopeOutline :=
        Traversal.map_eq_of_mapM converted fun member held relation relationRead =>
          (each member held relation relationRead).2
      have distinctNames : Keyed.Distinct Relation.name relations := by
        rw [Keyed.Distinct, names]
        exact distinct
      rw [Keyed.ofList_of_distinct _ distinctNames, nestedPart, outlines_eq_map, outlines,
        Json.mapOutline, Json.relationOutlines_eq_map]
    | _ => cases read

end RelationTree

/-! ### Requests -/

/-- The relation map in the document of a request, null when there is none. -/
def Json.relationMap : Json → Json
  | .object members => memberOrNull members "nested"
  | .array items => items[3]?.getD .null
  | _ => .null

namespace Request

variable {request : Request} {first second document : Json} {members others : List (String × Json)}

/-- No two parts of a request are set together. -/
theorem commutes_layout : layout.fields.Pairwise Json.Field.Commutes := by
  simp only [layout, List.pairwise_cons, List.forall_mem_cons, List.not_mem_nil, false_implies,
    implies_true, and_true, List.Pairwise.nil]
  refine ⟨⟨?_, ?_, ?_, ?_, ?_, ?_⟩, ⟨?_, ?_, ?_, ?_, ?_⟩, ⟨?_, ?_, ?_, ?_⟩, ⟨?_, ?_, ?_⟩, ⟨?_, ?_⟩,
    ?_⟩
  all_goals exact Json.Field.commutes_optional fun _ _ _ => rfl

/-- The field of the relation tree. -/
def nestedField : Json.Field Request :=
  .optional "nested" RelationTree.decoder RelationTree.toJson Request.nested
    fun nested request => { request with nested }

theorem eq_nestedField {field : Json.Field Request} (member : field ∈ layout.fields)
    (named : field.name = "nested") : field = nestedField := by
  have found : Keyed.find? Json.Field.name "nested" layout.fields = some field :=
    named ▸ Keyed.find?_of_mem distinct_layout member
  exact (Option.some.inj found).symm

theorem nestedField_eq_ok {value : Json} {change : Request → Request} :
    nestedField.update.ofJson value = .ok change ↔
      ∃ found, Json.ReadsPart RelationTree.decoder.ofJson value found ∧
        change = fun request => { request with nested := found } := by
  refine Traversal.bind_eq_ok.trans (exists_congr fun found => and_congr
    Json.Decoder.ofJson_nullable ?_)
  exact (Except.ok.injEq _ _).to_iff.trans eq_comm

/-- The other fields leave the relation tree alone. -/
theorem nested_of_otherField : ∀ field ∈ layout.fields, field.name ≠ "nested" →
    ∀ value change, field.update.ofJson value = .ok change →
      ∀ request : Request, (change request).nested = request.nested := by
  simp only [layout, List.forall_mem_cons, List.not_mem_nil, false_implies, implies_true, and_true]
  refine ⟨?_, ?_, ?_, fun other => absurd rfl other, ?_, ?_, ?_⟩
  all_goals
    intro _ value change decoded request
    obtain ⟨_, rfl⟩ := Json.Field.exists_of_optional decoded
    rfl

/-- Two members of requests are the same, or they hold relation maps that differ in the order of
fields only. -/
def AlikeMembers (member other : String × Json) : Prop :=
  member = other ∨
    member.1 = "nested" ∧ other.1 = "nested" ∧ member.2.Reordered .relationMap other.2

theorem ofJson_object_alike (values : ∀ member ∈ members, member.2.WellFormed)
    (pairs : List.Forall₂ AlikeMembers members others) :
    decoder.ofJson (.object members) = .ok request ↔
      decoder.ofJson (.object others) = .ok request := by
  refine Json.Layout.ofJson_object_congr rfl (by decide) pairs (fun member other alike => ?_)
    fun member held other alike field inFields named change => ?_
  · rcases alike with rfl | ⟨named, otherNamed, _⟩
    · rfl
    · rw [named, otherNamed]
  · rcases alike with rfl | ⟨memberNamed, _, reordered⟩
    · exact Iff.rfl
    · rw [eq_nestedField inFields (named.trans memberNamed), nestedField_eq_ok, nestedField_eq_ok]
      exact exists_congr fun found => and_congr_left fun _ => Json.ReadsPart.congr
        reordered.null_iff fun _ => RelationTree.ofJson_reordered (values member held) reordered

/-- A request is read from its document with the members of its records in any order. -/
theorem ofJson_reordered (wellFormed : first.WellFormed)
    (reordered : first.Reordered .request second) :
    decoder.ofJson first = .ok request ↔ decoder.ofJson second = .ok request := by
  rcases reordered.cases with rfl | ⟨members, arranged, others, rfl, rfl, arranges, pairs⟩ |
    ⟨_, filter, sort, select, nested, other, rest, rfl, rfl, inside⟩
  · exact Iff.rfl
  · have alike : List.Forall₂ AlikeMembers members arranged := by
      refine pairs.imp fun member other paired => ?_
      obtain ⟨key, value⟩ := member
      obtain ⟨otherKey, otherValue⟩ := other
      obtain ⟨rfl, inside⟩ : key = otherKey ∧ _ := paired
      by_cases named : key = "nested"
      · subst named
        exact .inr ⟨rfl, rfl, inside⟩
      · rw [Json.Place.member_request named, Json.Reordered] at inside
        exact .inl (congrArg (Prod.mk key) inside)
    exact (ofJson_object_alike (Json.wellFormed_object.mp wellFormed).2 alike).trans
      (Json.Layout.ofJson_object_perm rfl (by decide) commutes_layout arranges)
  · have alike : List.Forall₂ AlikeMembers
        ((layout.fields.map Json.Field.name).zip (filter :: sort :: select :: nested :: rest))
        ((layout.fields.map Json.Field.name).zip (filter :: sort :: select :: other :: rest)) :=
      .cons (.inl rfl) (.cons (.inl rfl) (.cons (.inl rfl) (.cons (.inr ⟨rfl, rfl, inside⟩)
        (List.forall₂_same.mpr fun _ _ => .inl rfl))))
    have values := Json.wellFormed_array.mp wellFormed
    refine (Json.Layout.ofJson_array_eq_ok rfl (by decide) distinct_layout).trans (Iff.trans ?_
      (Json.Layout.ofJson_array_eq_ok rfl (by decide) distinct_layout).symm)
    refine and_congr Iff.rfl (ofJson_object_alike (fun member held => ?_) alike)
    exact values member.2 (List.of_mem_zip held).2

/-! ### The outline that is sent -/

/-- The relation tree of a request is read from the relation map in its document. -/
theorem readsPart_of_object
    (read : decoder.ofJson (.object members) = .ok request) :
    Json.ReadsPart RelationTree.decoder.ofJson (Json.memberOrNull members "nested")
      request.nested := by
  obtain ⟨distinct, set⟩ := (Json.Layout.ofJson_object_eq_ok rfl (by decide)).mp read
  refine Json.readsPart_of_foldlM Request.nested "nested"
    (fun member before next other stepped => ?_)
    (fun value before next _ stepped => ?_) distinct rfl set
  · obtain ⟨field, change, known, decoded, rfl⟩ := Json.Layout.setMember_eq_ok.mp stepped
    obtain ⟨inFields, named⟩ := Keyed.mem_of_find? known
    exact nested_of_otherField field inFields (named ▸ other) member.2 change decoded before
  · obtain ⟨field, change, known, decoded, rfl⟩ := Json.Layout.setMember_eq_ok.mp stepped
    obtain ⟨inFields, named⟩ := Keyed.mem_of_find? known
    rw [eq_nestedField inFields named] at decoded
    obtain ⟨found, read, rfl⟩ := nestedField_eq_ok.mp decoded
    exact read

theorem readsPart_relationMap (read : decoder.ofJson document = .ok request) :
    Json.ReadsPart RelationTree.decoder.ofJson document.relationMap request.nested := by
  cases document with
  | object members => exact readsPart_of_object read
  | array items =>
    obtain ⟨_, listed⟩ := (Json.Layout.ofJson_array_eq_ok rfl (by decide) distinct_layout).mp read
    have fourth : (Json.array items).relationMap =
        Json.memberOrNull ((layout.fields.map Json.Field.name).zip items) "nested" := by
      match items with
      | [] => rfl
      | [_] => rfl
      | [_, _] => rfl
      | [_, _, _] => rfl
      | _ :: _ :: _ :: nested :: _ => rfl
    rw [fourth]
    exact readsPart_of_object listed
  | _ => cases read

theorem wellFormed_relationMap (wellFormed : document.WellFormed) :
    document.relationMap.WellFormed := by
  cases document with
  | object members => exact Json.wellFormed_memberOrNull (Json.wellFormed_object.mp wellFormed).2
  | array items =>
    show Json.WellFormed (items[3]?.getD .null)
    cases fourth : items[3]? with
    | none => exact trivial
    | some item => exact Json.wellFormed_array.mp wellFormed item (List.mem_of_getElem? fourth)
  | _ => exact trivial

/-- The outline that a request is compiled to is the outline of the relation map in its document. -/
theorem nested_of_compile {parameters : Parameters} (wellFormed : document.WellFormed)
    (read : decoder.ofJson document = .ok request) (compiled : request.compile = .ok parameters) :
    parameters.nested = document.relationMap.mapOutline.head?.map String.ofList := by
  obtain ⟨_, nested, converted, rfl⟩ := compile_eq_ok.mp compiled
  show nested = _
  rcases readsPart_relationMap read with ⟨null, same⟩ | ⟨_, tree, decoded, same⟩
  · rw [same] at converted
    cases converted
    rw [null]
    rfl
  · rw [same] at converted
    obtain ⟨text, sent, rfl⟩ := Traversal.map_eq_ok.mp converted
    obtain ⟨_, rfl⟩ := RelationTree.toOutline_eq_ok.mp sent
    rw [← RelationTree.nestedPart_of_ofJsonWithin (wellFormed_relationMap wellFormed)
      (Traversal.mapError_eq_ok.mp decoded)]
    rfl

/-- The order of the members of records does not matter, wherever in the document of a request they
are: the same request is read, and so it is compiled to the same parameters or refused with the same
fault. The order of relation maps does: it is the order in which the outline that is sent names the
relations, at every level. -/
theorem compile_reordered (wellFormed : first.WellFormed)
    (reordered : first.Reordered .request second) :
    (∀ request, decoder.ofJson first = .ok request ↔ decoder.ofJson second = .ok request) ∧
      (∀ outcome, (∃ request, decoder.ofJson first = .ok request ∧ request.compile = outcome) ↔
        ∃ request, decoder.ofJson second = .ok request ∧ request.compile = outcome) ∧
      ∀ request parameters, decoder.ofJson first = .ok request →
        request.compile = .ok parameters →
        parameters.nested = first.relationMap.mapOutline.head?.map String.ofList := by
  have same : ∀ request, decoder.ofJson first = .ok request ↔ decoder.ofJson second = .ok request :=
    fun request => ofJson_reordered wellFormed reordered
  refine ⟨same, fun outcome => ?_, fun request parameters => nested_of_compile wellFormed⟩
  exact exists_congr fun request => and_congr_left fun _ => same request

/-- A request with a query and nested relations under its first relation. -/
def ordered : Json :=
  .object [("nested", .object [
      ("b", .object [
        ("query", .object [("select", .array []), ("where", .object [])]),
        ("nested", .object [("z", .boolean true), ("a", .boolean true)])]),
      ("a", .boolean true)]),
    ("select", .array [.string "b"])]

/-- The same with the members of every record in another order. -/
def disordered : Json :=
  .object [("select", .array [.string "b"]),
    ("nested", .object [
      ("b", .object [
        ("nested", .object [("z", .boolean true), ("a", .boolean true)]),
        ("query", .object [("where", .object []), ("select", .array [])])]),
      ("a", .boolean true)])]

/-- Both are read as one request, and its outline has the names in the order of the maps. -/
theorem compile_reordered_disordered :
    ordered.WellFormed ∧ ordered.Reordered .request disordered ∧
      ∃ request parameters, decoder.ofJson disordered = .ok request ∧
        request.compile = .ok parameters ∧
        parameters.nested =
          some "b\x7b\x7b\"where\":\x7b\x7d,\"select\":[]\x7d,z,a\x7d,a" := by
  have wellFormed : ordered.WellFormed := by
    simp [ordered, Json.WellFormed, Json.ItemsWellFormed, Json.MembersWellFormed, Keyed.Distinct]
  have reordered : ordered.Reordered .request disordered := by
    refine ⟨_, _, rfl, .swap _ _ _, _, _, rfl, ⟨_, _, rfl, rfl, _, _, rfl, ?_, _, _, rfl, rfl, rfl⟩,
      _, _, rfl, rfl, rfl⟩
    exact ⟨_, _, rfl, .swap _ _ _, _, _, rfl, ⟨_, _, rfl, .swap _ _ _, _, _, rfl, rfl, _, _, rfl,
      rfl, rfl⟩, _, _, rfl, ⟨_, _, rfl, rfl, _, _, rfl, rfl, _, _, rfl, rfl, rfl⟩, rfl⟩
  obtain ⟨request, parameters, read, compiled⟩ : ∃ request parameters,
      decoder.ofJson ordered = .ok request ∧ request.compile = .ok parameters := ⟨_, _, rfl, rfl⟩
  obtain ⟨same, _, outline⟩ := compile_reordered wellFormed reordered
  exact ⟨wellFormed, reordered, request, parameters, (same request).mp read, compiled,
    (outline request parameters read compiled).trans rfl⟩

end Request

end ListQuery
