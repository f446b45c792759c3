/-
This file proves what reading a relation tree from a document guarantees. The names
at each level are distinct, and every query in the tree was read out of a part of
the document, so its filter is settled and it can be written and read again. So can
the tree, which is read from its own document as it was from the first one.
-/

import ListQuery.Proofs.Relation.Trimmed

namespace ListQuery

/-- What holds of a tree that was read out of a document with at most `bound + 1` containers open
at once. -/
structure RelationTree.ReadWithin (bound : Nat) (tree : RelationTree) : Prop where
  wellFormed : tree.WellFormed
  queries : ∀ query ∈ tree.queries, query.ReadWithin bound

/-! ### Scopes -/

/-- The values of the members of an object. A document that is no object has none. -/
def Json.memberValues : Json → List Json
  | .object members => members.map Prod.snd
  | _ => []

theorem Json.wellFormed_of_memberValues {value part : Json} (inside : part ∈ value.memberValues)
    (wellFormed : value.WellFormed) : part.WellFormed := by
  cases value with
  | object members =>
    obtain ⟨member, held, rfl⟩ := List.mem_map.mp inside
    exact (wellFormed_object.mp wellFormed).2 member held
  | _ => cases inside

theorem Json.opened_of_memberValues {bound : Nat} {value part : Json}
    (inside : part ∈ value.memberValues) (shallow : value.opened ≤ bound + 1) :
    part.opened ≤ bound := by
  cases value with
  | object members =>
    obtain ⟨member, held, rfl⟩ := List.mem_map.mp inside
    exact opened_object_le_iff.mp shallow member held
  | _ => cases inside

namespace Relation

variable {bound : Nat} {decode : Json → Except ShapeFault RelationTree} {name : String}
  {value : Json} {relation : Relation}

/-- What holds of the scope of a relation that was read. -/
structure ReadWithin (bound : Nat) (scope : Option Query × Option RelationTree) : Prop where
  query : ∀ query, scope.1 = some query → query.ReadWithin bound
  nested : ∀ inner, scope.2 = some inner → RelationTree.ReadWithin bound inner

/-- The parts of a scope were each decoded from one of some values. -/
structure DecodedFrom (decode : Json → Except ShapeFault RelationTree) (values : List Json)
    (scope : Option Query × Option RelationTree) : Prop where
  query : ∀ query, scope.1 = some query →
    ∃ part ∈ values, Query.decoder.ofJson part = .ok query
  nested : ∀ inner, scope.2 = some inner → ∃ part ∈ values, decode part = .ok inner

theorem DecodedFrom.takeScopeMember {values : List Json}
    {scope next : Option Query × Option RelationTree} {member : String × Json}
    (held : DecodedFrom decode values scope) (inside : member.2 ∈ values)
    (taken : takeScopeMember decode scope member = .ok next) : DecodedFrom decode values next := by
  unfold Relation.takeScopeMember at taken
  split at taken
  · cases taken
    exact held
  · cases taken
    exact held
  · obtain ⟨query, queryRead, same⟩ := Traversal.bind_eq_ok.mp taken
    cases same
    refine ⟨?_, held.nested⟩
    rintro _ ⟨⟩
    exact ⟨_, inside, Traversal.mapError_eq_ok.mp queryRead⟩
  · obtain ⟨tree, treeRead, same⟩ := Traversal.bind_eq_ok.mp taken
    cases same
    refine ⟨held.query, ?_⟩
    rintro _ ⟨⟩
    exact ⟨_, inside, treeRead⟩
  · cases taken

/-- The parts of a relation that was read were decoded from the values in its scope. -/
theorem decodedFrom_of_ofMember (read : ofMember decode name value = .ok relation) :
    DecodedFrom decode value.memberValues (relation.query?, relation.nested?) := by
  unfold ofMember at read
  split at read
  · cases read
    exact ⟨nofun, nofun⟩
  · rename_i members
    obtain ⟨scope, scopeRead, same⟩ := Traversal.bind_eq_ok.mp read
    cases same
    refine Traversal.foldlM_invariant (fun member inMembers before next held taken => ?_)
      (show DecodedFrom decode _ (none, none) from ⟨nofun, nofun⟩) scopeRead
    exact held.takeScopeMember (List.mem_map_of_mem inMembers) taken
  · cases read

/-- A relation is read with what was read for its scope. -/
theorem readWithin_of_ofMember (wellFormed : value.WellFormed) (shallow : value.opened ≤ bound + 1)
    (each : ∀ document tree, document.WellFormed → document.opened ≤ bound + 1 →
      decode document = .ok tree → tree.ReadWithin bound)
    (read : ofMember decode name value = .ok relation) :
    ReadWithin bound (relation.query?, relation.nested?) := by
  have parts := decodedFrom_of_ofMember read
  constructor
  · intro query given
    obtain ⟨part, inside, queryRead⟩ := parts.query query given
    exact Query.readWithin_of_ofJson (Json.wellFormed_of_memberValues inside wellFormed)
      ((Json.opened_of_memberValues inside shallow).trans (Nat.le_succ bound)) queryRead
  · intro inner given
    obtain ⟨part, inside, innerRead⟩ := parts.nested inner given
    exact each part inner (Json.wellFormed_of_memberValues inside wellFormed)
      ((Json.opened_of_memberValues inside shallow).trans (Nat.le_succ bound)) innerRead

/-- What is written for a scope is read part by part, the query first. -/
theorem ofMember_refined (decode : Json → Except ShapeFault RelationTree) (name : String)
    (query : Option Query) (nested : Option RelationTree) :
    ofMember decode name (Relation.refined name query nested).toJson = (do
      let query ← query.mapM fun query =>
        (Query.decoder.ofJson query.toJson).mapError ShapeFault.relationQuery
      let nested ← nested.mapM fun inner => decode (RelationTree.toJson inner)
      return .refined name query nested) := by
  have queryTaken : (queryMember query).foldlM (takeScopeMember decode) (none, none) = (do
      let found ← query.mapM fun query =>
        (Query.decoder.ofJson query.toJson).mapError ShapeFault.relationQuery
      return (found, none)) := by
    cases query with
    | none => rfl
    | some present =>
      show (((Query.decoder.ofJson present.toJson).mapError ShapeFault.relationQuery >>= _) >>= _) =
        (some <$> (Query.decoder.ofJson present.toJson).mapError ShapeFault.relationQuery) >>= _
      cases Query.decoder.ofJson present.toJson <;> rfl
  have nestedTaken : ∀ found, (nestedMember nested).foldlM (takeScopeMember decode) (found, none) =
      (do
        let inside ← nested.mapM fun inner => decode (RelationTree.toJson inner)
        return (found, inside)) := by
    intro found
    cases nested with
    | none => rfl
    | some inner =>
      show ((decode (RelationTree.toJson inner) >>= _) >>= _) =
        (some <$> decode (RelationTree.toJson inner)) >>= _
      cases decode (RelationTree.toJson inner) <;> rfl
  show ((queryMember query ++ nestedMember nested).foldlM (takeScopeMember decode) (none, none)
    >>= _) = _
  rw [List.foldlM_append, queryTaken]
  cases query.mapM fun query =>
      (Query.decoder.ofJson query.toJson).mapError ShapeFault.relationQuery with
  | error fault => rfl
  | ok found =>
    show ((nestedMember nested).foldlM (takeScopeMember decode) (found, none) >>= _) = _
    rw [nestedTaken]
    cases nested.mapM fun inner => decode (RelationTree.toJson inner) <;> rfl

/-- A relation is read again from what is written for it, when the parts of its scope are. -/
theorem ofMember_toJson
    (query : ∀ query, relation.query? = some query →
      Query.decoder.ofJson query.toJson = .ok query)
    (nested : ∀ inner, relation.nested? = some inner →
      decode (RelationTree.toJson inner) = .ok inner) :
    ofMember decode relation.name relation.toJson = .ok relation := by
  cases relation with
  | plain name => rfl
  | refined name found inside =>
    refine (ofMember_refined decode name found inside).trans ?_
    refine Traversal.bind_eq_ok.mpr ⟨found, ?_, Traversal.bind_eq_ok.mpr ⟨inside, ?_, rfl⟩⟩
    · cases found with
      | none => rfl
      | some present =>
        exact Traversal.map_eq_ok.mpr
          ⟨present, Traversal.mapError_eq_ok.mpr (query present rfl), rfl⟩
    · cases inside with
      | none => rfl
      | some inner => exact Traversal.map_eq_ok.mpr ⟨inner, nested inner rfl, rfl⟩

end Relation

/-! ### Trees -/

namespace RelationTree

variable {bound : Nat} {document : Json} {tree : RelationTree}

theorem readWithin_of_each (distinct : Keyed.Distinct Relation.name tree)
    (each : ∀ relation ∈ tree, Relation.ReadWithin bound (relation.query?, relation.nested?)) :
    tree.ReadWithin bound := by
  constructor
  · exact .intro distinct
      (fun relation member query given => ((each relation member).query query given).wellFormed)
      fun relation member inner given => ((each relation member).nested inner given).wellFormed
  · intro query held
    rw [queries_eq_flatMap] at held
    obtain ⟨relation, member, inside⟩ := List.mem_flatMap.mp held
    rcases Relation.mem_queries.mp inside with given | ⟨inner, given, deeper⟩
    · exact (each relation member).query query given
    · exact ((each relation member).nested inner given).queries query deeper

/-- Reading an object as a tree is reading its members as relations and putting them together. -/
theorem ofJsonWithin_object {levels : Nat} {members : List (String × Json)} :
    ofJsonWithin (levels + 1) (.object members) = .ok tree ↔
      ∃ relations, members.mapM (fun member =>
          Relation.ofMember (ofJsonWithin levels) member.1 member.2) = .ok relations ∧
        tree = Keyed.ofList Relation.name relations := by
  rw [ofJsonWithin, Traversal.foldlM_eq_mapM (fun member : String × Json =>
    Relation.ofMember (ofJsonWithin levels) member.1 member.2) RelationTree.put,
    Traversal.bind_eq_ok]
  constructor
  · rintro ⟨relations, converted, same⟩
    cases same
    exact ⟨relations, converted, rfl⟩
  · rintro ⟨relations, converted, rfl⟩
    exact ⟨relations, converted, rfl⟩

/-- The names of a tree that was read are distinct, and the parts of its relations were decoded from
well-formed documents, the nested ones at one level less. -/
theorem parts_of_ofJsonWithin {levels : Nat} (wellFormed : document.WellFormed)
    (read : ofJsonWithin (levels + 1) document = .ok tree) :
    Keyed.Distinct Relation.name tree ∧ ∀ relation ∈ tree,
      (∀ query, relation.query? = some query →
        ∃ part, part.WellFormed ∧ Query.decoder.ofJson part = .ok query) ∧
      ∀ inner, relation.nested? = some inner →
        ∃ part, part.WellFormed ∧ ofJsonWithin levels part = .ok inner := by
  cases document with
  | object members =>
    obtain ⟨relations, converted, rfl⟩ := ofJsonWithin_object.mp read
    refine ⟨Keyed.distinct_ofList _ relations, fun relation held => ?_⟩
    obtain ⟨member, inMembers, relationRead⟩ :=
      Traversal.exists_of_mapM converted (Keyed.mem_ofList held)
    have valueWellFormed := (Json.wellFormed_object.mp wellFormed).2 member inMembers
    have parts := Relation.decodedFrom_of_ofMember relationRead
    constructor
    · intro query given
      obtain ⟨part, inside, queryRead⟩ := parts.query query given
      exact ⟨part, Json.wellFormed_of_memberValues inside valueWellFormed, queryRead⟩
    · intro inner given
      obtain ⟨part, inside, innerRead⟩ := parts.nested inner given
      exact ⟨part, Json.wellFormed_of_memberValues inside valueWellFormed, innerRead⟩
  | _ => cases read

theorem readWithin_of_ofJsonWithin {levels : Nat} (wellFormed : document.WellFormed)
    (shallow : document.opened ≤ bound + 1) (read : ofJsonWithin levels document = .ok tree) :
    tree.ReadWithin bound := by
  induction levels generalizing document tree with
  | zero => cases read
  | succ levels inductionHypothesis =>
    cases document with
    | object members =>
      rw [Json.wellFormed_object] at wellFormed
      rw [Json.opened_object_le_iff] at shallow
      obtain ⟨relations, converted, rfl⟩ := ofJsonWithin_object.mp read
      refine readWithin_of_each (Keyed.distinct_ofList _ relations) fun relation held => ?_
      obtain ⟨member, inMembers, relationRead⟩ :=
        Traversal.exists_of_mapM converted (Keyed.mem_ofList held)
      exact Relation.readWithin_of_ofMember (wellFormed.2 member inMembers)
        ((shallow member inMembers).trans (Nat.le_succ bound))
        (fun _ _ => inductionHypothesis) relationRead
    | _ => cases read

theorem readWithin_of_ofJson (wellFormed : document.WellFormed)
    (shallow : document.opened ≤ bound + 1) (read : decoder.ofJson document = .ok tree) :
    tree.ReadWithin bound :=
  readWithin_of_ofJsonWithin wellFormed shallow (Traversal.mapError_eq_ok.mp read)

theorem streams_decoder : decoder.Streams :=
  Json.Decoder.streams_whole _

theorem toMembers_eq_map (tree : RelationTree) :
    tree.toMembers = tree.map fun relation => (relation.name, relation.toJson) := by
  induction tree with
  | nil => rfl
  | cons relation rest inductionHypothesis =>
    rw [RelationTree.toMembers, inductionHypothesis, List.map_cons]

/-- What was read as a tree, at whatever levels, is read again at the same levels from what is
written for it. -/
theorem ofJsonWithin_toJson {levels : Nat} (wellFormed : document.WellFormed)
    (read : ofJsonWithin levels document = .ok tree) :
    ofJsonWithin levels tree.toJson = .ok tree := by
  induction levels generalizing document tree with
  | zero => cases read
  | succ levels inductionHypothesis =>
    obtain ⟨distinct, parts⟩ := parts_of_ofJsonWithin wellFormed read
    have each : ∀ relation ∈ tree,
        Relation.ofMember (ofJsonWithin levels) relation.name relation.toJson = .ok relation := by
      intro relation held
      obtain ⟨query, nested⟩ := parts relation held
      refine Relation.ofMember_toJson (fun present given => ?_) fun inner given => ?_
      · obtain ⟨part, partWellFormed, queryRead⟩ := query present given
        exact Query.reread_of_ofJson partWellFormed queryRead
      · obtain ⟨part, partWellFormed, innerRead⟩ := nested inner given
        exact inductionHypothesis partWellFormed innerRead
    have reread := Traversal.mapM_eq_ok_map each
    rw [List.map_id'] at reread
    rw [toJson, toMembers_eq_map, ofJsonWithin_object, List.mapM_map]
    exact ⟨tree, reread, (Keyed.ofList_of_distinct _ distinct).symm⟩

/-- A tree that was read from a document is read again from what is written for it. -/
theorem reread_of_ofJson (wellFormed : document.WellFormed)
    (read : decoder.ofJson document = .ok tree) : decoder.ofJson tree.toJson = .ok tree :=
  Traversal.mapError_eq_ok.mpr
    (ofJsonWithin_toJson wellFormed (Traversal.mapError_eq_ok.mp read))

/-! ### Queries at all levels -/

/-- The numbers in the scope of a relation are among those of its document. -/
theorem mem_numbers_relation {relation : Relation} {number : Number}
    (held : (∃ query, relation.query? = some query ∧ number ∈ query.toJson.numbers) ∨
      ∃ inner, relation.nested? = some inner ∧ number ∈ (RelationTree.toJson inner).numbers) :
    number ∈ relation.toJson.numbers := by
  cases relation with
  | plain name => rcases held with ⟨_, given, _⟩ | ⟨_, given, _⟩ <;> cases given
  | refined name found nested =>
    rw [Relation.toJson, Json.mem_numbers_object]
    rcases held with ⟨query, given, inside⟩ | ⟨inner, given, inside⟩
    · cases given
      exact ⟨("query", query.toJson), List.mem_append_left _ List.mem_cons_self, inside⟩
    · cases given
      exact ⟨("nested", inner.toJson), List.mem_append_right _ List.mem_cons_self, inside⟩

/-- The numbers in the queries of a tree are among those of its document. -/
theorem mem_numbers_toJson (wellFormed : tree.WellFormed) {query : Query}
    (held : query ∈ tree.queries) {number : Number} (inside : number ∈ query.toJson.numbers) :
    number ∈ tree.toJson.numbers := by
  induction wellFormed with
  | @intro tree _ _ _ inductionHypothesis =>
    rw [queries_eq_flatMap] at held
    obtain ⟨relation, member, held⟩ := List.mem_flatMap.mp held
    rw [toJson, Json.mem_numbers_object, toMembers_eq_map]
    refine ⟨(relation.name, relation.toJson), List.mem_map_of_mem member, mem_numbers_relation ?_⟩
    rcases Relation.mem_queries.mp held with given | ⟨inner, given, deeper⟩
    · exact .inl ⟨query, given, inside⟩
    · exact .inr ⟨inner, given, inductionHypothesis relation member inner given deeper⟩

/-- A tree is trimmed alike by changes that agree on its queries. -/
theorem trimmed_congr (wellFormed : tree.WellFormed) {first second : Query → Query}
    (same : ∀ query ∈ tree.queries, first query = second query) :
    tree.trimmed first = tree.trimmed second := by
  induction wellFormed with
  | @intro tree _ _ _ inductionHypothesis =>
    rw [trimmed_eq_map, trimmed_eq_map]
    refine List.map_congr_left fun relation member => ?_
    have sameInside : ∀ query ∈ relation.queries, first query = second query :=
      fun query inside => same query (queries_of_mem member inside)
    cases relation with
    | plain name => rfl
    | refined name found nested =>
      have sameQuery : found.map first = found.map second := Option.map_congr fun query given =>
        sameInside query (Relation.mem_queries.mpr (.inl given))
      have sameNested : nestedTrimmed first nested = nestedTrimmed second nested := by
        cases nested with
        | none => rfl
        | some inner =>
          exact congrArg some (inductionHypothesis _ member inner rfl fun query inside =>
            sameInside query (Relation.mem_queries.mpr (.inr ⟨inner, rfl, inside⟩)))
      rw [Relation.trimmed, Relation.trimmed, sameQuery, sameNested]

end RelationTree

end ListQuery
