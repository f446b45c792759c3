/-
This file proves how the limits on relation trees agree. The writer of outlines, the
parser of outlines and the decoder of documents each count the levels of a tree in
their own way, and all three stop at the same one, whether the last tree holds
relations or not. The containers that are open in a query are counted by the parser
alone, so it refuses outlines that are written without complaint.
-/

import ListQuery.Proofs.Relation.Readable

namespace ListQuery

/-! ### Levels in documents -/

namespace Relation

variable {decode : Json → Except ShapeFault RelationTree} {relation : Relation}

/-- A relation is read from what is written for it when its nested relations are. -/
theorem exists_ofMember_toJson_iff
    (queries : ∀ query, relation.query? = some query →
      ∃ found, Query.decoder.ofJson query.toJson = .ok found) :
    (∃ found, ofMember decode relation.name relation.toJson = .ok found) ↔
      ∀ inner, relation.nested? = some inner →
        ∃ found, decode (RelationTree.toJson inner) = .ok found := by
  cases relation with
  | plain name =>
    exact ⟨fun _ inner given => absurd given.symm (Option.some_ne_none inner),
      fun _ => ⟨.plain name, rfl⟩⟩
  | refined name query nested =>
    have queryRead : ∃ found, query.mapM (fun query =>
        (Query.decoder.ofJson query.toJson).mapError ShapeFault.relationQuery) = .ok found := by
      refine Traversal.exists_optionMapM_iff.mpr fun present given => ?_
      obtain ⟨found, read⟩ := queries present given
      exact ⟨found, Traversal.mapError_eq_ok.mpr read⟩
    obtain ⟨found, queryRead⟩ := queryRead
    rw [Relation.name, ofMember_refined]
    constructor
    · rintro ⟨_, read⟩
      obtain ⟨_, _, read⟩ := Traversal.bind_eq_ok.mp read
      obtain ⟨inside, nestedRead, _⟩ := Traversal.bind_eq_ok.mp read
      exact Traversal.exists_optionMapM_iff.mp ⟨inside, nestedRead⟩
    · intro each
      obtain ⟨inside, nestedRead⟩ := Traversal.exists_optionMapM_iff.mpr each
      exact ⟨.refined name found inside, Traversal.bind_eq_ok.mpr
        ⟨found, queryRead, Traversal.bind_eq_ok.mpr ⟨inside, nestedRead, rfl⟩⟩⟩

theorem exists_of_ofMember_error
    (queries : ∀ query, relation.query? = some query →
      ∃ found, Query.decoder.ofJson query.toJson = .ok found) {fault : ShapeFault}
    (failed : ofMember decode relation.name relation.toJson = .error fault) :
    ∃ inner, relation.nested? = some inner ∧
      decode (RelationTree.toJson inner) = .error fault := by
  cases relation with
  | plain name => cases failed
  | refined name query nested =>
    rw [Relation.name, ofMember_refined] at failed
    rcases Traversal.bind_eq_error.mp failed with failed | ⟨_, _, failed⟩
    · obtain ⟨present, given, failed⟩ := Traversal.exists_of_optionMapM_error failed
      obtain ⟨_, failed, _⟩ := Traversal.mapError_eq_error.mp failed
      obtain ⟨found, read⟩ := queries present given
      cases read.symm.trans failed
    · exact Traversal.exists_of_optionMapM_error (Traversal.bind_pure_eq_error.mp failed)

end Relation

namespace RelationTree

variable {levels : Nat} {tree : RelationTree}

/-- What is written for a tree is read as a tree exactly when the tree fits the levels. -/
theorem exists_ofJsonWithin_toJson_iff
    (queries : ∀ query ∈ tree.queries, ∃ found, Query.decoder.ofJson query.toJson = .ok found) :
    (∃ found, ofJsonWithin levels tree.toJson = .ok found) ↔ tree.Fits levels := by
  induction levels generalizing tree with
  | zero =>
    refine ⟨?_, fun fits => absurd fits Levels.not_fits_zero⟩
    rintro ⟨found, read⟩
    cases read
  | succ levels inductionHypothesis =>
    have each : ∀ relation ∈ tree,
        (∃ found, Relation.ofMember (ofJsonWithin levels) relation.name relation.toJson =
          .ok found) ↔ ∀ inner, relation.nested? = some inner → Fits levels inner := by
      intro relation member
      refine (Relation.exists_ofMember_toJson_iff fun query given => ?_).trans
        (forall₂_congr fun inner given => inductionHypothesis fun query held => ?_)
      · exact queries query (mem_queries.mpr ⟨relation, member, .inl given⟩)
      · exact queries query (mem_queries.mpr ⟨relation, member, .inr ⟨inner, given, held⟩⟩)
    rw [fits_succ, ← forall₂_congr each]
    refine Iff.trans ?_ Traversal.exists_mapM_iff
    rw [toJson, toMembers_eq_map]
    constructor
    · rintro ⟨_, read⟩
      obtain ⟨relations, converted, _⟩ := ofJsonWithin_object.mp read
      rw [List.mapM_map] at converted
      exact ⟨relations, converted⟩
    · rintro ⟨relations, converted⟩
      refine ⟨_, ofJsonWithin_object.mpr ⟨relations, ?_, rfl⟩⟩
      rw [List.mapM_map]
      exact converted

/-- What is written for a tree is refused only for its levels. -/
theorem fault_of_ofJsonWithin_toJson
    (queries : ∀ query ∈ tree.queries, ∃ found, Query.decoder.ofJson query.toJson = .ok found)
    {fault : ShapeFault} (failed : ofJsonWithin levels tree.toJson = .error fault) :
    fault = .treeTooDeep := by
  induction levels generalizing tree with
  | zero =>
    cases failed
    rfl
  | succ levels inductionHypothesis =>
    rw [toJson, toMembers_eq_map, ofJsonWithin,
      Traversal.foldlM_eq_mapM (fun member : String × Json =>
        Relation.ofMember (ofJsonWithin levels) member.1 member.2) RelationTree.put,
      List.mapM_map] at failed
    obtain ⟨relation, member, failed⟩ :=
      Traversal.exists_of_mapM_error (Traversal.bind_pure_eq_error.mp failed)
    obtain ⟨inner, given, failed⟩ := Relation.exists_of_ofMember_error (fun query given =>
      queries query (mem_queries.mpr ⟨relation, member, .inl given⟩)) failed
    exact inductionHypothesis (fun query held =>
      queries query (mem_queries.mpr ⟨relation, member, .inr ⟨inner, given, held⟩⟩)) failed

/-! ### Where the limits agree -/

/-- The three limits on levels agree. Of a tree whose names and queries can be written and read, the
outline is sent, the document is decoded and the outline is parsed, all when no tree in it lies
under more than 32 scopes; otherwise all three are refused, and for that reason. -/
theorem limits_agree (built : tree.Built) (names : ∀ name, tree.HasName name → ¬Unwritable name)
    (sendable : ∀ query ∈ tree.queries, query.check = .ok ())
    (numbers : ∀ query ∈ tree.queries, ∀ number ∈ query.toJson.numbers, number.ReadsBack)
    (shallow : ∀ query ∈ tree.queries, query.toJson.opened ≤ 127) :
    ((∀ count held, tree.HoldsTree count held → count ≤ 32) ∧
      tree.toOutline = .ok (String.ofList tree.outline) ∧
      (∃ decoded, ofJson tree.toJson = .ok decoded) ∧
      ∃ parsed, ofOutline (String.ofList tree.outline) = .ok parsed) ∨
    ((∃ count held, tree.HoldsTree count held ∧ 32 < count) ∧
      tree.toOutline = .error (.shape .treeTooDeep) ∧
      ofJson tree.toJson = .error .treeTooDeep ∧
      ofOutline (String.ofList tree.outline) = .error (.shape .treeTooDeep)) := by
  have wellFormed := built.wellFormed
  have decoded : ∀ query ∈ tree.queries,
      ∃ found, Query.decoder.ofJson query.toJson = .ok found := fun query held =>
    ⟨query.settled, Query.ofJson_toJson (wellFormed.queries_wellFormed query held)
      (sendable query held)⟩
  have parsing := Outline.parse_outline wellFormed names fun query held =>
    ⟨wellFormed.queries_wellFormed query held, sendable query held, numbers query held⟩
  rcases parsing with ⟨fits, _, parsed⟩ | ⟨unfit, refused⟩ | ⟨⟨query, held, deep⟩, _⟩
  · refine .inl ⟨fun count held holds => Nat.lt_succ_iff.mp (fits count held holds), ?_,
      (exists_ofJsonWithin_toJson_iff decoded).mpr fits, _, parsed⟩
    exact toOutline_eq_ok.mpr ⟨checkWithin_eq_ok.mpr ⟨fits, names, sendable⟩, rfl⟩
  · refine .inr ⟨Levels.exists_of_not_fits unfit, ?_, ?_, refused⟩
    · have treeFails : ∃ fault, tree.check = .error fault :=
        Traversal.exists_error fun ⟨_, passed⟩ => unfit (checkWithin_eq_ok.mp passed).1
      obtain ⟨fault, treeRefused⟩ := treeFails
      refine toOutline_eq_error.mpr ⟨.treeTooDeep, ?_, rfl⟩
      cases reason_of_checkWithin treeRefused with
      | level => exact treeRefused
      | name hasName nameRefused =>
        cases (checkName_eq_ok.mpr (names _ hasName)).symm.trans nameRefused
      | query held queryRefused => cases (sendable _ held).symm.trans queryRefused
    · have documentFails : ∃ fault, ofJson tree.toJson = .error fault :=
        Traversal.exists_error fun read => unfit ((exists_ofJsonWithin_toJson_iff decoded).mp read)
      obtain ⟨fault, documentRefused⟩ := documentFails
      rw [documentRefused, fault_of_ofJsonWithin_toJson decoded documentRefused]
  · exact absurd (shallow query held) (Nat.not_le_of_lt deep)

/-- The query in every scope of a chain. -/
def link : Query where
  filter := some (Filter.empty.equals "b" .null)
  limit := some 3

/-- So many scopes around each other, the innermost with relations nested in it, of which there are
none. -/
def chain : Nat → RelationTree
  | 0 => .empty
  | scopes + 1 => RelationTree.empty.refined "a" (some link) (some (chain scopes))

theorem built_chain (scopes : Nat) : (chain scopes).Built := by
  induction scopes with
  | zero => exact .empty
  | succ scopes inductionHypothesis =>
    refine .refined "a" _ _ .empty ?_ ?_
    · rintro _ ⟨⟩ _ ⟨⟩
      exact .field "b" _ .empty trivial
    · rintro _ ⟨⟩
      exact inductionHypothesis

theorem eq_link_of_chain {scopes : Nat} {query : Query} (held : query ∈ (chain scopes).queries) :
    query = link := by
  induction scopes with
  | zero => cases held
  | succ scopes inductionHypothesis =>
    obtain ⟨relation, member, given⟩ := mem_queries.mp held
    cases List.mem_singleton.mp member
    rcases given with ⟨⟨⟩⟩ | ⟨_, ⟨⟩, deeper⟩
    · rfl
    · exact inductionHypothesis deeper

theorem hasName_chain {scopes : Nat} {name : String} (hasName : (chain scopes).HasName name) :
    name = "a" := by
  induction scopes with
  | zero =>
    rcases hasName_iff.mp hasName with ⟨_, member, _⟩ | ⟨_, ⟨_, member, _⟩, _⟩ <;> cases member
  | succ scopes inductionHypothesis =>
    rcases hasName_iff.mp hasName with ⟨relation, member, rfl⟩ | ⟨_, ⟨_, member, nested⟩, deeper⟩
    · cases List.mem_singleton.mp member
      rfl
    · cases List.mem_singleton.mp member
      cases nested
      exact inductionHypothesis deeper

theorem holdsTree_chain (scopes : Nat) : (chain scopes).HoldsTree scopes .empty := by
  induction scopes with
  | zero => exact .here
  | succ scopes inductionHypothesis =>
    exact .deeper ⟨_, List.mem_singleton_self _, rfl⟩ inductionHypothesis

theorem count_le_of_chain {scopes count : Nat} {held : RelationTree}
    (holds : (chain scopes).HoldsTree count held) : count ≤ scopes := by
  induction scopes generalizing count with
  | zero =>
    cases holds with
    | here => exact Nat.le_refl 0
    | deeper inScope =>
      obtain ⟨_, member, _⟩ := inScope
      cases member
  | succ scopes inductionHypothesis =>
    cases holds with
    | here => exact Nat.zero_le _
    | deeper inScope holds =>
      obtain ⟨_, member, nested⟩ := inScope
      cases List.mem_singleton.mp member
      cases nested
      exact Nat.succ_le_succ (inductionHypothesis holds)

/-- Under 32 scopes there is room for a tree, and under 33 there is not even for an empty one. -/
theorem limits_agree_chain :
    ((chain 32).toOutline = .ok (String.ofList (chain 32).outline) ∧
      (∃ decoded, ofJson (chain 32).toJson = .ok decoded) ∧
      ∃ parsed, ofOutline (String.ofList (chain 32).outline) = .ok parsed) ∧
    (chain 33).toOutline = .error (.shape .treeTooDeep) ∧
      ofJson (chain 33).toJson = .error .treeTooDeep ∧
      ofOutline (String.ofList (chain 33).outline) = .error (.shape .treeTooDeep) := by
  have names : ∀ scopes name, (chain scopes).HasName name → ¬Unwritable name := by
    intro scopes name hasName
    rw [hasName_chain hasName]
    exact checkName_eq_ok.mp rfl
  have numbers : ∀ number ∈ link.toJson.numbers, number.ReadsBack :=
    List.forall_mem_singleton.mpr (Number.readsBack_integer 3 _)
  have agree := fun scopes => limits_agree (built_chain scopes) (names scopes)
    (fun query held => eq_link_of_chain held ▸ rfl)
    (fun query held => eq_link_of_chain held ▸ numbers)
    (fun query held => eq_link_of_chain held ▸ by decide)
  constructor
  · rcases agree 32 with ⟨_, agreed⟩ | ⟨⟨count, held, holds, deep⟩, _⟩
    · exact agreed
    · exact absurd (count_le_of_chain holds) (Nat.not_le_of_lt deep)
  · rcases agree 33 with ⟨fits, _⟩ | ⟨_, agreed⟩
    · exact absurd (fits 33 _ (holdsTree_chain 33)) (by decide)
    · exact agreed

/-! ### Where the limits differ -/

/-- The check does not count the containers that are open in a query. With too many of them the
outline of a tree is sent all the same, and it cannot be parsed. -/
theorem unreadable_of_deep {text : String} (built : tree.Built)
    (numbers : ∀ query ∈ tree.queries, ∀ number ∈ query.toJson.numbers, number.ReadsBack)
    (sent : tree.toOutline = .ok text) {query : Query} (held : query ∈ tree.queries)
    (deep : 127 < query.toJson.opened) :
    ∃ position fault, ofOutline text = .error (.parse position (.invalidQuery fault)) := by
  have wellFormed := built.wellFormed
  obtain ⟨checked, rfl⟩ := toOutline_eq_ok.mp sent
  obtain ⟨fits, names, sendable⟩ := checkWithin_eq_ok.mp checked
  have parsing := Outline.parse_outline wellFormed names fun query held =>
    ⟨wellFormed.queries_wellFormed query held, sendable query held, numbers query held⟩
  rcases parsing with ⟨_, shallow, _⟩ | ⟨unfit, _⟩ | ⟨_, refused⟩
  · exact absurd (shallow query held) (Nat.not_le_of_lt deep)
  · exact absurd fits unfit
  · exact refused

/-- What is sent for a tree is parsed, and what was parsed is sent as the same outline, exactly when
no query opens more containers than the parser allows. -/
theorem outline_readable_iff {text : String} (built : tree.Built)
    (numbers : ∀ query ∈ tree.queries, ∀ number ∈ query.toJson.numbers, number.ReadsBack)
    (sent : tree.toOutline = .ok text) :
    (∃ parsed, ofOutline text = .ok parsed ∧ parsed.toOutline = .ok text) ↔
      ∀ query ∈ tree.queries, query.toJson.opened ≤ 127 := by
  have wellFormed := built.wellFormed
  constructor
  · rintro ⟨parsed, read, _⟩ query held
    by_contra deep
    obtain ⟨_, _, refused⟩ :=
      unreadable_of_deep built numbers sent held (Nat.lt_of_not_le deep)
    cases refused.symm.trans read
  · intro shallow
    obtain ⟨checked, same⟩ := toOutline_eq_ok.mp sent
    refine ⟨tree.trimmed Query.settled, ofOutline_toOutline wellFormed numbers shallow sent, ?_⟩
    rw [toOutline_eq_ok, outline_trimmed wellFormed]
    exact ⟨checkWithin_trimmed wellFormed checked, same⟩

/-- So many arrays inside each other. -/
def tower : Nat → Json
  | 0 => .null
  | height + 1 => .array [tower height]

/-- A query for a tower. -/
def towerQuery (height : Nat) : Query where
  filter := some (Filter.empty.equals "a" (tower height))

/-- A relation under the query for a tower. -/
def towering (height : Nat) : RelationTree :=
  RelationTree.empty.refined "r" (some (towerQuery height)) none

theorem toJson_towerQuery (height : Nat) :
    (towerQuery height).toJson = .object [("where", .object [("a", tower height)])] := by
  cases height <;> rfl

/-- The query and its filter are open around the tower. -/
theorem opened_towerQuery (height : Nat) : (towerQuery height).toJson.opened = height + 2 := by
  have opened : (tower height).opened = height := by
    induction height with
    | zero => rfl
    | succ height inductionHypothesis =>
      show max (tower height).opened 0 + 1 = height + 1
      rw [inductionHypothesis, Nat.max_zero]
  rw [toJson_towerQuery]
  show max (max (tower height).opened 0 + 1) 0 + 1 = height + 2
  rw [opened, Nat.max_zero, Nat.max_zero]

theorem numbers_towerQuery (height : Nat) : (towerQuery height).toJson.numbers = [] := by
  have numbers : (tower height).numbers = [] := by
    induction height with
    | zero => rfl
    | succ height inductionHypothesis =>
      show (tower height).numbers ++ [] = []
      rw [inductionHypothesis, List.append_nil]
  rw [toJson_towerQuery]
  show ((tower height).numbers ++ []) ++ [] = []
  rw [numbers, List.append_nil, List.append_nil]

theorem wellFormed_tower (height : Nat) : (tower height).WellFormed := by
  induction height with
  | zero => trivial
  | succ height inductionHypothesis => exact ⟨inductionHypothesis, trivial⟩

theorem built_towering (height : Nat) : (towering height).Built := by
  refine .refined "r" _ none .empty ?_ nofun
  rintro _ ⟨⟩ _ ⟨⟩
  exact .field "a" _ .empty (wellFormed_tower height)

theorem numbers_towering (height : Nat) :
    ∀ query ∈ (towering height).queries, ∀ number ∈ query.toJson.numbers, number.ReadsBack := by
  refine List.forall_mem_singleton.mpr ?_
  rw [numbers_towerQuery]
  exact fun number held => absurd held List.not_mem_nil

/-- A tower of 125 arrays is as high as the parser allows. -/
theorem outline_readable_towering :
    ∃ text, (towering 125).toOutline = .ok text ∧
      ∃ parsed, ofOutline text = .ok parsed ∧ parsed.toOutline = .ok text := by
  refine ⟨String.ofList (towering 125).outline, rfl, ?_⟩
  refine (outline_readable_iff (built_towering 125) (numbers_towering 125) rfl).mpr ?_
  exact List.forall_mem_singleton.mpr (Nat.le_of_eq (opened_towerQuery 125))

/-- With one array more the outline is sent as well, and it cannot be parsed. -/
theorem outline_unreadable_towering :
    (towering 126).Built ∧
      (towering 126).toOutline = .ok (String.ofList (towering 126).outline) ∧
      ∃ position fault, ofOutline (String.ofList (towering 126).outline) =
        .error (.parse position (.invalidQuery fault)) := by
  have deep : 127 < (towerQuery 126).toJson.opened :=
    Nat.lt_of_lt_of_eq (by decide) (opened_towerQuery 126).symm
  exact ⟨built_towering 126, rfl, unreadable_of_deep (built_towering 126) (numbers_towering 126) rfl
    (List.mem_singleton_self (towerQuery 126)) deep⟩

end RelationTree

end ListQuery
