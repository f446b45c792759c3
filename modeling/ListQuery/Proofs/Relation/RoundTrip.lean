/-
This file proves that the outline of a tree is parsed back to the tree. The outline
is a text of the grammar, written by the same cases in which relations are derived:
a query stands where its own text decodes, and a comma stands between a query and
the relations behind it even when there are none. What is read back is trimmed, its
queries are settled, and it has the same outline.
-/

import ListQuery.Proofs.Relation.Grammar
import ListQuery.Proofs.Relation.Trimmed

namespace ListQuery

/-! ### Names -/

theorem isName_of_checkName {name : String} (checked : checkName name = .ok ()) :
    Outline.IsName name := by
  unfold checkName at checked
  split at checked
  · cases checked
  rename_i nonempty
  split at checked
  · cases checked
  rename_i free
  constructor
  · intro empty
    rw [String.toList_eq_nil_iff.mp empty] at nonempty
    exact nonempty rfl
  · intro char member
    rw [List.any_eq_true] at free
    cases reserved : isReserved char with
    | false => rfl
    | true => exact absurd ⟨char, member, reserved⟩ free

/-! ### Written outlines -/

theorem separated_singleton (piece : List Char) : separated [piece] = piece := by
  rw [separated, List.intercalate_singleton]

theorem separated_cons_cons (first second : List Char) (rest : List (List Char)) :
    separated (first :: second :: rest) = first ++ ',' :: separated (second :: rest) := by
  rw [separated, List.intercalate_cons_cons, List.append_assoc, List.singleton_append, separated]

theorem RelationTree.outlines_eq_map (tree : RelationTree) :
    tree.outlines = tree.map Relation.outline := by
  induction tree with
  | nil => rfl
  | cons relation rest inductionHypothesis =>
    rw [RelationTree.outlines, inductionHypothesis, List.map_cons]

/-- A query whose text can be read is written as a text of that query, settled. -/
structure Query.Rereads (query : Query) : Prop where
  wellFormed : query.WellFormed
  sendable : query.check = .ok ()
  numbers : ∀ number ∈ query.toJson.numbers, number.ReadsBack
  shallow : query.toJson.opened ≤ Json.maxOpen

theorem Query.Rereads.isQueryText {query : Query} (rereads : query.Rereads) :
    Outline.IsQueryText query.toJson.write query.settled := by
  refine ⟨rfl, ?_, Query.ofChars_write rereads.wellFormed rereads.sendable rereads.numbers
    rereads.shallow⟩
  intro last isLast
  have ends : query.toJson.write.getLast? = some '\x7d' := by
    show ('\x7b' :: (_ ++ ['\x7d'])).getLast? = some '\x7d'
    rw [← List.cons_append, List.getLast?_concat]
  rw [ends] at isLast
  cases isLast
  rfl

namespace Outline

theorem derivesSeries_separated {depth : Nat} {relation : Relation} {relations : List Relation}
    {written : Relation → List Char} {result : Relation → Relation}
    (each : ∀ other ∈ relation :: relations, DerivesNode depth (written other) (result other)) :
    DerivesSeries depth (separated ((relation :: relations).map written))
      ((relation :: relations).map result) := by
  induction relations generalizing relation with
  | nil =>
    rw [List.map_singleton, separated_singleton]
    exact .last (each relation List.mem_cons_self)
  | cons next relations inductionHypothesis =>
    rw [List.map_cons, List.map_cons, separated_cons_cons]
    exact .more (each relation List.mem_cons_self)
      (inductionHypothesis fun other member => each other (List.mem_cons_of_mem _ member))

/-- The outline of a relation is derived, when that of its nested relations is. -/
theorem derivesNode_outline {depth : Nat} {relation : Relation} (isName : IsName relation.name)
    (query : ∀ query, relation.query? = some query → query.Rereads)
    (nested : ∀ inner, relation.nested? = some inner →
      DerivesList (depth + 1) inner.outline (inner.trimmed Query.settled)) :
    DerivesNode depth relation.outline (relation.trimmed Query.settled) := by
  cases relation with
  | plain name => exact .plain isName
  | refined name found inside =>
    cases found with
    | none =>
      cases inside with
      | none =>
        show DerivesNode depth (name.toList ++ []) (.plain name)
        rw [List.append_nil]
        exact .plain isName
      | some inner =>
        show DerivesNode depth
          (name.toList ++ '\x7b' :: (separated [RelationTree.outline inner] ++ ['\x7d'])) _
        rw [separated_singleton]
        exact .refined isName (.nested (nested inner rfl))
    | some present =>
      have isQuery := (query present rfl).isQueryText
      cases inside with
      | none =>
        show DerivesNode depth
          (name.toList ++ '\x7b' :: (separated [present.toJson.write] ++ ['\x7d'])) _
        rw [separated_singleton]
        exact .refined isName (.query isQuery)
      | some inner =>
        show DerivesNode depth (name.toList ++ '\x7b' ::
          (separated [present.toJson.write, RelationTree.outline inner] ++ ['\x7d'])) _
        rw [separated_cons_cons, separated_singleton]
        exact .refined isName (.both isQuery (nested inner rfl))

end Outline

namespace RelationTree

variable {tree : RelationTree}

/-- The outline of a tree is derived at the depth where there is room for its levels. -/
theorem derivesList_outline {depth levels : Nat} (room : depth + levels = maxNesting + 1)
    (wellFormed : tree.WellFormed) (sendable : checkWithin levels tree = .ok ())
    (numbers : ∀ query ∈ tree.queries, ∀ number ∈ query.toJson.numbers, number.ReadsBack)
    (shallow : ∀ query ∈ tree.queries, query.toJson.opened ≤ Json.maxOpen) :
    Outline.DerivesList depth tree.outline (tree.trimmed Query.settled) := by
  -- The check counts the levels that are left and the grammar those gone down; their sum stays.
  induction levels generalizing depth tree with
  | zero => cases sendable
  | succ levels inductionHypothesis =>
    rw [checkWithin_succ] at sendable
    have within : depth ≤ maxNesting := by omega
    have each : ∀ relation ∈ tree,
        Outline.DerivesNode depth relation.outline (relation.trimmed Query.settled) := by
      intro relation member
      obtain ⟨named, queryChecked, nestedChecked⟩ := sendable relation member
      refine Outline.derivesNode_outline (isName_of_checkName named) ?_ ?_
      · intro query given
        have held := queries_of_mem member (Relation.mem_queries.mpr (.inl given))
        exact ⟨wellFormed.queries relation member query given, queryChecked query given,
          numbers query held, shallow query held⟩
      · intro inner given
        have held : ∀ query ∈ RelationTree.queries inner, query ∈ tree.queries :=
          fun query inside =>
            queries_of_mem member (Relation.mem_queries.mpr (.inr ⟨inner, given, inside⟩))
        exact inductionHypothesis (by omega) (wellFormed.nested relation member inner given)
          (nestedChecked inner given) (fun query inside => numbers query (held query inside))
          (fun query inside => shallow query (held query inside))
    have distinct : Keyed.Distinct Relation.name (tree.trimmed Query.settled) := by
      rw [Keyed.Distinct, map_name_trimmed]
      exact wellFormed.distinct
    rw [← Keyed.ofList_of_distinct _ distinct, trimmed_eq_map, outline, outlines_eq_map]
    cases tree with
    | nil => exact .empty within
    | cons relation rest => exact .series within (Outline.derivesSeries_separated each)

theorem toOutline_eq_ok {text : String} :
    tree.toOutline = .ok text ↔ tree.check = .ok () ∧ text = String.ofList tree.outline := by
  unfold toOutline
  rw [Traversal.bind_eq_ok]
  constructor
  · rintro ⟨_, checked, same⟩
    cases same
    exact ⟨Traversal.mapError_eq_ok.mp checked, rfl⟩
  · rintro ⟨checked, rfl⟩
    exact ⟨(), Traversal.mapError_eq_ok.mpr checked, rfl⟩

/-- What is sent for a tree is parsed to the tree without its empty scopes, the queries settled. -/
theorem ofOutline_toOutline {text : String} (wellFormed : tree.WellFormed)
    (numbers : ∀ query ∈ tree.queries, ∀ number ∈ query.toJson.numbers, number.ReadsBack)
    (shallow : ∀ query ∈ tree.queries, query.toJson.opened ≤ Json.maxOpen)
    (sent : tree.toOutline = .ok text) : ofOutline text = .ok (tree.trimmed Query.settled) := by
  obtain ⟨checked, rfl⟩ := toOutline_eq_ok.mp sent
  have derived := derivesList_outline (Nat.zero_add _) wellFormed checked numbers shallow
  refine Traversal.mapError_eq_ok.mpr (Outline.parse_iff_derivesList.mpr ?_)
  rwa [String.toList_ofList]

/-! ### Trimmed trees -/

/-- The outline of a relation is its name and the parts of its scope, if there are any. -/
theorem outline_eq_enclosed (relation : Relation) :
    relation.outline = relation.name.toList ++
      enclosed ((relation.query?.map fun query => query.toJson.write).toList ++
        (relation.nested?.map outline).toList) := by
  cases relation with
  | plain name => exact (List.append_nil _).symm
  | refined name query nested => cases query <;> cases nested <;> rfl

/-- Trimming a tree and settling its queries does not change its outline. -/
theorem outline_trimmed (wellFormed : tree.WellFormed) :
    (tree.trimmed Query.settled).outline = tree.outline := by
  induction wellFormed with
  | @intro tree _ queries _ inductionHypothesis =>
    rw [outline, outline, outlines_eq_map, outlines_eq_map, trimmed_eq_map, List.map_map]
    refine congrArg separated (List.map_congr_left fun relation member => ?_)
    have sameQuery : (relation.query?.map Query.settled).map (fun query => query.toJson.write) =
        relation.query?.map fun query => query.toJson.write := by
      rw [Option.map_map]
      exact Option.map_congr fun query given =>
        congrArg Json.write (Query.toJson_settled (queries relation member query given))
    have sameNested : (relation.nested?.map (trimmed Query.settled)).map outline =
        relation.nested?.map outline := by
      rw [Option.map_map]
      exact Option.map_congr fun inner given => inductionHypothesis relation member inner given
    rw [Function.comp_apply, outline_eq_enclosed, outline_eq_enclosed, Relation.name_trimmed,
      Relation.query?_trimmed, Relation.nested?_trimmed, sameQuery, sameNested]

/-- A tree that passes the check still does when it is trimmed and its queries settled. -/
theorem checkWithin_trimmed {levels : Nat} (wellFormed : tree.WellFormed)
    (sendable : checkWithin levels tree = .ok ()) :
    checkWithin levels (tree.trimmed Query.settled) = .ok () := by
  induction levels generalizing tree with
  | zero => cases sendable
  | succ levels inductionHypothesis =>
    rw [checkWithin_succ] at sendable ⊢
    rw [trimmed_eq_map, List.forall_mem_map]
    intro relation member
    obtain ⟨named, queryChecked, nestedChecked⟩ := sendable relation member
    refine ⟨?_, ?_, ?_⟩
    · rw [Relation.name_trimmed]
      exact named
    · rw [Relation.query?_trimmed]
      intro settledQuery given
      obtain ⟨query, held, rfl⟩ := Option.map_eq_some_iff.mp given
      exact Query.check_settled (wellFormed.queries relation member query held)
        (queryChecked query held)
    · rw [Relation.nested?_trimmed]
      intro trimmedInner given
      obtain ⟨inner, held, rfl⟩ := Option.map_eq_some_iff.mp given
      exact inductionHypothesis (wellFormed.nested relation member inner held)
        (nestedChecked inner held)

/-- A tree survives its outline. The outline of a tree that passes the check is parsed to a tree
with the same names in the same order, trimmed and with settled queries at every level, and that
tree is sent as the same outline. -/
theorem outline_reread {text : String} (built : tree.Built)
    (numbers : ∀ query ∈ tree.queries, ∀ number ∈ query.toJson.numbers, number.ReadsBack)
    (shallow : ∀ query ∈ tree.queries, query.toJson.opened ≤ Json.maxOpen)
    (sent : tree.toOutline = .ok text) :
    ofOutline text = .ok (tree.trimmed Query.settled) ∧
      (tree.trimmed Query.settled).map Relation.name = tree.map Relation.name ∧
      (tree.trimmed Query.settled).toOutline = .ok text := by
  have wellFormed := built.wellFormed
  obtain ⟨checked, written⟩ := toOutline_eq_ok.mp sent
  refine ⟨ofOutline_toOutline wellFormed numbers shallow sent, map_name_trimmed _ _,
    toOutline_eq_ok.mpr ⟨checkWithin_trimmed wellFormed checked, ?_⟩⟩
  rw [outline_trimmed wellFormed]
  exact written

/-- A tree with a scope that has no parts, and with one that has a query, whose filter is not read
back as it was, and nested relations, of which there are none. -/
def sparse : RelationTree :=
  (RelationTree.empty.refined "author" none none).refined "comments"
    (some { filter := some (Filter.empty.equals "kind" (.object [("$ne", .string "\x7d,")]))
            limit := some 3 })
    (some RelationTree.empty)

/-- The outline of the sparse tree. -/
def sparseOutline : String :=
  "author,comments\x7b\x7b\"where\":\x7b\"kind\":\x7b\"$eq\":\x7b\"$ne\":\"\x7d,\"\x7d\x7d\x7d," ++
    "\"limit\":3\x7d,\x7d"

/-- The empty scope is gone, the value that looks like an operator document is a test for equality,
and the nested relations are still there and empty. -/
theorem outline_reread_sparse :
    sparse.Built ∧ sparse.toOutline = .ok sparseOutline ∧
      ofOutline sparseOutline = .ok [.plain "author", .refined "comments"
        (some { filter := some (Filter.empty.field "kind" (.operators
                  (OperatorSet.empty.put (.scalar .eq (.object [("$ne", .string "\x7d,")])))))
                limit := some 3 })
        (some [])] := by
  have kindBuilt : (Filter.empty.equals "kind" (.object [("$ne", .string "\x7d,")])).Built :=
    .field "kind" _ .empty (Json.wellFormed_object.mpr
      ⟨List.pairwise_singleton _ _, List.forall_mem_singleton.mpr trivial⟩)
  have built : sparse.Built := by
    refine .refined "comments" _ _ (.refined "author" none none .empty nofun nofun) ?_ ?_
    · rintro _ ⟨⟩ _ ⟨⟩
      exact kindBuilt
    · rintro _ ⟨⟩
      exact .empty
  have numbers : ∀ query ∈ sparse.queries, ∀ number ∈ query.toJson.numbers, number.ReadsBack :=
    List.forall_mem_singleton.mpr (List.forall_mem_singleton.mpr (Number.readsBack_integer 3 _))
  have shallow : ∀ query ∈ sparse.queries, query.toJson.opened ≤ Json.maxOpen :=
    List.forall_mem_singleton.mpr (by decide)
  exact ⟨built, rfl, (outline_reread built numbers shallow rfl).1⟩

end RelationTree

end ListQuery
