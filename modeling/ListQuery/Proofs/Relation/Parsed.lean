/-
This file proves that parsing an outline gives a tree in normal form. The parser
accepts many texts that are never written: names that come again, queries with
blanks, with null for a part or with their parts in any order. But whatever tree it
returns has names, queries and levels that pass the check, and no scope without
parts, so it can be written, and what is written is parsed to the same tree.
-/

import ListQuery.Proofs.Relation.Reading
import ListQuery.Proofs.Relation.RoundTrip

namespace ListQuery

/-! ### Normal form -/

/-- A tree that can be written and is parsed as it is, with trees at no more than `levels`
levels. -/
structure RelationTree.Normal (levels : Nat) (tree : RelationTree) : Prop where
  sendable : RelationTree.checkWithin levels tree = .ok ()
  held : tree.ReadWithin 126
  trimmed : tree.trimmed id = tree

/-- A relation that a tree in normal form may have. A scope that it has is not without parts. -/
structure Relation.Normal (levels : Nat) (relation : Relation) : Prop where
  named : checkName relation.name = .ok ()
  sendable : ∀ query, relation.query? = some query → query.check = .ok ()
  query : ∀ query, relation.query? = some query → query.ReadWithin 126
  nested : ∀ inner, relation.nested? = some inner → RelationTree.Normal levels inner
  needed : relation.query? = none → relation.nested? = none → relation = .plain relation.name

theorem Relation.Normal.trimmed {levels : Nat} {relation : Relation}
    (normal : relation.Normal levels) : relation.trimmed id = relation := by
  cases relation with
  | plain name => rfl
  | refined name query nested =>
    have same : nestedTrimmed id nested = nested := by
      cases nested with
      | none => rfl
      | some inner => exact congrArg some (normal.nested inner rfl).trimmed
    rw [Relation.trimmed, same, Option.map_id]
    split
    · rename_i unused
      rw [Bool.and_eq_true, Option.isNone_iff_eq_none, Option.isNone_iff_eq_none] at unused
      exact (normal.needed unused.1 unused.2).symm
    · rfl

/-- A tree is in normal form when its relations are, one level further in. -/
theorem RelationTree.normal_of_each {levels : Nat} {tree : RelationTree}
    (distinct : Keyed.Distinct Relation.name tree)
    (each : ∀ relation ∈ tree, relation.Normal levels) : tree.Normal (levels + 1) := by
  refine ⟨?_, ?_, ?_⟩
  · rw [checkWithin_succ]
    exact fun relation member => ⟨(each relation member).named, (each relation member).sendable,
      fun inner given => ((each relation member).nested inner given).sendable⟩
  · exact readWithin_of_each distinct fun relation member => ⟨(each relation member).query,
      fun inner given => ((each relation member).nested inner given).held⟩
  · rw [trimmed_eq_map]
    exact (List.map_congr_left fun relation member => (each relation member).trimmed).trans
      (List.map_id' tree)

/-! ### What is derived is in normal form -/

theorem checkName_of_isName {name : String} (isName : Outline.IsName name) :
    checkName name = .ok () := by
  have nonempty : ¬name.isEmpty = true := fun empty =>
    isName.1 (String.toList_eq_nil_iff.mpr (String.isEmpty_iff.mp empty))
  have free : ¬name.toList.any isReserved = true := by
    rw [List.any_eq_true]
    rintro ⟨char, member, reserved⟩
    rw [isName.2 char member] at reserved
    cases reserved
  rw [checkName, if_neg nonempty, if_neg free]

namespace Outline

/-- A query that stands in an outline was read from a document. -/
theorem IsQueryText.held {text : List Char} {query : Query} (isQuery : IsQueryText text query) :
    query.check = .ok () ∧ query.ReadWithin 126 := by
  obtain ⟨document, wellFormed, shallow, decoded⟩ :=
    Json.Layout.exists_of_ofChars Query.streaming_layout isQuery.decodes
  exact ⟨Query.check_of_ofJson wellFormed decoded,
    Query.readWithin_of_ofJson wellFormed shallow decoded⟩

mutual

/-- A derived tree is in normal form, whatever relations came again in its text. -/
theorem DerivesList.normal {depth : Nat} {text : List Char} {tree : RelationTree} :
    DerivesList depth text tree → ∀ levels, depth + levels = maxNesting + 1 → tree.Normal levels
  | .empty within => by
    intro levels room
    obtain ⟨less, rfl⟩ : ∃ less, levels = less + 1 := ⟨levels - 1, by omega⟩
    exact RelationTree.normal_of_each List.nodup_nil nofun
  | .series within series => by
    intro levels room
    obtain ⟨less, rfl⟩ : ∃ less, levels = less + 1 := ⟨levels - 1, by omega⟩
    exact RelationTree.normal_of_each (Keyed.distinct_ofList _ _) fun relation held =>
      series.normal less (by omega) relation (Keyed.mem_ofList held)

theorem DerivesSeries.normal {depth : Nat} {text : List Char} {relations : List Relation} :
    DerivesSeries depth text relations → ∀ levels, depth + levels = maxNesting →
      ∀ relation ∈ relations, relation.Normal levels
  | .last node => fun levels room => List.forall_mem_singleton.mpr (node.normal levels room)
  | .more node series => fun levels room =>
    List.forall_mem_cons.mpr ⟨node.normal levels room, series.normal levels room⟩

theorem DerivesNode.normal {depth : Nat} {text : List Char} {relation : Relation} :
    DerivesNode depth text relation → ∀ levels, depth + levels = maxNesting →
      relation.Normal levels
  | .plain isName => fun _ _ => ⟨checkName_of_isName isName, nofun, nofun, nofun, fun _ _ => rfl⟩
  | .refined isName inside => fun levels room => inside.normal levels room _ isName

/-- A derived scope has a part, and its parts are in normal form. -/
theorem DerivesScope.normal {depth : Nat} {text : List Char} {query : Option Query}
    {nested : Option RelationTree} :
    DerivesScope depth text query nested → ∀ levels, depth + levels = maxNesting →
      ∀ name, IsName name → (Relation.refined name query nested).Normal levels
  | .nested list => by
    intro levels room name isName
    refine ⟨checkName_of_isName isName, nofun, nofun, ?_, nofun⟩
    rintro _ ⟨⟩
    exact list.normal levels (by omega)
  | .query isQuery => by
    intro levels room name isName
    refine ⟨checkName_of_isName isName, ?_, ?_, nofun, nofun⟩
    · rintro _ ⟨⟩
      exact isQuery.held.1
    · rintro _ ⟨⟩
      exact isQuery.held.2
  | .both isQuery list => by
    intro levels room name isName
    refine ⟨checkName_of_isName isName, ?_, ?_, ?_, nofun⟩
    · rintro _ ⟨⟩
      exact isQuery.held.1
    · rintro _ ⟨⟩
      exact isQuery.held.2
    · rintro _ ⟨⟩
      exact list.normal levels (by omega)

end

end Outline

/-! ### Writing what was parsed -/

namespace RelationTree

variable {tree : RelationTree}

/-- The queries of a tree in normal form are settled, so nothing of the tree changes when it is
trimmed and its queries settled. -/
theorem Normal.settled {levels : Nat} (normal : tree.Normal levels) :
    tree.trimmed Query.settled = tree :=
  (trimmed_congr normal.held.wellFormed fun query inside =>
    (normal.held.queries query inside).settled_eq).trans normal.trimmed

/-- Every tree that was parsed can be written, and what is written is parsed to the very same
tree. -/
theorem outline_normalForm {outline : String} (parsed : ofOutline outline = .ok tree)
    (numbers : ∀ query ∈ tree.queries, ∀ number ∈ query.toJson.numbers, number.ReadsBack) :
    ∃ text, tree.toOutline = .ok text ∧ ofOutline text = .ok tree := by
  have derived := Outline.parse_iff_derivesList.mp (Traversal.mapError_eq_ok.mp parsed)
  have normal := derived.normal (maxNesting + 1) (Nat.zero_add _)
  have sent : tree.toOutline = .ok (String.ofList tree.outline) :=
    toOutline_eq_ok.mpr ⟨normal.sendable, rfl⟩
  have back := ofOutline_toOutline normal.held.wellFormed numbers
    (fun query inside => (normal.held.queries query inside).opened_toJson_le) sent
  rw [normal.settled] at back
  exact ⟨_, sent, back⟩

/-- An outline in which a name comes again, with a query that is written with blanks, with null for
one of its parts, and with its parts in another order than they are written in. -/
def respelledOutline : String :=
  "a,b\x7b\x7b \"page\": 2, \"sort\": null, \"where\": \x7b\"x\": 1\x7d \x7d,\x7d,a\x7bc\x7b\x7d\x7d"

/-- The tree that the outline is parsed to. -/
def respelled : RelationTree :=
  [.refined "a" none (some [.refined "c" none (some [])]),
    .refined "b" (some { filter := some (Filter.empty.equals "x" (.number (Number.ofWord 1)))
                         page := some 2 }) (some [])]

/-- What is written for the tree is another outline, which is parsed to the tree as well. -/
theorem outline_normalForm_respelled :
    ofOutline respelledOutline = .ok respelled ∧
      ∃ text, respelled.toOutline = .ok text ∧
        text = "a\x7bc\x7b\x7d\x7d,b\x7b\x7b\"where\":\x7b\"x\":1\x7d,\"page\":2\x7d,\x7d" ∧
        ofOutline text = .ok respelled := by
  have numbers : ∀ query ∈ respelled.queries, ∀ number ∈ query.toJson.numbers,
      number.ReadsBack := by
    refine List.forall_mem_singleton.mpr ?_
    show ∀ number ∈ [Number.ofWord 1, Number.ofWord 2], number.ReadsBack
    simp only [List.forall_mem_cons, List.not_mem_nil, false_implies, implies_true, and_true]
    exact ⟨Number.readsBack_integer _ _, Number.readsBack_integer _ _⟩
  have parsed : ofOutline respelledOutline = .ok respelled := rfl
  obtain ⟨text, sent, back⟩ := outline_normalForm parsed numbers
  refine ⟨parsed, text, sent, ?_, back⟩
  cases sent
  rfl

end RelationTree

end ListQuery
