/-
This file proves that an outline determines the relations it was written for. Names
stand in it as they are, next to the texts of queries, so the proof goes by what can
come where: a name ends at the first reserved character, only a brace opens a scope,
only a query starts with another brace, and the text of a query shows where it ends.
Relations that are the same but for scopes without parts have one outline, so a tree
is determined as far as its document goes once such scopes are left out.
-/

import ListQuery.Proofs.Json.Distinction
import ListQuery.Proofs.Relation.Reading
import ListQuery.Proofs.Relation.RoundTrip

namespace ListQuery

/-! ### Members of trimmed relations -/

/-- The value that stands for a scope, given the documents of its parts: `true` when it has none. -/
def scopeToJson : Option Json → Option Json → Json
  | none, none => .boolean true
  | query, nested => .object ((query.map fun document => ("query", document)).toList ++
      (nested.map fun document => ("nested", document)).toList)

/-- The document of a tree once scopes without parts are left out. -/
def RelationTree.trimmedJson (tree : RelationTree) : Json :=
  (tree.trimmed id).toJson

namespace Relation

/-- The member that stands for a relation once scopes without parts are left out. -/
def trimmedMember (relation : Relation) : String × Json :=
  ((relation.trimmed id).name, (relation.trimmed id).toJson)

/-- The document of the query in the scope of a relation. -/
def queryJson (relation : Relation) : Option Json :=
  relation.query?.map Query.toJson

/-- The document of the relations nested in the scope of a relation, once they are trimmed. -/
def nestedJson (relation : Relation) : Option Json :=
  relation.nested?.map RelationTree.trimmedJson

theorem trimmedMember_eq (relation : Relation) :
    relation.trimmedMember =
      (relation.name, scopeToJson relation.queryJson relation.nestedJson) := by
  cases relation with
  | plain name => rfl
  | refined name query nested => cases query <;> cases nested <;> rfl

end Relation

theorem RelationTree.trimmedJson_eq (tree : RelationTree) :
    tree.trimmedJson = .object (tree.map Relation.trimmedMember) := by
  rw [RelationTree.trimmedJson, RelationTree.toJson, RelationTree.toMembers_eq_map,
    RelationTree.trimmed_eq_map, List.map_map]
  rfl

/-! ### Outlines as lists -/

theorem separated_map_cons {Value : Type} (write : Value → List Char) (item : Value)
    (items : List Value) :
    separated ((item :: items).map write) =
      write item ++ items.flatMap fun item => ',' :: write item := by
  induction items generalizing item with
  | nil =>
    rw [List.map_singleton, separated_singleton]
    exact (List.append_nil _).symm
  | cons next items inductionHypothesis =>
    rw [List.map_cons, List.map_cons, separated_cons_cons, ← List.map_cons, inductionHypothesis,
      List.flatMap_cons, List.cons_append]

theorem RelationTree.outline_eq_listed (tree : RelationTree) :
    tree.outline = Json.listed Relation.outline tree := by
  rw [RelationTree.outline, RelationTree.outlines_eq_map]
  cases tree with
  | nil => rfl
  | cons relation rest => exact separated_map_cons Relation.outline relation rest

open Outline

/-- The names of all relations of a tree can stand in an outline. -/
def RelationTree.Named (tree : RelationTree) : Prop :=
  ∀ relation ∈ tree, IsName relation.name

theorem Outline.separates_ends : Json.Separates EndsNode EndsList where
  comma text := .inr ⟨text, rfl⟩
  close _ ends := .inl ends
  noComma := by
    rintro _ (empty | ⟨more, closed⟩)
    · cases empty
    · cases closed

/-- The outline of a relation starts with a character of its name. -/
theorem Relation.starts_outline {relation : Relation} (isName : IsName relation.name) :
    ∃ char more, relation.outline = char :: more ∧ isReserved char = false := by
  obtain ⟨nonempty, free⟩ := isName
  obtain ⟨char, others, leads⟩ := List.exists_cons_of_ne_nil nonempty
  rw [RelationTree.outline_eq_enclosed, leads]
  exact ⟨char, _, rfl, free char (leads ▸ List.mem_cons_self)⟩

/-- The outline of relations starts with a character of a name. -/
theorem Outline.starts_outline {relation : Relation} (isName : IsName relation.name)
    (relations : List Relation) :
    ∃ char more, RelationTree.outline (relation :: relations) = char :: more ∧
      isReserved char = false := by
  obtain ⟨char, more, leads, free⟩ := relation.starts_outline isName
  rw [RelationTree.outline_eq_listed, Json.listed, leads]
  exact ⟨char, _, rfl, free⟩

theorem Relation.outline_unclosed {relation : Relation} (isName : IsName relation.name)
    (rest : List Char) : ¬EndsList (relation.outline ++ rest) := by
  obtain ⟨char, more, leads, free⟩ := relation.starts_outline isName
  rw [leads]
  rintro (empty | ⟨others, closed⟩)
  · cases empty
  · rw [(List.cons.inj closed).1] at free
    cases free

/-- The outline of a tree in braces does not start like a query. -/
theorem RelationTree.outline_noBrace {tree : RelationTree} (named : tree.Named)
    (rest inner : List Char) : tree.outline ++ '\x7d' :: rest ≠ '\x7b' :: inner := by
  rw [RelationTree.outline_eq_listed]
  cases tree with
  | nil => exact nofun
  | cons relation others =>
    obtain ⟨char, more, leads, free⟩ := relation.starts_outline (named relation List.mem_cons_self)
    rw [Json.listed, leads]
    intro same
    rw [(List.cons.inj same).1] at free
    cases free

/-! ### Scopes -/

/-- The outline of a scope with the given parts. -/
def scopeOutline (query : Option Query) (nested : Option RelationTree) : List Char :=
  enclosed ((query.map fun query => query.toJson.write).toList ++
    (nested.map RelationTree.outline).toList)

/-- What a scope starts with: nothing, nested relations or a query. -/
inductive Opening where
  | bare
  | nested
  | query

/-- What the scope starts with that follows a name. -/
def Opening.ofText : List Char → Opening
  | '\x7b' :: '\x7b' :: _ => .query
  | '\x7b' :: _ => .nested
  | _ => .bare

/-- What a scope with the given parts starts with. -/
def Opening.ofParts : Option Query → Option RelationTree → Opening
  | some _, _ => .query
  | none, some _ => .nested
  | none, none => .bare

/-- The rest of a scope behind its query. -/
def scopeEnd : Option RelationTree → List Char
  | none => ['\x7d']
  | some tree => ',' :: (tree.outline ++ ['\x7d'])

theorem scopeOutline_query (query : Query) (nested : Option RelationTree) :
    scopeOutline (some query) nested = '\x7b' :: (query.toJson.write ++ scopeEnd nested) := by
  cases nested with
  | none =>
    show '\x7b' :: (separated [query.toJson.write] ++ ['\x7d']) = _
    rw [separated_singleton]
    rfl
  | some tree =>
    show '\x7b' :: (separated [query.toJson.write, tree.outline] ++ ['\x7d']) = _
    rw [separated_cons_cons, separated_singleton, List.append_assoc]
    rfl

theorem scopeOutline_nested (tree : RelationTree) :
    scopeOutline none (some tree) = '\x7b' :: (tree.outline ++ ['\x7d']) := by
  show '\x7b' :: (separated [tree.outline] ++ ['\x7d']) = _
  rw [separated_singleton]

section Scopes

variable {query otherQuery : Option Query} {nested otherNested : Option RelationTree}
  {rest other : List Char}

theorem opening_scopeOutline (named : ∀ tree, nested = some tree → tree.Named)
    (ends : EndsNode rest) :
    Opening.ofText (scopeOutline query nested ++ rest) = .ofParts query nested := by
  cases query with
  | some query =>
    rw [scopeOutline_query]
    rfl
  | none =>
    cases nested with
    | none => rcases ends with (rfl | ⟨more, rfl⟩) | ⟨more, rfl⟩ <;> rfl
    | some tree =>
      have noBrace := RelationTree.outline_noBrace (named tree rfl) rest
      rw [scopeOutline_nested, List.cons_append, List.append_assoc, List.singleton_append]
      unfold Opening.ofText
      split
      · rename_i inner starts
        exact absurd (List.cons.inj starts).2 (noBrace inner)
      · rfl
      · rename_i noScope
        exact absurd rfl (noScope _)

/-- A name ends where its scope starts. -/
theorem endsName_scopeOutline (ends : EndsNode rest) :
    EndsName (scopeOutline query nested ++ rest) := by
  cases query with
  | some query =>
    rw [scopeOutline_query]
    exact Text.stops_cons (by decide)
  | none =>
    cases nested with
    | none => exact ends.endsName
    | some tree =>
      rw [scopeOutline_nested]
      exact Text.stops_cons (by decide)

/-- The relations behind a query are determined, and whether there are any. -/
theorem scopeEnd_unique
    (trees : ∀ tree otherTree, nested = some tree → otherNested = some otherTree →
      Json.Determines EndsList RelationTree.outline RelationTree.trimmedJson tree otherTree)
    (same : scopeEnd nested ++ rest = scopeEnd otherNested ++ other) :
    nested.map RelationTree.trimmedJson = otherNested.map RelationTree.trimmedJson ∧
      rest = other := by
  cases nested with
  | none =>
    cases otherNested with
    | none => exact ⟨rfl, (List.cons.inj same).2⟩
    | some otherTree => cases (List.cons.inj same).1
  | some tree =>
    cases otherNested with
    | none => cases (List.cons.inj same).1
    | some otherTree =>
      rw [scopeEnd, scopeEnd, List.cons_append, List.cons_append, List.append_assoc,
        List.append_assoc, List.singleton_append, List.singleton_append] at same
      obtain ⟨sameTree, sameRest⟩ := trees tree otherTree rfl rfl _ _ (.inr ⟨rest, rfl⟩)
        (.inr ⟨other, rfl⟩) (List.cons.inj same).2
      exact ⟨congrArg some sameTree, (List.cons.inj sameRest).2⟩

theorem ends_scopeEnd (nested : Option RelationTree) (rest : List Char) :
    Json.Ends (scopeEnd nested ++ rest) := by
  cases nested <;> exact Text.stops_cons (by decide)

/-- A scope is determined when its parts are. -/
theorem scopeOutline_unique (named : ∀ tree, nested = some tree → tree.Named)
    (otherNamed : ∀ tree, otherNested = some tree → tree.Named)
    (queries : ∀ first second, query = some first → otherQuery = some second →
      Json.NumbersApart first.toJson second.toJson)
    (trees : ∀ tree otherTree, nested = some tree → otherNested = some otherTree →
      Json.Determines EndsList RelationTree.outline RelationTree.trimmedJson tree otherTree)
    (ends : EndsNode rest) (otherEnds : EndsNode other)
    (same : scopeOutline query nested ++ rest = scopeOutline otherQuery otherNested ++ other) :
    query.map Query.toJson = otherQuery.map Query.toJson ∧
      nested.map RelationTree.trimmedJson = otherNested.map RelationTree.trimmedJson ∧
      rest = other := by
  have sameOpening : Opening.ofParts query nested = Opening.ofParts otherQuery otherNested := by
    rw [← opening_scopeOutline named ends, same, opening_scopeOutline otherNamed otherEnds]
  cases query with
  | some query =>
    cases otherQuery with
    | none => cases otherNested <;> cases sameOpening
    | some otherQuery =>
      rw [scopeOutline_query, scopeOutline_query, List.cons_append, List.cons_append,
        List.append_assoc, List.append_assoc] at same
      obtain ⟨sameQuery, others⟩ := Json.determines_write (queries query otherQuery rfl rfl) _ _
        (ends_scopeEnd nested rest) (ends_scopeEnd otherNested other) (List.cons.inj same).2
      exact ⟨congrArg some sameQuery, scopeEnd_unique trees others⟩
  | none =>
    cases otherQuery with
    | some otherQuery => cases nested <;> cases sameOpening
    | none =>
      refine ⟨rfl, ?_⟩
      cases nested with
      | none =>
        cases otherNested with
        | none => exact ⟨rfl, same⟩
        | some otherTree => cases sameOpening
      | some tree =>
        cases otherNested with
        | none => cases sameOpening
        | some otherTree =>
          -- Behind the brace stands what would stand behind a query and its comma.
          rw [scopeOutline_nested, scopeOutline_nested] at same
          exact scopeEnd_unique trees (congrArg (List.cons ',') (List.cons.inj same).2)

end Scopes

/-! ### Relations and trees -/

theorem Relation.outline_eq_scope (relation : Relation) :
    relation.outline = relation.name.toList ++ scopeOutline relation.query? relation.nested? :=
  RelationTree.outline_eq_enclosed relation

/-- The outline of a relation determines its member, once it is trimmed, when the outlines of nested
relations do. -/
theorem Relation.determines_outline {first second : Relation}
    (isName : IsName first.name) (otherIsName : IsName second.name)
    (named : ∀ tree, first.nested? = some tree → RelationTree.Named tree)
    (otherNamed : ∀ tree, second.nested? = some tree → RelationTree.Named tree)
    (queries : ∀ query otherQuery, first.query? = some query → second.query? = some otherQuery →
      Json.NumbersApart query.toJson otherQuery.toJson)
    (trees : ∀ tree otherTree, first.nested? = some tree → second.nested? = some otherTree →
      Json.Determines EndsList RelationTree.outline RelationTree.trimmedJson tree otherTree) :
    Json.Determines EndsNode Relation.outline Relation.trimmedMember first second := by
  intro rest other ends otherEnds same
  rw [outline_eq_scope, outline_eq_scope, List.append_assoc, List.append_assoc] at same
  obtain ⟨sameName, others⟩ := Text.run_unique isName.unreserved otherIsName.unreserved
    (endsName_scopeOutline ends) (endsName_scopeOutline otherEnds) same
  obtain ⟨sameQuery, sameNested, sameRest⟩ := scopeOutline_unique named otherNamed queries trees
    ends otherEnds others
  refine ⟨?_, sameRest⟩
  rw [trimmedMember_eq, trimmedMember_eq, String.toList_injective sameName, queryJson, sameQuery,
    nestedJson, sameNested]
  rfl

namespace RelationTree

variable {first second : RelationTree}

theorem named_of_checkWithin {levels : Nat} {tree : RelationTree}
    (sendable : checkWithin levels tree = .ok ()) : tree.Named := by
  cases levels with
  | zero => cases sendable
  | succ levels =>
    exact fun relation member =>
      isName_of_checkName (checkWithin_succ.mp sendable relation member).1

/-- The numbers in the scopes of two relations are apart when those of their trees are. -/
theorem numbersApart_relation (apart : Json.NumbersApart first.toJson second.toJson)
    {relation other : Relation} (member : relation ∈ first) (otherMember : other ∈ second) :
    Json.NumbersApart relation.toJson other.toJson := by
  rw [toJson, toJson, toMembers_eq_map, toMembers_eq_map] at apart
  exact apart.parts
    (fun _ inside => Json.mem_numbers_object.mpr ⟨_, List.mem_map_of_mem member, inside⟩)
    fun _ inside => Json.mem_numbers_object.mpr ⟨_, List.mem_map_of_mem otherMember, inside⟩

/-- The outline of a tree that passes the check determines its document, once it is trimmed. -/
theorem determines_outline {levels : Nat} (sendable : checkWithin levels first = .ok ())
    (otherSendable : checkWithin levels second = .ok ())
    (apart : Json.NumbersApart first.toJson second.toJson) :
    Json.Determines EndsList outline trimmedJson first second := by
  -- Of what the check says only names and levels matter: the texts of queries need no condition.
  induction levels generalizing first second with
  | zero => cases sendable
  | succ levels inductionHypothesis =>
    have named := named_of_checkWithin sendable
    have otherNamed := named_of_checkWithin otherSendable
    rw [checkWithin_succ] at sendable otherSendable
    have each : ∀ relation ∈ first, ∀ other ∈ second,
        Json.Determines EndsNode Relation.outline Relation.trimmedMember relation other := by
      intro relation member other otherMember
      have apartInside := numbersApart_relation apart member otherMember
      obtain ⟨_, _, nested⟩ := sendable relation member
      obtain ⟨_, _, otherNested⟩ := otherSendable other otherMember
      refine Relation.determines_outline (named relation member) (otherNamed other otherMember)
        (fun tree given => named_of_checkWithin (nested tree given))
        (fun tree given => named_of_checkWithin (otherNested tree given)) ?_ ?_
      · intro query otherQuery given otherGiven
        exact apartInside.parts
          (fun _ inside => mem_numbers_relation (.inl ⟨query, given, inside⟩))
          fun _ inside => mem_numbers_relation (.inl ⟨otherQuery, otherGiven, inside⟩)
      · intro tree otherTree given otherGiven
        refine inductionHypothesis (nested tree given) (otherNested otherTree otherGiven) ?_
        exact apartInside.parts
          (fun _ inside => mem_numbers_relation (.inr ⟨tree, given, inside⟩))
          fun _ inside => mem_numbers_relation (.inr ⟨otherTree, otherGiven, inside⟩)
    have unclosed : ∀ relation, relation ∈ first ∨ relation ∈ second →
        ∀ rest, ¬EndsList (relation.outline ++ rest) := by
      rintro relation (member | otherMember)
      · exact relation.outline_unclosed (named relation member)
      · exact relation.outline_unclosed (otherNamed relation otherMember)
    intro rest other ends otherEnds same
    rw [outline_eq_listed, outline_eq_listed] at same
    obtain ⟨sameMembers, sameRest⟩ :=
      separates_ends.determines_listed unclosed each rest other ends otherEnds same
    refine ⟨?_, sameRest⟩
    rw [trimmedJson_eq, trimmedJson_eq, sameMembers]

end RelationTree

end ListQuery
