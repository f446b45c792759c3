/-
This file proves that the parser of outlines accepts exactly the texts of a grammar
and builds the tree that the derivation of the text denotes. The grammar knows
nothing of brackets that are counted: a query is whatever text decodes as one. That
the parser cuts a query out where it ends is what the scan of balanced texts gives,
and that it never takes a query for nested relations is decided by one character.
-/

import ListQuery.Proofs.Query.RoundTrip

namespace ListQuery

namespace Outline

/-! ### The grammar -/

/-- A name is not empty and holds none of the characters that end a name. -/
def IsName (name : String) : Prop :=
  name.toList ≠ [] ∧ ∀ char ∈ name.toList, isReserved char = false

/-- An object without blanks around it that decodes to a query. -/
structure IsQueryText (text : List Char) (query : Query) : Prop where
  opens : text.head? = some '\x7b'
  solid : ∀ last, text.getLast? = some last → Json.isBlank last = false
  decodes : Query.decoder.ofChars text = .ok query

mutual

/-- The texts of relations at a depth, which is at most the limit: nothing, or relations with commas
between them. A relation whose name comes again replaces the earlier one in place. -/
inductive DerivesList : Nat → List Char → RelationTree → Prop
  | empty {depth : Nat} (within : depth ≤ maxNesting) : DerivesList depth [] .empty
  | series {depth : Nat} {text : List Char} {relations : List Relation}
      (within : depth ≤ maxNesting) (series : DerivesSeries depth text relations) :
      DerivesList depth text (Keyed.ofList Relation.name relations)

/-- The texts of one or more relations with commas between them. -/
inductive DerivesSeries : Nat → List Char → List Relation → Prop
  | last {depth : Nat} {text : List Char} {relation : Relation}
      (node : DerivesNode depth text relation) : DerivesSeries depth text [relation]
  | more {depth : Nat} {text others : List Char} {relation : Relation} {relations : List Relation}
      (node : DerivesNode depth text relation) (series : DerivesSeries depth others relations) :
      DerivesSeries depth (text ++ ',' :: others) (relation :: relations)

/-- The texts of a relation: its name, and behind it the scope in braces, if there is one. -/
inductive DerivesNode : Nat → List Char → Relation → Prop
  | plain {depth : Nat} {name : String} (isName : IsName name) :
      DerivesNode depth name.toList (.plain name)
  | refined {depth : Nat} {name : String} {scope : List Char} {query : Option Query}
      {nested : Option RelationTree} (isName : IsName name)
      (inside : DerivesScope depth scope query nested) :
      DerivesNode depth (name.toList ++ '\x7b' :: (scope ++ ['\x7d'])) (.refined name query nested)

/-- The texts of a scope: relations one level deeper, a query, or both with a comma between them. -/
inductive DerivesScope : Nat → List Char → Option Query → Option RelationTree → Prop
  | nested {depth : Nat} {text : List Char} {tree : RelationTree}
      (list : DerivesList (depth + 1) text tree) : DerivesScope depth text none (some tree)
  | query {depth : Nat} {text : List Char} {query : Query} (isQuery : IsQueryText text query) :
      DerivesScope depth text (some query) none
  | both {depth : Nat} {text others : List Char} {query : Query} {tree : RelationTree}
      (isQuery : IsQueryText text query) (list : DerivesList (depth + 1) others tree) :
      DerivesScope depth (text ++ ',' :: others) (some query) (some tree)

end

/-! ### Queries -/

theorem all_isBlank_of_finish {text : List Char} (finished : Json.finish text = .ok ()) :
    text.all Json.isBlank = true := by
  unfold Json.finish at finished
  split at finished
  · assumption
  · cases finished

/-- A query is cut out of a text exactly where it ends. -/
theorem IsQueryText.splitBalanced {text : List Char} {query : Query}
    (isQuery : IsQueryText text query) (more : List Char) :
    splitBalanced ⟨.between, 0⟩ (text ++ more) = some (text, more) := by
  obtain ⟨opens, solid, decodes⟩ := isQuery
  obtain ⟨⟨value, rest⟩, read, finished⟩ := Traversal.bind_eq_ok.mp decodes
  obtain ⟨_, blank, _⟩ := Traversal.bind_eq_ok.mp finished
  obtain ⟨document, documentRead, _⟩ :=
    Json.Layout.exists_of_read Query.streaming_layout read
  obtain ⟨inner, rfl⟩ := List.head?_eq_some_iff.mp opens
  obtain ⟨object, parts, split⟩ := splitBalanced_of_read documentRead
  -- The reader leaves only blanks behind, and the text does not end in a blank.
  have nothingLeft : rest = [] := by
    rcases List.eq_nil_or_concat' rest with empty | ⟨front, last, ends⟩
    · exact empty
    · have isLast : ('\x7b' :: inner).getLast? = some last := by
        rw [parts, ends, ← List.append_assoc, List.getLast?_concat]
      have lastBlank := List.all_eq_true.mp (all_isBlank_of_finish blank) last
        (by rw [ends]; exact List.mem_append_right _ (List.mem_singleton_self last))
      rw [solid last isLast] at lastBlank
      cases lastBlank
  rw [nothingLeft, List.append_nil] at parts
  rw [parts]
  exact split more

theorem readQuery_of_isQueryText {text : List Char} {query : Query}
    (isQuery : IsQueryText text query) (more : List Char) :
    readQuery (text ++ more) = .ok (query, more) := by
  unfold readQuery
  rw [isQuery.splitBalanced more]
  simp only [isQuery.decodes]

theorem exists_of_readQuery {text rest : List Char} {query : Query}
    (opens : text.head? = some '\x7b') (read : readQuery text = .ok (query, rest)) :
    ∃ object, text = object ++ rest ∧ IsQueryText object query := by
  unfold readQuery at read
  split at read
  · cases read
  rename_i object left split
  split at read
  · rename_i decoded
    cases read
    obtain ⟨body, last, _, rfl, rfl, _, outside⟩ := run_of_splitBalanced split
    refine ⟨body ++ [last], rfl, ?_, ?_, decoded⟩
    · rwa [List.head?_append_of_ne_nil _ (by simp)] at opens
    · intro other isLast
      rw [List.getLast?_concat] at isLast
      cases isLast
      rcases closes_of_step outside with rfl | rfl <;> rfl
  · cases read

/-! ### What follows relations -/

/-- A text does not go on with a name, so that a name before it ends there. -/
def EndsName (text : List Char) : Prop :=
  Text.Stops (fun char => !isReserved char) text

/-- Relations end with the text, or before a closing brace. -/
def EndsList (text : List Char) : Prop :=
  text = [] ∨ ∃ more, text = '\x7d' :: more

/-- A relation ends where relations do, or before a comma. -/
def EndsNode (text : List Char) : Prop :=
  EndsList text ∨ ∃ more, text = ',' :: more

theorem EndsNode.endsName {text : List Char} (ends : EndsNode text) : EndsName text := by
  rcases ends with (rfl | ⟨more, rfl⟩) | ⟨more, rfl⟩
  · exact Text.stops_nil
  · exact Text.stops_cons (by decide)
  · exact Text.stops_cons (by decide)

theorem EndsNode.bare {text : List Char} (ends : EndsNode text) (inner : List Char) :
    text ≠ '\x7b' :: inner := by
  rcases ends with (rfl | ⟨more, rfl⟩) | ⟨more, rfl⟩ <;> exact nofun

/-! ### Names -/

section Names

variable {text : List Char} {nested : List Char → Except Stop (RelationTree × List Char)}

/-- A text starts with a name exactly when something stands before the first reserved character. -/
theorem exists_name (nonempty : (text.takeWhile fun char => !isReserved char) ≠ []) :
    ∃ name after, text = name.toList ++ after ∧ IsName name ∧ EndsName after := by
  refine ⟨String.ofList (text.takeWhile fun char => !isReserved char),
    text.dropWhile fun char => !isReserved char, ?_, ⟨?_, ?_⟩, ?_⟩
  · rw [String.toList_ofList, List.takeWhile_append_dropWhile]
  · rwa [String.toList_ofList]
  · intro char member
    rw [String.toList_ofList] at member
    have free := List.mem_takeWhile_imp member
    exact (Bool.not_eq_true' _).mp free
  · exact Text.stops_dropWhile text

variable {name : String} {after inner : List Char}

theorem IsName.unreserved (isName : IsName name) :
    ∀ char ∈ name.toList, (!isReserved char) = true :=
  fun char member => (Bool.not_eq_true' _).mpr (isName.2 char member)

theorem takeWhile_name (isName : IsName name) (ends : EndsName after) :
    ((name.toList ++ after).takeWhile fun char => !isReserved char) = name.toList :=
  Text.takeWhile_run isName.unreserved ends

theorem readRelation_plain (isName : IsName name) (ends : EndsName after)
    (bare : ∀ inner, after ≠ '\x7b' :: inner) :
    readRelation nested (name.toList ++ after) = .ok (.plain name, after) := by
  unfold readRelation
  rw [takeWhile_name isName ends]
  split
  · rename_i empty
    exact absurd empty isName.1
  · rw [List.drop_left, String.ofList_toList]
    simp only

theorem readRelation_refined (isName : IsName name) :
    readRelation nested (name.toList ++ '\x7b' :: inner) = (do
      let ((query, tree), rest) ← readScope nested inner
      match rest with
      | '\x7d' :: rest => return (.refined name query tree, rest)
      | _ => throw (.before rest (.unclosed name))) := by
  unfold readRelation
  rw [takeWhile_name isName (Text.stops_cons (by decide))]
  split
  · rename_i empty
    exact absurd empty isName.1
  · rw [List.drop_left, String.ofList_toList]
    rfl

end Names

/-! ### What the parser reads is derived -/

section Sound

variable {depth : Nat} {text rest : List Char}
  {nested : List Char → Except Stop (RelationTree × List Char)}

theorem derivesScope_of_readScope {query : Option Query} {tree : Option RelationTree}
    (each : ∀ {text tree rest}, nested text = .ok (tree, rest) →
      ∃ taken, text = taken ++ rest ∧ DerivesList (depth + 1) taken tree)
    (read : readScope nested text = .ok ((query, tree), rest)) :
    ∃ taken, text = taken ++ rest ∧ DerivesScope depth taken query tree := by
  unfold readScope at read
  split at read
  · obtain ⟨⟨found, afterQuery⟩, queryRead, read⟩ := Traversal.bind_eq_ok.mp read
    obtain ⟨object, parts, isQuery⟩ := exists_of_readQuery rfl queryRead
    simp only at read
    split at read
    · rename_i others
      obtain ⟨⟨list, left⟩, listRead, same⟩ := Traversal.bind_eq_ok.mp read
      cases same
      obtain ⟨taken, rfl, list⟩ := each listRead
      exact ⟨object ++ ',' :: taken, by rw [parts, List.append_assoc, List.cons_append],
        .both isQuery list⟩
    · cases read
      exact ⟨object, parts, .query isQuery⟩
    · cases read
  · obtain ⟨⟨list, left⟩, listRead, same⟩ := Traversal.bind_eq_ok.mp read
    cases same
    obtain ⟨taken, parts, list⟩ := each listRead
    exact ⟨taken, parts, .nested list⟩

theorem derivesNode_of_readRelation {relation : Relation}
    (each : ∀ {text tree rest}, nested text = .ok (tree, rest) →
      ∃ taken, text = taken ++ rest ∧ DerivesList (depth + 1) taken tree)
    (read : readRelation nested text = .ok (relation, rest)) :
    ∃ taken, text = taken ++ rest ∧ DerivesNode depth taken relation := by
  by_cases nameless : (text.takeWhile fun char => !isReserved char) = []
  · unfold readRelation at read
    rw [nameless] at read
    cases read
  obtain ⟨name, after, rfl, isName, ends⟩ := exists_name nameless
  by_cases braced : ∃ inner, after = '\x7b' :: inner
  · obtain ⟨inner, rfl⟩ := braced
    rw [readRelation_refined isName] at read
    obtain ⟨⟨⟨query, tree⟩, left⟩, scopeRead, closed⟩ := Traversal.bind_eq_ok.mp read
    obtain ⟨scope, rfl, inside⟩ := derivesScope_of_readScope each scopeRead
    simp only at closed
    split at closed
    · cases closed
      refine ⟨name.toList ++ '\x7b' :: (scope ++ ['\x7d']), ?_, .refined isName inside⟩
      rw [List.append_assoc, List.cons_append, List.append_assoc, List.singleton_append]
    · cases closed
  · rw [readRelation_plain isName ends (not_exists.mp braced)] at read
    cases read
    exact ⟨name.toList, rfl, .plain isName⟩

theorem derivesSeries_of_readRelations
    {relation : List Char → Except Stop (Relation × List Char)}
    (each : ∀ {text node rest}, relation text = .ok (node, rest) →
      ∃ taken, text = taken ++ rest ∧ DerivesNode depth taken node)
    {bound : Nat} {tree final : RelationTree}
    (read : readRelations relation bound tree text = .ok (final, rest)) :
    ∃ taken relations, text = taken ++ rest ∧ DerivesSeries depth taken relations ∧
      final = relations.foldl (fun built node => Keyed.put Relation.name node built) tree := by
  induction bound generalizing tree text with
  | zero => cases read
  | succ bound inductionHypothesis =>
    obtain ⟨⟨node, left⟩, nodeRead, goesOn⟩ := Traversal.bind_eq_ok.mp read
    obtain ⟨taken, rfl, isNode⟩ := each nodeRead
    simp only at goesOn
    split at goesOn
    · cases goesOn
      exact ⟨taken, [node], rfl, .last isNode, rfl⟩
    rename_i char more
    split at goesOn
    · rename_i isComma
      obtain ⟨others, relations, rfl, series, same⟩ := inductionHypothesis goesOn
      refine ⟨taken ++ ',' :: others, node :: relations, ?_, .more isNode series, same⟩
      rw [isComma, List.append_assoc, List.cons_append]
    split at goesOn
    · cases goesOn
      exact ⟨taken, [node], rfl, .last isNode, rfl⟩
    · cases goesOn

/-- Every tree that the parser reads is derived at the depth where it is read. -/
theorem derivesList_of_readTree {levels : Nat} (room : depth + levels = maxNesting + 1)
    {tree : RelationTree} (read : readTree levels text = .ok (tree, rest)) :
    ∃ taken, text = taken ++ rest ∧ DerivesList depth taken tree := by
  induction levels generalizing depth text tree rest with
  | zero => cases read
  | succ levels inductionHypothesis =>
    have within : depth ≤ maxNesting := by omega
    unfold readTree at read
    split at read
    · cases read
      exact ⟨[], rfl, .empty within⟩
    split at read
    · cases read
      exact ⟨[], rfl, .empty within⟩
    · have deeper : depth + 1 + levels = maxNesting + 1 := by omega
      obtain ⟨taken, relations, parts, series, same⟩ := derivesSeries_of_readRelations
        (fun nodeRead => derivesNode_of_readRelation (inductionHypothesis deeper) nodeRead) read
      exact ⟨taken, parts, same ▸ .series within series⟩

end Sound

/-! ### What is derived is read -/

/-- A derived relation starts with a character of its name. -/
theorem DerivesNode.starts {depth : Nat} {text : List Char} {relation : Relation}
    (node : DerivesNode depth text relation) :
    ∃ char more, text = char :: more ∧ isReserved char = false := by
  have first : ∀ {name : String} (rest : List Char), IsName name →
      ∃ char more, name.toList ++ rest = char :: more ∧ isReserved char = false := by
    intro name rest ⟨nonempty, free⟩
    obtain ⟨char, others, same⟩ := List.exists_cons_of_ne_nil nonempty
    exact ⟨char, others ++ rest, by rw [same, List.cons_append],
      free char (same ▸ List.mem_cons_self)⟩
  cases node with
  | plain isName =>
    have starts := first [] isName
    rwa [List.append_nil] at starts
  | refined isName inside => exact first _ isName

theorem DerivesSeries.starts {depth : Nat} {text : List Char} {relations : List Relation}
    (series : DerivesSeries depth text relations) :
    ∃ char more, text = char :: more ∧ isReserved char = false := by
  cases series with
  | last node => exact node.starts
  | more node others =>
    obtain ⟨char, more, rfl, free⟩ := node.starts
    exact ⟨char, _, rfl, free⟩

/-- Derived relations in braces do not start with a brace, so they are never taken for a query. -/
theorem DerivesList.noBrace {depth : Nat} {text rest : List Char} {tree : RelationTree}
    (list : DerivesList depth text tree) (inner : List Char) :
    text ++ '\x7d' :: rest ≠ '\x7b' :: inner := by
  cases list with
  | empty within => exact nofun
  | series within series =>
    obtain ⟨char, more, rfl, free⟩ := series.starts
    rintro ⟨⟩
    cases free

section Scopes

variable {nested : List Char → Except Stop (RelationTree × List Char)} {text : List Char}

theorem readScope_list (noBrace : ∀ inner, text ≠ '\x7b' :: inner) :
    readScope nested text = (do
      let (tree, rest) ← nested text
      return ((none, some tree), rest)) := by
  unfold readScope
  split
  · rename_i inner
    exact absurd rfl (noBrace inner)
  · rfl

theorem readScope_query {query : Query} (isQuery : IsQueryText text query) {rest : List Char} :
    readScope nested (text ++ rest) =
      match rest with
      | ',' :: rest => do
        let (tree, rest) ← nested rest
        return ((some query, some tree), rest)
      | '\x7d' :: _ => return ((some query, none), rest)
      | _ => throw (.before rest .queryEndExpected) := by
  have read := readQuery_of_isQueryText isQuery rest
  obtain ⟨inner, rfl⟩ := List.head?_eq_some_iff.mp isQuery.opens
  rw [List.cons_append] at read ⊢
  unfold readScope
  simp only [read]
  rfl

end Scopes

mutual

/-- Derived relations are read as the tree that they denote. -/
theorem DerivesList.read {depth : Nat} {text : List Char} {tree : RelationTree} :
    DerivesList depth text tree → ∀ (levels : Nat) (rest : List Char),
      depth + levels = maxNesting + 1 → EndsList rest →
      readTree levels (text ++ rest) = .ok (tree, rest)
  | .empty within => by
    intro levels rest room ends
    obtain ⟨less, rfl⟩ : ∃ less, levels = less + 1 := ⟨levels - 1, by omega⟩
    rcases ends with rfl | ⟨more, rfl⟩ <;> rfl
  | .series within series => by
    intro levels rest room ends
    obtain ⟨less, rfl⟩ : ∃ less, levels = less + 1 := ⟨levels - 1, by omega⟩
    obtain ⟨char, more, starts, free⟩ := series.starts
    have noBrace : char ≠ '\x7d' := by
      rintro rfl
      cases free
    have read := series.read less _ .empty rest (by omega) ends (Nat.le_refl _)
    rw [starts, List.cons_append] at read ⊢
    rw [readTree]
    simp only [if_neg noBrace]
    exact read

/-- Derived relations are read into the tree one after another. -/
theorem DerivesSeries.read {depth : Nat} {text : List Char} {relations : List Relation} :
    DerivesSeries depth text relations →
      ∀ (levels bound : Nat) (tree : RelationTree) (rest : List Char), depth + levels = maxNesting →
      EndsList rest → (text ++ rest).length ≤ bound →
      readRelations (readRelation (readTree levels)) bound tree (text ++ rest) =
        .ok (relations.foldl (fun built node => Keyed.put Relation.name node built) tree, rest)
  | .last node => by
    intro levels bound tree rest room ends enough
    obtain ⟨char, more, starts, _⟩ := node.starts
    obtain ⟨less, rfl⟩ : ∃ less, bound = less + 1 := by
      rw [starts, List.cons_append, List.length_cons] at enough
      exact ⟨bound - 1, by omega⟩
    have read := node.read levels rest room (Or.inl ends)
    refine Traversal.bind_eq_ok.mpr ⟨_, read, ?_⟩
    rcases ends with rfl | ⟨more, rfl⟩ <;> rfl
  | @DerivesSeries.more _ text others relation relations node series => by
    intro levels bound tree rest room ends enough
    -- The bound counts characters, and the comma alone makes the rest shorter than the whole.
    obtain ⟨less, rfl⟩ : ∃ less, bound = less + 1 := by
      rw [List.append_assoc, List.length_append, List.cons_append, List.length_cons] at enough
      exact ⟨bound - 1, by omega⟩
    have shorter : (others ++ rest).length ≤ less := by
      rw [List.append_assoc, List.length_append, List.cons_append, List.length_cons] at enough
      omega
    have read := node.read levels (',' :: (others ++ rest)) room (Or.inr ⟨_, rfl⟩)
    have othersRead := series.read levels less (tree.put relation) rest room ends shorter
    rw [List.append_assoc, List.cons_append]
    exact Traversal.bind_eq_ok.mpr ⟨_, read, othersRead⟩

/-- A derived relation is read where its name cannot go on. -/
theorem DerivesNode.read {depth : Nat} {text : List Char} {relation : Relation} :
    DerivesNode depth text relation → ∀ (levels : Nat) (rest : List Char),
      depth + levels = maxNesting → EndsNode rest →
      readRelation (readTree levels) (text ++ rest) = .ok (relation, rest)
  | .plain isName => fun _ _ _ ends => readRelation_plain isName ends.endsName ends.bare
  | .refined isName inside => by
    intro levels rest room ends
    rw [List.append_assoc, List.cons_append, List.append_assoc, List.singleton_append,
      readRelation_refined isName, inside.read levels rest room]
    rfl

/-- A derived scope is read before its closing brace. -/
theorem DerivesScope.read {depth : Nat} {text : List Char} {query : Option Query}
    {nested : Option RelationTree} :
    DerivesScope depth text query nested → ∀ (levels : Nat) (rest : List Char),
      depth + levels = maxNesting →
      readScope (readTree levels) (text ++ '\x7d' :: rest) = .ok ((query, nested), '\x7d' :: rest)
  | .nested list => by
    intro levels rest room
    have read := list.read levels ('\x7d' :: rest) (by omega) (Or.inr ⟨rest, rfl⟩)
    rw [readScope_list list.noBrace, read]
    rfl
  | .query isQuery => by
    intro levels rest room
    rw [readScope_query isQuery]
    rfl
  | .both isQuery list => by
    intro levels rest room
    have read := list.read levels ('\x7d' :: rest) (by omega) (Or.inr ⟨rest, rfl⟩)
    rw [List.append_assoc, List.cons_append, readScope_query isQuery]
    simp only [read]
    rfl

end

/-! ### Whole outlines -/

theorem parse_eq_ok {text : List Char} {tree : RelationTree} :
    parse text = .ok tree ↔ readTree (maxNesting + 1) text = .ok (tree, []) := by
  unfold parse
  split
  · rename_i found read
    rw [read]
    constructor
    · intro same
      cases same
      rfl
    · intro same
      cases same
      rfl
  · rename_i found left unread read
    rw [read]
    constructor
    · exact nofun
    · intro same
      cases same
      exact absurd rfl unread
  · rename_i stop read
    rw [read]
    exact ⟨nofun, nofun⟩

/-- A text is parsed to a tree exactly when the grammar derives the text and the derivation denotes
the tree. -/
theorem parse_iff_derivesList {text : List Char} {tree : RelationTree} :
    parse text = .ok tree ↔ DerivesList 0 text tree := by
  rw [parse_eq_ok]
  constructor
  · intro read
    obtain ⟨taken, rfl, list⟩ := derivesList_of_readTree (Nat.zero_add _) read
    rwa [List.append_nil]
  · intro list
    have read := list.read (maxNesting + 1) [] (Nat.zero_add _) (Or.inl rfl)
    rwa [List.append_nil] at read

/-- An outline is accepted exactly when the grammar derives it from the relations at the outermost
depth, and then the tree is the one that its derivation denotes. -/
theorem ofOutline_iff_derives {outline : String} {tree : RelationTree} :
    RelationTree.ofOutline outline = .ok tree ↔ DerivesList 0 outline.toList tree :=
  Traversal.mapError_eq_ok.trans parse_iff_derivesList

end Outline

end ListQuery
