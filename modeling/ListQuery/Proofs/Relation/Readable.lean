/-
This file proves how far a written outline is parsed again. An outline can be written
for any tree, however deep the tree is and whatever its queries hold, but the parser
has limits of its own: the levels of trees, and the containers that are open at once
in the text of a query. What it makes of an outline is told by the tree. Either the
outline is parsed as a whole, or parsing stops at a tree that lies too deep or at a
query that opens too much.
-/

import ListQuery.Proofs.Relation.Levels
import ListQuery.Proofs.Relation.Skeleton

namespace ListQuery

namespace Outline

/-! ### What reading comes to -/

section Outcomes

variable {Value Other : Type} {room more : Prop} {queries others : List Query} {value : Value}
  {final : Other} {rest left : List Char} {step : Except Stop (Value × List Char)}
  {next : Value × List Char → Except Stop (Other × List Char)}

/-- What reading a text may come to that was written for a value with some queries in it. The value
is read when there is room for it and its queries can be read, and else one of these is the reason
why reading stops. -/
inductive Outcome (room : Prop) (queries : List Query) (value : Value) (rest : List Char) :
    Except Stop (Value × List Char) → Prop
  | read (fits : room) (shallow : ∀ query ∈ queries, query.toJson.opened ≤ Json.maxOpen) :
      Outcome room queries value rest (.ok (value, rest))
  | tooDeep (unfit : ¬room) : Outcome room queries value rest (.error .tooDeep)
  | unreadable {query : Query} {left : List Char} {fault : Json.Fault} (held : query ∈ queries)
      (deep : Json.maxOpen < query.toJson.opened) :
      Outcome room queries value rest (.error (.before left (.invalidQuery fault)))

theorem Outcome.congr (sameRoom : room ↔ more) (sameQueries : queries = others)
    (outcome : Outcome room queries value rest step) : Outcome more others value rest step := by
  subst sameQueries
  cases outcome with
  | read fits shallow => exact .read (sameRoom.mp fits) shallow
  | tooDeep unfit => exact .tooDeep fun fits => unfit (sameRoom.mpr fits)
  | unreadable held deep => exact .unreadable held deep

/-- A step that always succeeds adds no reason to stop. -/
theorem Outcome.map (outcome : Outcome room queries value rest step)
    (goesOn : next (value, rest) = .ok (final, left)) :
    Outcome room queries final left (step >>= next) := by
  cases outcome with
  | read fits shallow =>
    show Outcome _ _ _ _ (next (value, rest))
    rw [goesOn]
    exact .read fits shallow
  | tooDeep unfit => exact .tooDeep unfit
  | unreadable held deep => exact .unreadable held deep

/-- Two steps in a row stop for the reasons of both. -/
theorem Outcome.bind (first : Outcome room queries value rest step)
    (second : Outcome more others final left (next (value, rest))) :
    Outcome (room ∧ more) (queries ++ others) final left (step >>= next) := by
  cases first with
  | tooDeep unfit => exact .tooDeep fun fits => unfit fits.1
  | unreadable held deep => exact .unreadable (List.mem_append_left _ held) deep
  | read fits shallow =>
    show Outcome _ _ _ _ (next (value, rest))
    generalize next (value, rest) = result at second ⊢
    cases second with
    | read moreFits moreShallow =>
      exact .read ⟨fits, moreFits⟩ (List.forall_mem_append.mpr ⟨shallow, moreShallow⟩)
    | tooDeep unfit => exact .tooDeep fun fits => unfit fits.2
    | unreadable held deep => exact .unreadable (List.mem_append_right _ held) deep

end Outcomes

end Outline

/-! ### Queries -/

/-- A query whose text is read back, if not too many containers are open in it. -/
structure Query.Written (query : Query) : Prop where
  wellFormed : query.WellFormed
  sendable : query.check = .ok ()
  numbers : ∀ number ∈ query.toJson.numbers, number.ReadsBack

namespace Query.Written

variable {query : Query}

/-- With enough containers allowed the text of a query holds a document, and it is one that the
settled query is decoded from. -/
theorem exists_document (written : query.Written) :
    ∃ depth document, Json.read depth query.toJson.write = .ok (document, []) ∧
      decoder.ofJson document = .ok query.settled := by
  have read := read_write written.wellFormed written.sendable written.numbers
    (Nat.le_succ query.toJson.opened) []
  rw [List.append_nil] at read
  obtain ⟨document, documentRead, decoded⟩ := Json.Layout.exists_of_read streaming_layout read
  exact ⟨_, document, documentRead, decoded⟩

/-- A query whose text is decoded opens no more containers than are allowed. -/
theorem opened_le_of_ofChars (written : query.Written) {other : Query}
    (decoded : decoder.ofChars query.toJson.write = .ok other) :
    query.toJson.opened ≤ Json.maxOpen := by
  obtain ⟨depth, document, documentRead, settledRead⟩ := written.exists_document
  obtain ⟨⟨found, rest⟩, read, _⟩ := Traversal.bind_eq_ok.mp decoded
  obtain ⟨sameDocument, sameRead, _⟩ := Json.Layout.exists_of_read streaming_layout read
  obtain ⟨wellFormed, shallow⟩ := Json.wellFormed_of_read sameRead
  -- Both readings are one when as many containers may be open as either allows.
  have same := (Json.read_mono (Nat.le_max_left depth Json.maxOpen) documentRead).symm.trans
    (Json.read_mono (Nat.le_max_right depth Json.maxOpen) sameRead)
  cases same
  have held : query.settled.ReadWithin 126 := readWithin_of_ofJson wellFormed shallow settledRead
  rw [← toJson_settled written.wellFormed]
  exact held.opened_toJson_le

end Query.Written

namespace Outline

variable {query : Query} {nested : List Char → Except Stop (RelationTree × List Char)}
  {room : Prop} {queries : List Query} {text rest : List Char}

theorem outcome_readQuery (written : query.Written) (more : List Char) :
    Outcome True [query] query.settled more (readQuery (query.toJson.write ++ more)) := by
  unfold readQuery
  rw [splitBalanced_query query more]
  simp only
  split
  · rename_i found decoded
    have shallow := written.opened_le_of_ofChars decoded
    have settled := Query.ofChars_write written.wellFormed written.sendable written.numbers shallow
    cases settled.symm.trans decoded
    exact .read trivial (List.forall_mem_singleton.mpr shallow)
  · rename_i fault failed
    refine .unreadable (List.mem_singleton_self query) (Nat.lt_of_not_le fun shallow => ?_)
    have settled := Query.ofChars_write written.wellFormed written.sendable written.numbers shallow
    cases settled.symm.trans failed

/-! ### Scopes -/

theorem readScope_write (query : Query) (rest : List Char) :
    readScope nested (query.toJson.write ++ rest) = (do
      let (query, rest) ← readQuery (query.toJson.write ++ rest)
      match rest with
      | ',' :: rest => do
        let (tree, rest) ← nested rest
        return ((some query, some tree), rest)
      | '\x7d' :: _ => return ((some query, none), rest)
      | _ => throw (.before rest .queryEndExpected)) :=
  rfl

/-- A scope in braces behind a name comes to what is in it. -/
theorem outcome_refined {name : String} {scope : List Char} {query : Option Query}
    {tree : Option RelationTree} (isName : IsName name)
    (inside : Outcome room queries (query, tree) ('\x7d' :: rest)
      (readScope nested (scope ++ '\x7d' :: rest))) :
    Outcome room queries (.refined name query tree) rest
      (readRelation nested (name.toList ++ '\x7b' :: (scope ++ ['\x7d']) ++ rest)) := by
  rw [List.append_assoc, List.cons_append, List.append_assoc, List.singleton_append,
    readRelation_refined isName]
  exact inside.map rfl

/-- What becomes of the parts of a scope, of which there is one at least, is told by them. -/
theorem outcome_readScope {room : RelationTree → Prop} {query : Option Query}
    {tree : Option RelationTree} {part : List Char} {parts : List (List Char)}
    (given : queryPart query ++ nestedPart tree = part :: parts)
    (written : ∀ present, query = some present → present.Written)
    (named : ∀ inner, tree = some inner → RelationTree.Named inner)
    (each : ∀ inner, tree = some inner →
      Outcome (room inner) (RelationTree.queries inner) (inner.trimmed Query.settled)
        ('\x7d' :: rest) (nested (RelationTree.outline inner ++ '\x7d' :: rest))) :
    Outcome (∀ inner, tree = some inner → room inner) (query.toList ++ nestedQueries tree)
      (query.map Query.settled, nestedTrimmed Query.settled tree) ('\x7d' :: rest)
      (readScope nested (separated (part :: parts) ++ '\x7d' :: rest)) := by
  have sameRoom : ∀ inner, room inner ↔ ∀ other, some inner = some other → room other := by
    simp only [Option.some.injEq, forall_eq', implies_true]
  cases query with
  | none =>
    cases tree with
    | none => cases given
    | some inner =>
      cases given
      show Outcome _ _ _ _ (readScope nested
        (separated [RelationTree.outline inner] ++ '\x7d' :: rest))
      rw [separated_singleton,
        readScope_list (RelationTree.outline_noBrace (named inner rfl) rest)]
      exact .congr (sameRoom inner) rfl ((each inner rfl).map rfl)
  | some present =>
    have read := outcome_readQuery (written present rfl)
    cases tree with
    | none =>
      cases given
      show Outcome _ _ _ _ (readScope nested
        (separated [present.toJson.write] ++ '\x7d' :: rest))
      rw [separated_singleton, readScope_write]
      exact .congr ⟨fun _ => nofun, fun _ => trivial⟩ rfl ((read ('\x7d' :: rest)).map rfl)
    | some inner =>
      cases given
      show Outcome _ _ _ _ (readScope nested
        (separated [present.toJson.write, RelationTree.outline inner] ++ '\x7d' :: rest))
      rw [separated_cons_cons, separated_singleton, List.append_assoc, List.cons_append,
        readScope_write]
      exact .congr ((iff_of_eq (true_and _)).trans (sameRoom inner)) rfl
        ((read _).bind ((each inner rfl).map rfl))

/-! ### Relations -/

/-- What becomes of the outline of a relation is told by its query and its nested relations. -/
theorem outcome_readRelation {relation : Relation} {room : RelationTree → Prop}
    (isName : IsName relation.name)
    (written : ∀ query, relation.query? = some query → query.Written)
    (named : ∀ inner, relation.nested? = some inner → RelationTree.Named inner)
    (each : ∀ inner, relation.nested? = some inner → ∀ rest, EndsList rest →
      Outcome (room inner) (RelationTree.queries inner) (inner.trimmed Query.settled) rest
        (nested (RelationTree.outline inner ++ rest)))
    (ends : EndsNode rest) :
    Outcome (∀ inner, relation.nested? = some inner → room inner) relation.queries
      (relation.trimmed Query.settled) rest (readRelation nested (relation.outline ++ rest)) := by
  have bare : ∀ name, IsName name →
      Outcome True [] (.plain name) rest (readRelation nested (name.toList ++ rest)) := by
    intro name isName
    rw [readRelation_plain isName ends.endsName ends.bare]
    exact .read trivial (List.forall_mem_nil _)
  have noRoom : ∀ {nested : Option RelationTree}, nested = none →
      (True ↔ ∀ inner, nested = some inner → room inner) := by
    rintro _ rfl
    exact ⟨fun _ inner given => absurd given.symm (Option.some_ne_none inner), fun _ => trivial⟩
  cases relation with
  | plain name => exact .congr (noRoom rfl) rfl (bare name isName)
  | refined name query tree =>
    cases given : queryPart query ++ nestedPart tree with
    | nil =>
      cases query with
      | some present => cases given
      | none =>
        cases tree with
        | some inner => cases given
        | none =>
          rw [show (Relation.refined name none none).outline = name.toList from List.append_nil _]
          exact .congr (noRoom rfl) rfl (bare name isName)
    | cons part parts =>
      have inside := outcome_refined isName (outcome_readScope given written named
        fun inner same => each inner same ('\x7d' :: rest) (.inr ⟨rest, rfl⟩))
      have trimmed : (Relation.refined name query tree).trimmed Query.settled =
          .refined name (query.map Query.settled) (nestedTrimmed Query.settled tree) := by
        cases query with
        | some present => rfl
        | none =>
          cases tree with
          | some inner => rfl
          | none => cases given
      rw [trimmed, Relation.outline, given]
      exact inside

/-- What becomes of the outlines of relations, with commas between them, is told by the
relations. -/
theorem outcome_readRelations {read : List Char → Except Stop (Relation × List Char)}
    {room : Relation → Prop} {relation : Relation} {relations : List Relation}
    (named : ∀ other ∈ relation :: relations, IsName other.name)
    (each : ∀ other ∈ relation :: relations, ∀ rest, EndsNode rest →
      Outcome (room other) other.queries (other.trimmed Query.settled) rest
        (read (other.outline ++ rest)))
    (ends : EndsList rest) {bound : Nat}
    (enough : (RelationTree.outline (relation :: relations) ++ rest).length ≤ bound)
    (tree : RelationTree) :
    Outcome (∀ other ∈ relation :: relations, room other)
      (RelationTree.queries (relation :: relations))
      ((RelationTree.trimmed Query.settled (relation :: relations)).foldl
        (fun built node => Keyed.put Relation.name node built) tree) rest
      (readRelations read bound tree (RelationTree.outline (relation :: relations) ++ rest)) := by
  induction relations generalizing relation bound tree with
  | nil =>
    obtain ⟨char, more, leads, _⟩ := starts_outline (named relation List.mem_cons_self) []
    obtain ⟨less, rfl⟩ : ∃ less, bound = less + 1 := by
      rw [leads, List.cons_append, List.length_cons] at enough
      exact ⟨bound - 1, by omega⟩
    have alone : RelationTree.outline [relation] = relation.outline := separated_singleton _
    rw [alone]
    have node := each relation List.mem_cons_self rest (.inl ends)
    refine .congr List.forall_mem_singleton.symm (List.append_nil _).symm (node.map ?_)
    rcases ends with rfl | ⟨more, rfl⟩ <;> rfl
  | cons next relations inductionHypothesis =>
    have parts : RelationTree.outline (relation :: next :: relations) =
        relation.outline ++ ',' :: RelationTree.outline (next :: relations) :=
      separated_cons_cons _ _ _
    rw [parts, List.append_assoc, List.cons_append] at enough ⊢
    -- The bound counts characters, and the comma alone makes the rest shorter than the whole.
    rw [List.length_append, List.length_cons] at enough
    obtain ⟨less, rfl⟩ : ∃ less, bound = less + 1 := ⟨bound - 1, by omega⟩
    have node := each relation List.mem_cons_self
      (',' :: (RelationTree.outline (next :: relations) ++ rest)) (.inr ⟨_, rfl⟩)
    have others := inductionHypothesis
      (fun other member => named other (List.mem_cons_of_mem _ member))
      (fun other member => each other (List.mem_cons_of_mem _ member))
      (show (RelationTree.outline (next :: relations) ++ rest).length ≤ less by omega)
      (tree.put (relation.trimmed Query.settled))
    exact .congr List.forall_mem_cons.symm rfl (node.bind others)

theorem named_of_names {tree : RelationTree}
    (names : ∀ name, tree.HasName name → ¬Unwritable name) : tree.Named :=
  fun relation member => isName_of_checkName (checkName_eq_ok.mpr
    (names _ (RelationTree.hasName_iff.mpr (.inl ⟨relation, member, rfl⟩))))

/-- What becomes of the outline of a tree is told by the tree. -/
theorem outcome_readTree {levels : Nat} {tree : RelationTree} (wellFormed : tree.WellFormed)
    (names : ∀ name, tree.HasName name → ¬Unwritable name)
    (written : ∀ query ∈ tree.queries, query.Written) (ends : EndsList rest) :
    Outcome (tree.Fits levels) tree.queries (tree.trimmed Query.settled) rest
      (readTree levels (tree.outline ++ rest)) := by
  induction levels generalizing tree rest with
  | zero => exact .tooDeep Levels.not_fits_zero
  | succ levels inductionHypothesis =>
    have each : ∀ relation ∈ tree, ∀ rest, EndsNode rest →
        Outcome (∀ inner, relation.nested? = some inner → RelationTree.Fits levels inner)
          relation.queries (relation.trimmed Query.settled) rest
          (readRelation (readTree levels) (relation.outline ++ rest)) := by
      intro relation member rest ends
      have innerNames : ∀ inner, relation.nested? = some inner →
          ∀ name, RelationTree.HasName inner name → ¬Unwritable name :=
        fun inner given name hasName => names name
          (RelationTree.hasName_iff.mpr (.inr ⟨inner, ⟨relation, member, given⟩, hasName⟩))
      refine outcome_readRelation (named_of_names names relation member) (fun query given => ?_)
        (fun inner given => named_of_names (innerNames inner given))
        (fun inner given rest ends => ?_) ends
      · exact written query (RelationTree.mem_queries.mpr ⟨relation, member, .inl given⟩)
      · refine inductionHypothesis (wellFormed.nested relation member inner given)
          (innerNames inner given) (fun query held => ?_) ends
        exact written query
          (RelationTree.mem_queries.mpr ⟨relation, member, .inr ⟨inner, given, held⟩⟩)
    cases tree with
    | nil =>
      have fits : RelationTree.Fits (levels + 1) [] := RelationTree.fits_succ.mpr nofun
      rcases ends with rfl | ⟨more, rfl⟩ <;> exact .read fits nofun
    | cons first others =>
      have series := outcome_readRelations (named_of_names names) each ends (Nat.le_refl _) .empty
      have distinct : Keyed.Distinct Relation.name
          (RelationTree.trimmed Query.settled (first :: others)) := by
        rw [Keyed.Distinct, RelationTree.map_name_trimmed]
        exact wellFormed.distinct
      have built : (RelationTree.trimmed Query.settled (first :: others)).foldl
          (fun built node => Keyed.put Relation.name node built) RelationTree.empty =
          RelationTree.trimmed Query.settled (first :: others) :=
        Keyed.ofList_of_distinct _ distinct
      obtain ⟨char, more, leads, free⟩ := starts_outline
        (named_of_names names first List.mem_cons_self) others
      have noBrace : char ≠ '\x7d' := by
        rintro rfl
        cases free
      rw [built] at series
      rw [leads, List.cons_append] at series ⊢
      rw [readTree]
      simp only [if_neg noBrace]
      exact .congr RelationTree.fits_succ.symm rfl series

/-! ### Whole outlines -/

/-- What becomes of the outline of a whole tree: it is parsed, or parsing stops at a tree that lies
too deep or at a query that opens too much. -/
theorem parse_outline {tree : RelationTree} (wellFormed : tree.WellFormed)
    (names : ∀ name, tree.HasName name → ¬Unwritable name)
    (written : ∀ query ∈ tree.queries, query.Written) :
    (tree.Fits (maxNesting + 1) ∧ (∀ query ∈ tree.queries, query.toJson.opened ≤ Json.maxOpen) ∧
      RelationTree.ofOutline (String.ofList tree.outline) = .ok (tree.trimmed Query.settled)) ∨
    (¬tree.Fits (maxNesting + 1) ∧
      RelationTree.ofOutline (String.ofList tree.outline) = .error (.shape .treeTooDeep)) ∨
    (∃ query ∈ tree.queries, Json.maxOpen < query.toJson.opened) ∧ ∃ position fault,
      RelationTree.ofOutline (String.ofList tree.outline) =
        .error (.parse position (.invalidQuery fault)) := by
  have outcome : Outcome (tree.Fits (maxNesting + 1)) tree.queries (tree.trimmed Query.settled) []
      (readTree (maxNesting + 1) (tree.outline ++ [])) :=
    outcome_readTree wellFormed names written (.inl rfl)
  rw [List.append_nil] at outcome
  unfold RelationTree.ofOutline parse
  rw [String.toList_ofList]
  generalize readTree (maxNesting + 1) tree.outline = result at outcome
  cases outcome with
  | read fits shallow => exact .inl ⟨fits, shallow, rfl⟩
  | tooDeep unfit => exact .inr (.inl ⟨unfit, rfl⟩)
  | unreadable held deep => exact .inr (.inr ⟨⟨_, held, deep⟩, _, _, rfl⟩)

end Outline

end ListQuery
