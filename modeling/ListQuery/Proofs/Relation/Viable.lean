/-
This file proves that a fault lies where an outline stops being the start of any good
one. What the parser has gone past when it stops can always be completed to a text
that the grammar derives, whatever braces are open, because a name, a query without
parts and closing braces are all that is ever missing. The one other reason to stop
is a tree under too many braces, and the texts with such a tree are described without
the parser.
-/

import ListQuery.Proofs.Relation.Bytes
import ListQuery.Proofs.Relation.Grammar

namespace ListQuery

namespace Outline

/-! ### Texts that can be completed -/

/-- The start of a text that is derived. -/
def Viable {Value : Type} (derives : List Char → Value → Prop) (start : List Char) : Prop :=
  ∃ more value, derives (start ++ more) value

/-- What a scope is derived to denote, as one value. -/
def DerivesParts (depth : Nat) (text : List Char) (parts : Option Query × Option RelationTree) :
    Prop :=
  DerivesScope depth text parts.1 parts.2

theorem viable_of_derives {Value : Type} {derives : List Char → Value → Prop} {text : List Char}
    {value : Value} (derived : derives text value) : Viable derives text :=
  ⟨[], value, (List.append_nil text).symm ▸ derived⟩

section Completions

variable {depth : Nat} {text object start : List Char} {relation : Relation} {query : Query}
  {name : String}

theorem isName_letter : IsName "x" :=
  ⟨List.cons_ne_nil _ _, List.forall_mem_singleton.mpr rfl⟩

theorem isQueryText_empty : IsQueryText ['\x7b', '\x7d'] {} := by
  refine ⟨rfl, ?_, rfl⟩
  rintro _ ⟨⟩
  rfl

/-- Where a relation is due, a name completes the text. -/
theorem viable_node : Viable (DerivesNode depth) [] :=
  ⟨_, _, .plain isName_letter⟩

/-- Where a scope is due, a query without parts completes the text, at any depth. -/
theorem viable_scope : Viable (DerivesParts depth) [] :=
  ⟨_, (_, _), .query isQueryText_empty⟩

theorem viable_refined (isName : IsName name) (viable : Viable (DerivesParts depth) start) :
    Viable (DerivesNode depth) (name.toList ++ '\x7b' :: start) := by
  obtain ⟨more, ⟨query, nested⟩, inside⟩ := viable
  refine ⟨more ++ ['\x7d'], .refined name query nested, ?_⟩
  rw [List.append_assoc, List.cons_append, ← List.append_assoc start]
  exact .refined isName inside

theorem viable_query (isQuery : IsQueryText object query) :
    Viable (DerivesParts depth) object := by
  have parts : DerivesParts depth object (some query, none) := .query isQuery
  exact viable_of_derives parts

theorem viable_nested (viable : Viable (DerivesList (depth + 1)) start) :
    Viable (DerivesParts depth) start := by
  obtain ⟨more, tree, list⟩ := viable
  exact ⟨more, (none, some tree), .nested list⟩

theorem viable_behind (isQuery : IsQueryText object query)
    (viable : Viable (DerivesList (depth + 1)) start) :
    Viable (DerivesParts depth) (object ++ ',' :: start) := by
  obtain ⟨more, tree, list⟩ := viable
  refine ⟨more, (some query, some tree), ?_⟩
  rw [List.append_assoc, List.cons_append]
  exact .both isQuery list

theorem viable_last (viable : Viable (DerivesNode depth) start) :
    Viable (DerivesSeries depth) start := by
  obtain ⟨more, relation, node⟩ := viable
  exact ⟨more, [relation], .last node⟩

theorem viable_more (node : DerivesNode depth text relation)
    (viable : Viable (DerivesSeries depth) start) :
    Viable (DerivesSeries depth) (text ++ ',' :: start) := by
  obtain ⟨more, relations, series⟩ := viable
  refine ⟨more, relation :: relations, ?_⟩
  rw [List.append_assoc, List.cons_append]
  exact .more node series

theorem viable_series (within : depth ≤ maxNesting) (viable : Viable (DerivesSeries depth) start) :
    Viable (DerivesList depth) start := by
  obtain ⟨more, relations, series⟩ := viable
  exact ⟨more, _, .series within series⟩

end Completions

/-! ### Texts that nest too deep -/

mutual

/-- The texts of relations at a depth that lead to relations under too many braces. Up to these the
text is one that is derived, and what follows is of no account. -/
inductive Exceeds : Nat → List Char → Prop
  | beyond {depth : Nat} {text : List Char} (beyond : maxNesting < depth) : Exceeds depth text
  | later {depth : Nat} {text others : List Char} {relation : Relation}
      (node : DerivesNode depth text relation) (exceeds : Exceeds depth others) :
      Exceeds depth (text ++ ',' :: others)
  | refined {depth : Nat} {name : String} {scope : List Char} (isName : IsName name)
      (inside : ExceedsScope depth scope) : Exceeds depth (name.toList ++ '\x7b' :: scope)

/-- The texts of a scope whose nested relations, by themselves or behind a query, lead to relations
under too many braces. -/
inductive ExceedsScope : Nat → List Char → Prop
  | nested {depth : Nat} {text : List Char} (noBrace : ∀ inner, text ≠ '\x7b' :: inner)
      (exceeds : Exceeds (depth + 1) text) : ExceedsScope depth text
  | both {depth : Nat} {text others : List Char} {query : Query} (isQuery : IsQueryText text query)
      (exceeds : Exceeds (depth + 1) others) : ExceedsScope depth (text ++ ',' :: others)

end

/-! ### Where reading stops -/

/-- Why reading a text stops: at a fault behind the start of a text that is derived, or because the
text nests too deep. -/
inductive Stopped {Value : Type} (derives : List Char → Value → Prop) (exceeds : List Char → Prop)
    (text : List Char) : Stop → Prop
  | before {passed left : List Char} {fault : OutlineFault} (parts : text = passed ++ left)
      (viable : Viable derives passed) : Stopped derives exceeds text (.before left fault)
  | tooDeep (exceeding : exceeds text) : Stopped derives exceeds text .tooDeep

section Parts

variable {Value Other : Type} {derives : List Char → Value → Prop}
  {derivesOther : List Char → Other → Prop} {exceeds exceedsOther : List Char → Prop}
  {text : List Char} {stop : Stop}

theorem Stopped.imp (stopped : Stopped derives exceeds text stop)
    (completed : ∀ start, Viable derives start → Viable derivesOther start)
    (exceeded : exceeds text → exceedsOther text) :
    Stopped derivesOther exceedsOther text stop := by
  cases stopped with
  | before parts viable => exact .before parts (completed _ viable)
  | tooDeep exceeding => exact .tooDeep (exceeded exceeding)

/-- Reading stops in a text as it does in the part of the text behind some character. -/
theorem Stopped.behind {front : List Char} {mark : Char}
    (stopped : Stopped derives exceeds text stop)
    (completed : ∀ start, Viable derives start → Viable derivesOther (front ++ mark :: start))
    (exceeded : exceeds text → exceedsOther (front ++ mark :: text)) :
    Stopped derivesOther exceedsOther (front ++ mark :: text) stop := by
  cases stopped with
  | before parts viable =>
    exact .before (by rw [parts, List.append_assoc, List.cons_append]) (completed _ viable)
  | tooDeep exceeding => exact .tooDeep (exceeded exceeding)

end Parts

section Reading

variable {depth : Nat} {text : List Char} {stop : Stop}
  {nested : List Char → Except Stop (RelationTree × List Char)}

theorem stopped_readQuery (failed : readQuery text = .error stop) :
    ∃ fault, stop = .before text fault := by
  unfold readQuery at failed
  split at failed
  · cases failed
    exact ⟨_, rfl⟩
  split at failed
  · cases failed
  · cases failed
    exact ⟨_, rfl⟩

theorem stopped_readScope
    (each : ∀ {text stop}, nested text = .error stop →
      Stopped (DerivesList (depth + 1)) (Exceeds (depth + 1)) text stop)
    (failed : readScope nested text = .error stop) :
    Stopped (DerivesParts depth) (ExceedsScope depth) text stop := by
  unfold readScope at failed
  split at failed
  · rcases Traversal.bind_eq_error.mp failed with queryFailed | ⟨⟨query, rest⟩, read, failed⟩
    · obtain ⟨fault, rfl⟩ := stopped_readQuery queryFailed
      exact .before rfl viable_scope
    obtain ⟨object, parts, isQuery⟩ := exists_of_readQuery rfl read
    rw [parts]
    simp only at failed
    split at failed
    · exact (each (Traversal.bind_pure_eq_error.mp failed)).behind
        (fun _ => viable_behind isQuery) (.both isQuery)
    · cases failed
    · cases failed
      exact .before rfl (viable_query isQuery)
  · rename_i noBrace
    exact (each (Traversal.bind_pure_eq_error.mp failed)).imp (fun _ => viable_nested)
      (.nested noBrace)

theorem stopped_readRelation
    (sound : ∀ {text tree rest}, nested text = .ok (tree, rest) →
      ∃ taken, text = taken ++ rest ∧ DerivesList (depth + 1) taken tree)
    (each : ∀ {text stop}, nested text = .error stop →
      Stopped (DerivesList (depth + 1)) (Exceeds (depth + 1)) text stop)
    (failed : readRelation nested text = .error stop) :
    Stopped (DerivesNode depth) (Exceeds depth) text stop := by
  by_cases nameless : (text.takeWhile fun char => !isReserved char) = []
  · unfold readRelation at failed
    rw [nameless] at failed
    cases failed
    exact .before rfl viable_node
  obtain ⟨name, after, rfl, isName, ends⟩ := exists_name nameless
  by_cases braced : ∃ inner, after = '\x7b' :: inner
  · obtain ⟨inner, rfl⟩ := braced
    rw [readRelation_refined isName] at failed
    rcases Traversal.bind_eq_error.mp failed with
      scopeFailed | ⟨⟨⟨query, tree⟩, left⟩, scopeRead, unclosed⟩
    · exact (stopped_readScope each scopeFailed).behind (fun _ => viable_refined isName)
        (.refined isName)
    · obtain ⟨scope, rfl, inside⟩ := derivesScope_of_readScope sound scopeRead
      simp only at unclosed
      split at unclosed
      · cases unclosed
      · cases unclosed
        have parts : DerivesParts depth scope (query, tree) := inside
        exact .before (by rw [List.append_assoc, List.cons_append])
          (viable_refined isName (viable_of_derives parts))
  · rw [readRelation_plain isName ends (not_exists.mp braced)] at failed
    cases failed

theorem stopped_readRelations {relation : List Char → Except Stop (Relation × List Char)}
    (sound : ∀ {text node rest}, relation text = .ok (node, rest) →
      ∃ taken, text = taken ++ rest ∧ DerivesNode depth taken node)
    (each : ∀ {text stop}, relation text = .error stop →
      Stopped (DerivesNode depth) (Exceeds depth) text stop)
    {bound : Nat} {tree : RelationTree}
    (failed : readRelations relation bound tree text = .error stop) :
    Stopped (DerivesSeries depth) (Exceeds depth) text stop := by
  induction bound generalizing tree text with
  | zero =>
    cases failed
    exact .before rfl (viable_last viable_node)
  | succ bound inductionHypothesis =>
    rcases Traversal.bind_eq_error.mp failed with nodeFailed | ⟨⟨node, left⟩, nodeRead, goesOn⟩
    · exact (each nodeFailed).imp (fun _ => viable_last) id
    obtain ⟨taken, rfl, isNode⟩ := sound nodeRead
    simp only at goesOn
    split at goesOn
    · cases goesOn
    rename_i char more
    split at goesOn
    · rename_i isComma
      subst isComma
      exact (inductionHypothesis goesOn).behind (fun _ => viable_more isNode) (.later isNode)
    split at goesOn
    · cases goesOn
    · cases goesOn
      exact .before rfl (viable_of_derives (.last isNode))

/-- Reading a tree stops behind the start of relations that are derived, or where a tree lies under
too many braces. -/
theorem stopped_readTree {levels : Nat} (room : depth + levels = maxNesting + 1)
    (failed : readTree levels text = .error stop) :
    Stopped (DerivesList depth) (Exceeds depth) text stop := by
  induction levels generalizing depth text stop with
  | zero =>
    cases failed
    exact .tooDeep (.beyond (by omega))
  | succ levels inductionHypothesis =>
    have within : depth ≤ maxNesting := by omega
    have deeper : depth + 1 + levels = maxNesting + 1 := by omega
    unfold readTree at failed
    split at failed
    · cases failed
    split at failed
    · cases failed
    · have stopped := stopped_readRelations
        (fun read => derivesNode_of_readRelation (derivesList_of_readTree deeper) read)
        (fun stops => stopped_readRelation (derivesList_of_readTree deeper)
          (inductionHypothesis deeper) stops) failed
      exact stopped.imp (fun _ => viable_series within) id

end Reading

/-! ### What nests too deep is refused -/

/-- A text that exceeds the limit at a depth within it starts with a name. -/
theorem Exceeds.starts {depth : Nat} {text : List Char} (exceeds : Exceeds depth text)
    (within : depth ≤ maxNesting) :
    ∃ char more, text = char :: more ∧ isReserved char = false := by
  cases exceeds with
  | beyond beyond => exact absurd within (Nat.not_le.mpr beyond)
  | later node others =>
    obtain ⟨char, more, rfl, free⟩ := node.starts
    exact ⟨char, _, rfl, free⟩
  | @refined _ name scope isName inside =>
    have named : DerivesNode 0 name.toList (.plain name) := .plain isName
    obtain ⟨char, more, same, free⟩ := named.starts
    exact ⟨char, more ++ '\x7b' :: scope, by rw [same, List.cons_append], free⟩

/-- Relations are read as a tree when they start with a name. -/
theorem readTree_starts {levels : Nat} {text : List Char} {char : Char} {more : List Char}
    (starts : text = char :: more) (free : isReserved char = false) :
    readTree (levels + 1) text =
      readRelations (readRelation (readTree levels)) text.length .empty text := by
  have noBrace : char ≠ '\x7d' := by
    rintro rfl
    cases free
  subst starts
  rw [readTree]
  simp only [if_neg noBrace]

/-- A tree nests too deep when the relations in it do. -/
theorem Exceeds.readTree_of {depth : Nat} {text : List Char} (exceeds : Exceeds depth text)
    (each : ∀ (levels bound : Nat) (tree : RelationTree), depth + levels = maxNesting →
      text.length ≤ bound →
      readRelations (readRelation (readTree levels)) bound tree text = .error .tooDeep)
    {levels : Nat} (room : depth + levels = maxNesting + 1) :
    readTree levels text = .error .tooDeep := by
  cases levels with
  | zero => rfl
  | succ levels =>
    obtain ⟨char, more, starts, free⟩ := exceeds.starts (by omega)
    rw [readTree_starts starts free]
    exact each levels text.length .empty (by omega) (Nat.le_refl _)

mutual

/-- Relations that lead to relations under too many braces are refused for it. -/
theorem Exceeds.readRelations {depth : Nat} {text : List Char} :
    Exceeds depth text → ∀ (levels bound : Nat) (tree : RelationTree),
      depth + levels = maxNesting → text.length ≤ bound →
      readRelations (readRelation (readTree levels)) bound tree text = .error .tooDeep
  | .beyond beyond => by
    intro levels bound tree room enough
    omega
  | @Exceeds.later _ text others relation node exceeds => by
    intro levels bound tree room enough
    rw [List.length_append, List.length_cons] at enough
    obtain ⟨less, rfl⟩ : ∃ less, bound = less + 1 := ⟨bound - 1, by omega⟩
    have read := node.read levels (',' :: others) room (.inr ⟨others, rfl⟩)
    have deep := exceeds.readRelations levels less (tree.put relation) room (by omega)
    exact Traversal.bind_eq_error.mpr (.inr ⟨_, read, deep⟩)
  | @Exceeds.refined _ name scope isName inside => by
    intro levels bound tree room enough
    rw [List.length_append, List.length_cons] at enough
    obtain ⟨less, rfl⟩ : ∃ less, bound = less + 1 := ⟨bound - 1, by omega⟩
    have deep : readRelation (readTree levels) (name.toList ++ '\x7b' :: scope) =
        .error .tooDeep := by
      rw [readRelation_refined isName]
      exact Traversal.bind_eq_error.mpr (.inl (inside.readScope levels room))
    exact Traversal.bind_eq_error.mpr (.inl deep)

/-- A scope that leads to relations under too many braces is refused for it. -/
theorem ExceedsScope.readScope {depth : Nat} {text : List Char} :
    ExceedsScope depth text → ∀ levels : Nat, depth + levels = maxNesting →
      readScope (readTree levels) text = .error .tooDeep
  | .nested noBrace exceeds => by
    intro levels room
    have deep := exceeds.readTree_of exceeds.readRelations
      (show depth + 1 + levels = maxNesting + 1 by omega)
    rw [readScope_list noBrace]
    exact Traversal.bind_pure_eq_error.mpr deep
  | .both isQuery exceeds => by
    intro levels room
    have deep := exceeds.readTree_of exceeds.readRelations
      (show depth + 1 + levels = maxNesting + 1 by omega)
    rw [readScope_query isQuery]
    exact Traversal.bind_pure_eq_error.mpr deep

end

/-! ### Whole outlines -/

theorem stopped_parse {text : List Char} {stop : Stop} (failed : parse text = .error stop) :
    Stopped (DerivesList 0) (Exceeds 0) text stop := by
  unfold parse at failed
  split at failed
  · cases failed
  · rename_i tree left _ read
    cases failed
    obtain ⟨taken, rfl, list⟩ := derivesList_of_readTree (Nat.zero_add _) read
    exact .before rfl (viable_of_derives list)
  · rename_i stops
    cases failed
    exact stopped_readTree (Nat.zero_add _) stops

/-- A text is refused for its depth exactly when it leads to relations under too many braces. -/
theorem parse_tooDeep_iff {text : List Char} : parse text = .error .tooDeep ↔ Exceeds 0 text := by
  constructor
  · intro failed
    cases stopped_parse failed with
    | tooDeep exceeds => exact exceeds
  · intro exceeds
    unfold parse
    rw [exceeds.readTree_of exceeds.readRelations (Nat.zero_add _)]

/-- A position at which an outline can be cut off and completed to one that is accepted. -/
structure CompletableAt (outline : String) (position : Nat) : Prop where
  boundary : Boundary outline position
  completed : ∃ (start left more : String) (tree : RelationTree), outline = start ++ left ∧
    start.utf8ByteSize = position ∧ RelationTree.ofOutline (start ++ more) = .ok tree

theorem completableAt_of_viable {outline : String} {start left : List Char}
    (parts : outline.toList = start ++ left) (viable : Viable (DerivesList 0) start) :
    CompletableAt outline (byteCount start) := by
  have stands : StandsBefore outline (byteCount start) left := ⟨start, parts, rfl⟩
  obtain ⟨more, tree, list⟩ := viable
  refine ⟨stands.boundary, String.ofList start, String.ofList left, String.ofList more, tree,
    eq_append_of_toList parts, utf8ByteSize_ofList start, ?_⟩
  refine Traversal.mapError_eq_ok.mpr (parse_iff_derivesList.mpr ?_)
  rwa [← String.ofList_append, String.toList_ofList]

/-- Every fault that has a position has it at the end of the start of an accepted outline. The only
fault without a position is that relations lie under too many braces, and it comes up exactly when
they do. -/
theorem ofOutline_faults (outline : String) :
    (∀ fault, RelationTree.ofOutline outline = .error fault →
      (∃ position reason, fault = .parse position reason ∧ CompletableAt outline position) ∨
        fault = .shape .treeTooDeep) ∧
      (RelationTree.ofOutline outline = .error (.shape .treeTooDeep) ↔
        Exceeds 0 outline.toList) := by
  constructor
  · intro fault failed
    obtain ⟨stop, stops, rfl⟩ := Traversal.mapError_eq_error.mp failed
    cases stopped_parse stops with
    | @before passed left reason parts viable =>
      refine .inl ⟨_, _, rfl, ?_⟩
      rw [parts, byteCount_append, Nat.add_sub_cancel_right]
      exact completableAt_of_viable parts viable
    | tooDeep exceeds => exact .inr rfl
  · rw [← parse_tooDeep_iff]
    constructor
    · intro failed
      obtain ⟨stop, stops, same⟩ := Traversal.mapError_eq_error.mp failed
      cases stop with
      | tooDeep => exact stops
      | before left fault => cases same
    · exact fun stops => Traversal.mapError_eq_error.mpr ⟨_, stops, rfl⟩

/-- Behind a comma inside of braces a name is due. -/
theorem ofOutline_faults_comma :
    RelationTree.ofOutline "é\x7bb,\x7d" = .error (.parse 5 .nameExpected) ∧
      CompletableAt "é\x7bb,\x7d" 5 := by
  have failed : RelationTree.ofOutline "é\x7bb,\x7d" = .error (.parse 5 .nameExpected) := rfl
  refine ⟨failed, ?_⟩
  have faults := (ofOutline_faults "é\x7bb,\x7d").1 _ failed
  rcases faults with ⟨position, reason, same, completable⟩ | deep
  · cases same
    exact completable
  · cases deep

end Outline

end ListQuery
