/-
This file proves that an outline keeps the shape of its tree. The skeleton of a tree
is what is left without its queries: the names, and which of them have relations
nested below. A written query is cut off an outline where it ends, whatever it holds
and whether or not it can be decoded again. So a tree that is parsed from the outline
of another one has its skeleton, even where a query came back as another query.
-/

import ListQuery.Proofs.Relation.Distinction

namespace ListQuery

/-! ### Skeletons -/

/-- The relations nested under a name, without a query. -/
def Relation.under (name : String) : Option RelationTree → Relation
  | none => .plain name
  | some tree => .refined name none (some tree)

mutual

/-- A relation without queries, and without the scope when it holds no nested relations. -/
def Relation.skeleton : Relation → Relation
  | .plain name => .plain name
  | .refined name _ nested => .under name (nestedSkeleton nested)
termination_by structural relation => relation

/-- A tree without queries, and without scopes that hold no nested relations. -/
def RelationTree.skeleton : RelationTree → RelationTree
  | [] => []
  | relation :: rest => relation.skeleton :: RelationTree.skeleton rest
termination_by structural tree => tree

/-- Nested relations without queries, if there are any. -/
def nestedSkeleton : Option RelationTree → Option RelationTree
  | none => none
  | some tree => some (RelationTree.skeleton tree)
termination_by structural nested => nested

end

theorem RelationTree.skeleton_eq_map (tree : RelationTree) :
    tree.skeleton = tree.map Relation.skeleton := by
  induction tree with
  | nil => rfl
  | cons relation rest inductionHypothesis =>
    rw [RelationTree.skeleton, inductionHypothesis, List.map_cons]

theorem Relation.name_skeleton (relation : Relation) : relation.skeleton.name = relation.name := by
  cases relation with
  | plain name => rfl
  | refined name query nested => cases nested <;> rfl

theorem Relation.map_name_skeleton (relations : List Relation) :
    (relations.map skeleton).map name = relations.map name := by
  rw [List.map_map]
  exact List.map_congr_left fun relation _ => relation.name_skeleton

namespace Outline

/-! ### Where a written query ends -/

theorem neutral_quoted (string : String) : Neutral (Quoted.write string) := by
  obtain ⟨taken, same, neutral⟩ := consumes_quoted (Quoted.read?_write string [])
  rw [List.append_nil] at same
  exact show Neutral ('"' :: _) from same.symm ▸ neutral

theorem neutral_number (number : Number) : Neutral number.text := by
  refine neutral_of_plain fun char member => ?_
  have inText := (Number.numeral_text number).inText char member
  refine ⟨?_, ?_, ?_⟩
  · rintro rfl
    cases inText
  · rintro (rfl | rfl) <;> cases inText
  · rintro (rfl | rfl) <;> cases inText

theorem neutral_listed {Value : Type} {write : Value → List Char} {values : List Value}
    (each : ∀ value ∈ values, Neutral (write value)) : Neutral (Json.listed write values) := by
  cases values with
  | nil => exact neutral_nil
  | cons value rest =>
    refine (each value List.mem_cons_self).append ?_
    have others : ∀ other ∈ rest, Neutral (',' :: write other) := fun other member =>
      (neutral_of_plain (List.forall_mem_singleton.mpr (by decide))).append
        (each other (List.mem_cons_of_mem _ member))
    clear each
    induction rest with
    | nil => exact neutral_nil
    | cons other rest inductionHypothesis =>
      obtain ⟨here, later⟩ := List.forall_mem_cons.mp others
      exact here.append (inductionHypothesis later)

theorem neutral_member {member : String × Json} (value : Neutral member.2.write) :
    Neutral (Json.writeMember member) :=
  (neutral_quoted member.1).append
    ((neutral_of_plain (List.forall_mem_singleton.mpr (by decide))).append value)

theorem neutral_word {word : List Char} (each : word.all (fun char => decide (Plain char)) = true) :
    Neutral word :=
  neutral_of_plain fun char member => of_decide_eq_true (List.all_eq_true.mp each char member)

mutual

/-- The text of a document leaves the scan as it was, whatever the document holds. -/
theorem neutral_write : ∀ document : Json, Neutral document.write
  | .null => neutral_word (by decide)
  | .boolean true => neutral_word (by decide)
  | .boolean false => neutral_word (by decide)
  | .number number => neutral_number number
  | .string string => neutral_quoted string
  | .array items => by
    rw [Json.write, Json.writeItems_eq_listed]
    exact (neutral_listed (neutral_items items)).bracketed (.inr rfl) (.inr rfl)
  | .object members => by
    rw [Json.write, Json.writeMembers_eq_listed]
    exact (neutral_listed (neutral_members members)).bracketed (.inl rfl) (.inl rfl)

theorem neutral_items : ∀ items : List Json, ∀ item ∈ items, Neutral item.write
  | [] => nofun
  | item :: rest => List.forall_mem_cons.mpr ⟨neutral_write item, neutral_items rest⟩

theorem neutral_members : ∀ members : List (String × Json), ∀ member ∈ members,
    Neutral (Json.writeMember member)
  | [] => nofun
  | (_, value) :: rest => List.forall_mem_cons.mpr
      ⟨neutral_member (neutral_write value), neutral_members rest⟩

end

/-- A written object at the start of a text is what the text is split behind. -/
theorem splitBalanced_write (members : List (String × Json)) (more : List Char) :
    splitBalanced ⟨.between, 0⟩ ((Json.object members).write ++ more) =
      some ((Json.object members).write, more) := by
  rw [Json.write, Json.writeMembers_eq_listed]
  exact splitBalanced_braced (neutral_listed (neutral_members members)) more

theorem splitBalanced_query (query : Query) (more : List Char) :
    splitBalanced ⟨.between, 0⟩ (query.toJson.write ++ more) = some (query.toJson.write, more) :=
  splitBalanced_write _ more

/-! ### What reading leaves -/

section Leaves

variable {Value Other : Type} {good : Value → Prop} {better : Other → Prop} {rest left : List Char}
  {step : Except Stop (Value × List Char)}
  {next : Value × List Char → Except Stop (Other × List Char)}

/-- Reading leaves a text behind a good value, if it comes to an end. -/
def Leaves (good : Value → Prop) (rest : List Char) (step : Except Stop (Value × List Char)) :
    Prop :=
  ∀ value left, step = .ok (value, left) → good value ∧ left = rest

theorem leaves_ok {value : Value} (isGood : good value) :
    Leaves good rest (.ok (value, rest)) := by
  rintro _ _ ⟨⟩
  exact ⟨isGood, rfl⟩

theorem Leaves.bind (first : Leaves good rest step)
    (second : ∀ value, good value → Leaves better left (next (value, rest))) :
    Leaves better left (step >>= next) := by
  intro final after read
  obtain ⟨⟨value, between⟩, stepped, read⟩ := Traversal.bind_eq_ok.mp read
  obtain ⟨isGood, rfl⟩ := first value between stepped
  exact second value isGood final after read

end Leaves

variable {nested : List Char → Except Stop (RelationTree × List Char)} {rest : List Char}

theorem leaves_readQuery (query : Query) (more : List Char) :
    Leaves (fun _ => True) more (readQuery (query.toJson.write ++ more)) := by
  unfold readQuery
  rw [splitBalanced_query query more]
  simp only
  split
  · exact leaves_ok trivial
  · exact nofun

/-! ### Relations -/

/-- The parts of a scope, of which there is one at least, are read with the skeleton of its nested
relations. -/
theorem leaves_readScope {query : Option Query} {tree : Option RelationTree} {part : List Char}
    {parts : List (List Char)} (given : queryPart query ++ nestedPart tree = part :: parts)
    (named : ∀ inner, tree = some inner → RelationTree.Named inner)
    (each : ∀ inner, tree = some inner →
      Leaves (fun read => RelationTree.skeleton read = RelationTree.skeleton inner)
        ('\x7d' :: rest) (nested (RelationTree.outline inner ++ '\x7d' :: rest))) :
    Leaves (fun scope => nestedSkeleton scope.2 = nestedSkeleton tree) ('\x7d' :: rest)
      (readScope nested (separated (part :: parts) ++ '\x7d' :: rest)) := by
  cases query with
  | none =>
    cases tree with
    | none => cases given
    | some inner =>
      cases given
      show Leaves _ _ (readScope nested (separated [RelationTree.outline inner] ++ '\x7d' :: rest))
      rw [separated_singleton,
        readScope_list (RelationTree.outline_noBrace (named inner rfl) rest)]
      exact (each inner rfl).bind fun read same => leaves_ok (congrArg some same)
  | some present =>
    cases tree with
    | none =>
      cases given
      show Leaves _ _ (readScope nested (separated [present.toJson.write] ++ '\x7d' :: rest))
      rw [separated_singleton]
      exact (leaves_readQuery present ('\x7d' :: rest)).bind fun query _ => leaves_ok rfl
    | some inner =>
      cases given
      show Leaves _ _ (readScope nested
        (separated [present.toJson.write, RelationTree.outline inner] ++ '\x7d' :: rest))
      rw [separated_cons_cons, separated_singleton, List.append_assoc, List.cons_append]
      exact (leaves_readQuery present _).bind fun query _ =>
        (each inner rfl).bind fun read same => leaves_ok (congrArg some same)

/-- The outline of a relation is read with the skeleton of the relation. -/
theorem leaves_readRelation {relation : Relation} (isName : IsName relation.name)
    (named : ∀ inner, relation.nested? = some inner → RelationTree.Named inner)
    (each : ∀ inner, relation.nested? = some inner → ∀ rest, EndsList rest →
      Leaves (fun read => RelationTree.skeleton read = RelationTree.skeleton inner) rest
        (nested (RelationTree.outline inner ++ rest)))
    (ends : EndsNode rest) :
    Leaves (fun read => read.skeleton = relation.skeleton) rest
      (readRelation nested (relation.outline ++ rest)) := by
  have bare : ∀ name, IsName name →
      Leaves (fun read => read.skeleton = .plain name) rest
        (readRelation nested (name.toList ++ rest)) := by
    intro name isName
    rw [readRelation_plain isName ends.endsName ends.bare]
    exact leaves_ok rfl
  cases relation with
  | plain name => exact bare name isName
  | refined name query tree =>
    cases given : queryPart query ++ nestedPart tree with
    | nil =>
      have noNested : tree = none := by
        cases tree with
        | none => rfl
        | some inner => exact absurd given (by simp [nestedPart])
      rw [Relation.outline, given, noNested, enclosed, List.append_nil]
      exact bare name isName
    | cons part parts =>
      have inside := leaves_readScope given named
        fun inner same => each inner same ('\x7d' :: rest) (.inr ⟨rest, rfl⟩)
      rw [Relation.outline, given]
      show Leaves _ _ (readRelation nested
        (name.toList ++ '\x7b' :: (separated (part :: parts) ++ ['\x7d']) ++ rest))
      rw [List.append_assoc, List.cons_append, List.append_assoc, List.singleton_append,
        readRelation_refined (show IsName name from isName)]
      refine inside.bind fun scope same => leaves_ok ?_
      rw [Relation.skeleton, Relation.skeleton, same]

/-! ### Trees -/

/-- A tree is built onto another one from relations with the skeletons of the given ones. -/
def BuiltAlike (tree : RelationTree) (relations : List Relation) (built : RelationTree) : Prop :=
  ∃ backs : List Relation, backs.map Relation.skeleton = relations.map Relation.skeleton ∧
    built = backs.foldl (fun built back => Keyed.put Relation.name back built) tree

/-- The outlines of relations, with commas between them, are read one by one with the skeletons of
the relations. -/
theorem leaves_readRelations {read : List Char → Except Stop (Relation × List Char)}
    {relation : Relation} {relations : List Relation}
    (each : ∀ other ∈ relation :: relations, ∀ rest, EndsNode rest →
      Leaves (fun back => back.skeleton = other.skeleton) rest (read (other.outline ++ rest)))
    (ends : EndsList rest) (bound : Nat) (tree : RelationTree) :
    Leaves (BuiltAlike tree (relation :: relations)) rest
      (readRelations read bound tree (RelationTree.outline (relation :: relations) ++ rest)) := by
  induction relations generalizing relation bound tree with
  | nil =>
    cases bound with
    | zero => exact nofun
    | succ bound =>
      have alone : RelationTree.outline [relation] = relation.outline := separated_singleton _
      rw [alone]
      refine (each relation List.mem_cons_self rest (.inl ends)).bind fun back same => ?_
      have built : Leaves (BuiltAlike tree [relation]) rest (.ok (tree.put back, rest)) :=
        leaves_ok ⟨[back], congrArg (fun skeleton => [skeleton]) same, rfl⟩
      rcases ends with rfl | ⟨more, rfl⟩ <;> exact built
  | cons next relations inductionHypothesis =>
    cases bound with
    | zero => exact nofun
    | succ bound =>
      have parts : RelationTree.outline (relation :: next :: relations) =
          relation.outline ++ ',' :: RelationTree.outline (next :: relations) :=
        separated_cons_cons _ _ _
      rw [parts, List.append_assoc, List.cons_append]
      refine (each relation List.mem_cons_self _ (.inr ⟨_, rfl⟩)).bind fun back same => ?_
      have others := inductionHypothesis
        (fun other member => each other (List.mem_cons_of_mem _ member)) bound (tree.put back)
      intro built left read
      obtain ⟨⟨backs, sameOthers, rfl⟩, isRest⟩ := others built left read
      exact ⟨⟨back :: backs, congrArg₂ List.cons same sameOthers, rfl⟩, isRest⟩

/-- Relations that were read one by one are a tree as they stand, when they have the skeletons of
relations with distinct names. -/
theorem skeleton_of_ofList {tree backs : List Relation}
    (distinct : Keyed.Distinct Relation.name tree)
    (same : backs.map Relation.skeleton = tree.map Relation.skeleton) :
    RelationTree.skeleton (Keyed.ofList Relation.name backs) = RelationTree.skeleton tree := by
  have names : backs.map Relation.name = tree.map Relation.name := by
    rw [← Relation.map_name_skeleton, same, Relation.map_name_skeleton]
  have backsDistinct : Keyed.Distinct Relation.name backs := by
    rw [Keyed.Distinct, names]
    exact distinct
  rw [Keyed.ofList_of_distinct _ backsDistinct, RelationTree.skeleton_eq_map, same,
    RelationTree.skeleton_eq_map]

/-- The outline of a tree that passes the check is read with the skeleton of the tree. -/
theorem leaves_readTree {levels : Nat} {tree : RelationTree} (wellFormed : tree.WellFormed)
    (sendable : RelationTree.checkWithin levels tree = .ok ()) (ends : EndsList rest) :
    Leaves (fun read => RelationTree.skeleton read = RelationTree.skeleton tree) rest
      (readTree levels (tree.outline ++ rest)) := by
  induction levels generalizing tree rest with
  | zero => cases sendable
  | succ levels inductionHypothesis =>
    have named := RelationTree.named_of_checkWithin sendable
    rw [RelationTree.checkWithin_succ] at sendable
    have each : ∀ relation ∈ tree, ∀ rest, EndsNode rest →
        Leaves (fun read => read.skeleton = relation.skeleton) rest
          (readRelation (readTree levels) (relation.outline ++ rest)) := by
      intro relation member rest ends
      obtain ⟨_, _, nestedChecked⟩ := sendable relation member
      exact leaves_readRelation (named relation member)
        (fun inner given => RelationTree.named_of_checkWithin (nestedChecked inner given))
        (fun inner given rest ends => inductionHypothesis
          (wellFormed.nested relation member inner given) (nestedChecked inner given) ends) ends
    cases tree with
    | nil => rcases ends with rfl | ⟨more, rfl⟩ <;> exact leaves_ok rfl
    | cons first others =>
      have series := leaves_readRelations each ends
        (RelationTree.outline (first :: others) ++ rest).length .empty
      obtain ⟨char, more, leads, free⟩ := starts_outline (named first List.mem_cons_self) others
      have noBrace : char ≠ '\x7d' := by
        rintro rfl
        cases free
      rw [leads, List.cons_append] at series ⊢
      rw [readTree]
      simp only [if_neg noBrace]
      intro read left isRead
      obtain ⟨⟨backs, same, rfl⟩, isRest⟩ := series read left isRead
      exact ⟨skeleton_of_ofList wellFormed.distinct same, isRest⟩

end Outline

/-- A tree that is parsed from the outline that was sent for a tree has its skeleton. -/
theorem RelationTree.skeleton_of_ofOutline {tree parsed : RelationTree} {text : String}
    (wellFormed : tree.WellFormed) (sent : tree.toOutline = .ok text)
    (read : ofOutline text = .ok parsed) : parsed.skeleton = tree.skeleton := by
  obtain ⟨checked, rfl⟩ := toOutline_eq_ok.mp sent
  have parsedWhole := Traversal.mapError_eq_ok.mp read
  rw [String.toList_ofList] at parsedWhole
  have leaves := Outline.leaves_readTree wellFormed checked (.inl rfl)
  rw [List.append_nil] at leaves
  unfold Outline.parse at parsedWhole
  split at parsedWhole
  · rename_i whole isRead
    cases parsedWhole
    exact (leaves _ _ isRead).1
  · cases parsedWhole
  · cases parsedWhole

end ListQuery
