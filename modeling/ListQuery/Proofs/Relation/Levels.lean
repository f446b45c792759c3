/-
This file tells what the check of a relation tree asks for, without following the
check. The trees that lie in a tree are counted by the scopes around them, the names
are those at any level, and so are the queries. A tree passes exactly when it has
room, its names can be written, and its queries pass; whatever a tree is refused
for is in the tree.
-/

import ListQuery.Proofs.Levels
import ListQuery.Proofs.Relation.Reading

namespace ListQuery

/-! ### Names that cannot be written -/

/-- A name that an outline has no place for: an empty one, or one with a brace or a comma in it. -/
def Unwritable (name : String) : Prop :=
  name = "" ∨ '\x7b' ∈ name.toList ∨ '\x7d' ∈ name.toList ∨ ',' ∈ name.toList

theorem any_isReserved_iff {name : String} :
    name.toList.any isReserved = true ↔
      '\x7b' ∈ name.toList ∨ '\x7d' ∈ name.toList ∨ ',' ∈ name.toList := by
  simp only [List.any_eq_true, isReserved, Bool.or_eq_true, decide_eq_true_eq, and_or_left,
    exists_or, exists_eq_right, or_assoc]

/-- A name is refused for the first of the two reasons that it gives. -/
theorem checkName_eq_error {name : String} {fault : ShapeFault} :
    checkName name = .error fault ↔
      name = "" ∧ fault = .emptyName ∨
        name ≠ "" ∧ Unwritable name ∧ fault = .reservedName name := by
  unfold checkName
  by_cases empty : name = ""
  · subst empty
    constructor
    · intro refused
      cases refused
      exact .inl ⟨rfl, rfl⟩
    · rintro (⟨_, rfl⟩ | ⟨nonempty, _⟩)
      · rfl
      · exact absurd rfl nonempty
  rw [if_neg fun isEmpty => empty (String.isEmpty_iff.mp isEmpty)]
  by_cases reserved : name.toList.any isReserved = true
  · rw [if_pos reserved]
    constructor
    · intro refused
      cases refused
      exact .inr ⟨empty, .inr (any_isReserved_iff.mp reserved), rfl⟩
    · rintro (⟨isEmpty, _⟩ | ⟨_, _, rfl⟩)
      · exact absurd isEmpty empty
      · rfl
  · rw [if_neg reserved]
    refine ⟨nofun, ?_⟩
    rintro (⟨isEmpty, _⟩ | ⟨_, isEmpty | held, _⟩)
    · exact absurd isEmpty empty
    · exact absurd isEmpty empty
    · exact absurd (any_isReserved_iff.mpr held) reserved

theorem checkName_eq_ok {name : String} : checkName name = .ok () ↔ ¬Unwritable name := by
  constructor
  · intro named unwritable
    by_cases empty : name = ""
    · cases named.symm.trans (checkName_eq_error.mpr (.inl ⟨empty, rfl⟩))
    · cases named.symm.trans (checkName_eq_error.mpr (.inr ⟨empty, unwritable, rfl⟩))
  · intro writable
    cases named : checkName name with
    | ok => rfl
    | error fault =>
      rcases checkName_eq_error.mp named with ⟨empty, _⟩ | ⟨_, unwritable, _⟩
      · exact absurd (.inl empty) writable
      · exact absurd unwritable writable

namespace RelationTree

variable {levels : Nat} {tree : RelationTree}

/-! ### Trees inside trees -/

/-- A tree is in the scope of a relation of a tree. -/
def HasScope (tree inner : RelationTree) : Prop :=
  ∃ relation ∈ tree, relation.nested? = some inner

/-- A tree lies in a tree under so many scopes. -/
abbrev HoldsTree : RelationTree → Nat → RelationTree → Prop :=
  Levels.Holds HasScope

/-- No tree in a tree lies deeper than so many levels have room for. -/
abbrev Fits (levels : Nat) (tree : RelationTree) : Prop :=
  Levels.Fits HasScope levels tree

/-- A relation at some level of a tree has a name. -/
def HasName (tree : RelationTree) (name : String) : Prop :=
  ∃ count held, tree.HoldsTree count held ∧ ∃ relation ∈ held, relation.name = name

theorem fits_succ :
    tree.Fits (levels + 1) ↔
      ∀ relation ∈ tree, ∀ inner, relation.nested? = some inner → Fits levels inner :=
  Levels.fits_succ.trans
    ⟨fun each relation member inner nested => each inner ⟨relation, member, nested⟩,
      fun each inner ⟨relation, member, nested⟩ => each relation member inner nested⟩

theorem hasName_iff {name : String} :
    tree.HasName name ↔ (∃ relation ∈ tree, relation.name = name) ∨
      ∃ inner, tree.HasScope inner ∧ inner.HasName name :=
  Levels.exists_holds_iff

theorem mem_queries {query : Query} :
    query ∈ tree.queries ↔ ∃ relation ∈ tree, relation.query? = some query ∨
      ∃ inner, relation.nested? = some inner ∧ query ∈ RelationTree.queries inner := by
  rw [queries_eq_flatMap, List.mem_flatMap]
  exact exists_congr fun relation => and_congr_right fun _ => Relation.mem_queries

theorem WellFormed.queries_wellFormed (wellFormed : tree.WellFormed) :
    ∀ query ∈ tree.queries, query.WellFormed := by
  induction wellFormed with
  | intro _ queries _ inductionHypothesis =>
    intro query held
    obtain ⟨relation, member, given | ⟨inner, nested, deeper⟩⟩ := mem_queries.mp held
    · exact queries relation member query given
    · exact inductionHypothesis relation member inner nested query deeper

/-! ### What the check asks for -/

/-- A tree passes the check at some levels exactly when it fits them, its names can be written, and
its queries pass. -/
theorem checkWithin_eq_ok :
    checkWithin levels tree = .ok () ↔
      tree.Fits levels ∧ (∀ name, tree.HasName name → ¬Unwritable name) ∧
        ∀ query ∈ tree.queries, query.check = .ok () := by
  induction levels generalizing tree with
  | zero => exact ⟨nofun, fun held => absurd held.1 Levels.not_fits_zero⟩
  | succ levels inductionHypothesis =>
    rw [checkWithin_succ, fits_succ]
    constructor
    · intro each
      refine ⟨fun relation member inner nested => ?_, fun name hasName => ?_,
        fun query held => ?_⟩
      · exact (inductionHypothesis.mp ((each relation member).2.2 inner nested)).1
      · rcases hasName_iff.mp hasName with ⟨relation, member, rfl⟩ | ⟨inner, inScope, deeper⟩
        · exact checkName_eq_ok.mp (each relation member).1
        · obtain ⟨relation, member, nested⟩ := inScope
          exact (inductionHypothesis.mp ((each relation member).2.2 inner nested)).2.1 name deeper
      · obtain ⟨relation, member, given | ⟨inner, nested, deeper⟩⟩ := mem_queries.mp held
        · exact (each relation member).2.1 query given
        · exact (inductionHypothesis.mp ((each relation member).2.2 inner nested)).2.2 query deeper
    · rintro ⟨fits, names, queries⟩ relation member
      refine ⟨checkName_eq_ok.mpr (names _ (hasName_iff.mpr (.inl ⟨relation, member, rfl⟩))),
        fun query given => queries query (mem_queries.mpr ⟨relation, member, .inl given⟩),
        fun inner nested => inductionHypothesis.mpr ⟨fits relation member inner nested,
          fun name deeper => ?_, fun query deeper => ?_⟩⟩
      · exact names name (hasName_iff.mpr (.inr ⟨inner, ⟨relation, member, nested⟩, deeper⟩))
      · exact queries query (mem_queries.mpr ⟨relation, member, .inr ⟨inner, nested, deeper⟩⟩)

/-- What a tree can be refused for at some levels: a tree in it lies too deep, or a name or a query
in it is refused itself. -/
inductive Reason (levels : Nat) (tree : RelationTree) : ShapeFault → Prop
  | level (tooDeep : ¬tree.Fits levels) : Reason levels tree .treeTooDeep
  | name {name : String} {fault : ShapeFault} (hasName : tree.HasName name)
      (refused : checkName name = .error fault) : Reason levels tree fault
  | query {query : Query} {fault : ShapeFault} (held : query ∈ tree.queries)
      (refused : query.check = .error fault) : Reason levels tree fault

/-- What a nested tree is refused for, the tree around it is refused for. -/
theorem Reason.outside {relation : Relation} {inner : RelationTree} {fault : ShapeFault}
    (member : relation ∈ tree) (nested : relation.nested? = some inner)
    (reason : Reason levels inner fault) : Reason (levels + 1) tree fault := by
  cases reason with
  | level tooDeep =>
    exact .level fun fits => tooDeep (fits_succ.mp fits relation member inner nested)
  | name hasName refused =>
    exact .name (hasName_iff.mpr (.inr ⟨inner, ⟨relation, member, nested⟩, hasName⟩)) refused
  | query held refused =>
    exact .query (mem_queries.mpr ⟨relation, member, .inr ⟨inner, nested, held⟩⟩) refused

/-- A tree is refused only for what is in it. -/
theorem reason_of_checkWithin {fault : ShapeFault}
    (refused : checkWithin levels tree = .error fault) : Reason levels tree fault := by
  induction levels generalizing tree with
  | zero =>
    cases refused
    exact .level Levels.not_fits_zero
  | succ levels inductionHypothesis =>
    rw [checkWithin] at refused
    obtain ⟨relation, member, refused⟩ := Traversal.exists_of_forM_error refused
    rcases Traversal.bind_eq_error.mp refused with nameRefused | ⟨_, _, refused⟩
    · exact .name (hasName_iff.mpr (.inl ⟨relation, member, rfl⟩)) nameRefused
    cases relation with
    | plain name => cases refused
    | refined name query nested =>
      rcases Traversal.bind_eq_error.mp refused with refused | ⟨_, _, refused⟩
      · obtain ⟨present, given, queryRefused⟩ := Traversal.exists_of_optionForM_error refused
        exact .query (mem_queries.mpr ⟨_, member, .inl given⟩) queryRefused
      · obtain ⟨inner, given, innerRefused⟩ := Traversal.exists_of_optionForM_error refused
        exact (inductionHypothesis innerRefused).outside member given

/-- What is sent for a tree fails only with the fault that the check finds. -/
theorem toOutline_eq_error {fault : QueryFault} :
    tree.toOutline = .error fault ↔ ∃ inner, tree.check = .error inner ∧ fault = .shape inner := by
  unfold toOutline
  exact Traversal.bind_pure_eq_error.trans Traversal.mapError_eq_error

/-! ### Trees out of documents -/

/-- A tree that was read from a document fits the levels at which it was read, and its queries
pass. -/
theorem bounded_of_ofJsonWithin {document : Json} (wellFormed : document.WellFormed)
    (read : ofJsonWithin levels document = .ok tree) :
    tree.Fits levels ∧ ∀ query ∈ tree.queries, query.check = .ok () := by
  induction levels generalizing document tree with
  | zero => cases read
  | succ levels inductionHypothesis =>
    obtain ⟨_, parts⟩ := parts_of_ofJsonWithin wellFormed read
    have inside : ∀ relation ∈ tree, ∀ inner, relation.nested? = some inner →
        Fits levels inner ∧ ∀ query ∈ RelationTree.queries inner, query.check = .ok () := by
      intro relation member inner nested
      obtain ⟨part, partWellFormed, innerRead⟩ := (parts relation member).2 inner nested
      exact inductionHypothesis partWellFormed innerRead
    constructor
    · exact fits_succ.mpr fun relation member inner nested =>
        (inside relation member inner nested).1
    · intro query held
      obtain ⟨relation, member, given | ⟨inner, nested, deeper⟩⟩ := mem_queries.mp held
      · obtain ⟨part, partWellFormed, queryRead⟩ := (parts relation member).1 query given
        exact Query.check_of_ofJson partWellFormed queryRead
      · exact (inside relation member inner nested).2 query deeper

end RelationTree

end ListQuery
