/-
This file proves for which decoded requests nothing can be sent. The decoder and the
compiler keep their limits apart, the depth of filters and of relation trees and the
paths of fields among them, but nothing that the decoder lets through is beyond what
the compiler takes. Only the names of relations are left: a document may hold any
name, and an outline has no place for some.
-/

import ListQuery.Proofs.Parameters
import ListQuery.Proofs.Relation.Levels

namespace ListQuery

namespace Request

variable {request : Request}

/-! ### What the decoder lets through -/

/-- What the compiler checks in a request, apart from names. -/
structure Bounded (request : Request) : Prop where
  filter : ∀ filter, request.filter = some filter → filter.check = .ok ()
  fits : ∀ tree, request.nested = some tree → tree.Fits (maxNesting + 1)
  queries : ∀ tree, request.nested = some tree →
    ∀ query ∈ RelationTree.queries tree, query.check = .ok ()

theorem keeps_bounded (bound : Nat) : layout.Keeps bound Bounded := by
  unfold Json.Layout.Keeps
  simp only [layout, List.forall_mem_cons, List.not_mem_nil, false_implies, implies_true, and_true]
  refine ⟨?_, ?_, ?_, ?_, ?_, ?_, ?_⟩
  · refine Json.Layout.keeps_optional fun partWellFormed _ decoded held => ?_
    exact ⟨fun filter given => (Filter.reread_of_ofJson partWellFormed (decoded filter given)).1,
      held.fits, held.queries⟩
  · exact Json.Layout.keeps_optional fun _ _ _ held => ⟨held.filter, held.fits, held.queries⟩
  · exact Json.Layout.keeps_optional fun _ _ _ held => ⟨held.filter, held.fits, held.queries⟩
  · refine Json.Layout.keeps_optional fun partWellFormed _ decoded held => ?_
    have bounded := fun tree given => RelationTree.bounded_of_ofJsonWithin partWellFormed
      (Traversal.mapError_eq_ok.mp (decoded tree given))
    exact ⟨held.filter, fun tree given => (bounded tree given).1,
      fun tree given => (bounded tree given).2⟩
  all_goals
    exact Json.Layout.keeps_optional fun _ _ _ held => ⟨held.filter, held.fits, held.queries⟩

theorem bounded_of_ofJson {document : Json} (wellFormed : document.WellFormed)
    (read : decoder.ofJson document = .ok request) : request.Bounded :=
  Json.Layout.holds_of_ofJson streaming_layout ⟨nofun, nofun, nofun⟩
    (keeps_bounded document.opened) wellFormed (Nat.le_succ _) read

/-! ### What the compiler refuses -/

/-- A request whose filter passes is refused only for its relation tree. -/
theorem exists_of_compile_error (filter : ∀ filter, request.filter = some filter →
    filter.check = .ok ()) {fault : QueryFault} (refused : request.compile = .error fault) :
    ∃ tree inner, request.nested = some tree ∧ tree.check = .error inner ∧
      fault = .shape inner := by
  unfold compile at refused
  rcases Traversal.bind_eq_error.mp refused with refused | ⟨_, _, refused⟩
  · obtain ⟨present, given, refused⟩ := Traversal.exists_of_optionForM_error refused
    obtain ⟨inner, refused, _⟩ := Traversal.mapError_eq_error.mp refused
    cases (filter present given).symm.trans refused
  · obtain ⟨tree, given, refused⟩ :=
      Traversal.exists_of_optionMapM_error (Traversal.bind_pure_eq_error.mp refused)
    obtain ⟨inner, refused, same⟩ := RelationTree.toOutline_eq_error.mp refused
    exact ⟨tree, inner, given, refused, same⟩

/-- The relation tree of a request that is compiled passes the check. -/
theorem check_of_compile {parameters : Parameters} (compiled : request.compile = .ok parameters)
    {tree : RelationTree} (given : request.nested = some tree) : tree.check = .ok () := by
  obtain ⟨_, nested, sent, _⟩ := compile_eq_ok.mp compiled
  rw [given] at sent
  obtain ⟨text, treeSent, _⟩ := Traversal.map_eq_ok.mp sent
  exact (RelationTree.toOutline_eq_ok.mp treeSent).1

/-- A request that is within bounds is refused for a name in its relation tree. -/
theorem exists_name_of_compile_error (bounded : request.Bounded) {fault : QueryFault}
    (refused : request.compile = .error fault) :
    ∃ tree name, request.nested = some tree ∧ tree.HasName name ∧
      (name = "" ∧ fault = .shape .emptyName ∨
        name ≠ "" ∧ Unwritable name ∧ fault = .shape (.reservedName name)) := by
  obtain ⟨tree, inner, given, treeRefused, rfl⟩ := exists_of_compile_error bounded.filter refused
  cases RelationTree.reason_of_checkWithin treeRefused with
  | level tooDeep => exact absurd (bounded.fits tree given) tooDeep
  | @name name _ hasName nameRefused =>
    refine ⟨tree, name, given, hasName, ?_⟩
    rcases checkName_eq_error.mp nameRefused with ⟨empty, rfl⟩ | ⟨nonempty, unwritable, rfl⟩
    · exact .inl ⟨empty, rfl⟩
    · exact .inr ⟨nonempty, unwritable, rfl⟩
  | query held queryRefused => cases (bounded.queries tree given _ held).symm.trans queryRefused

/-- A decoded request is refused exactly when some relation in it, at whatever level, has a name
that cannot be written, and then the fault is about such a name. No filter and no depth that was
decoded is ever refused. -/
theorem compile_refuses_names {document : Json} (wellFormed : document.WellFormed)
    (read : decoder.ofJson document = .ok request) :
    ((∃ fault, request.compile = .error fault) ↔
      ∃ tree name, request.nested = some tree ∧ tree.HasName name ∧ Unwritable name) ∧
    (∀ fault, request.compile = .error fault →
      ∃ tree name, request.nested = some tree ∧ tree.HasName name ∧
        (name = "" ∧ fault = .shape .emptyName ∨
          name ≠ "" ∧ Unwritable name ∧ fault = .shape (.reservedName name))) ∧
    (∀ filter, request.filter = some filter → filter.check = .ok ()) ∧
    ∀ tree, request.nested = some tree →
      (∀ query ∈ RelationTree.queries tree, query.check = .ok ()) ∧
        ∀ count held, tree.HoldsTree count held → count ≤ 32 := by
  have bounded := bounded_of_ofJson wellFormed read
  refine ⟨⟨?_, ?_⟩, fun _ => exists_name_of_compile_error bounded, bounded.filter,
    fun tree given => ⟨bounded.queries tree given, ?_⟩⟩
  · rintro ⟨fault, refused⟩
    obtain ⟨tree, name, given, hasName, reason⟩ := exists_name_of_compile_error bounded refused
    refine ⟨tree, name, given, hasName, ?_⟩
    rcases reason with ⟨empty, _⟩ | ⟨_, unwritable, _⟩
    · exact .inl empty
    · exact unwritable
  · rintro ⟨tree, name, given, hasName, unwritable⟩
    refine Traversal.exists_error fun ⟨parameters, compiled⟩ => ?_
    have passed := RelationTree.checkWithin_eq_ok.mp (check_of_compile compiled given)
    exact passed.2.1 name hasName unwritable
  · exact fun count held holds => Nat.lt_succ_iff.mp (bounded.fits tree given count held holds)

/-- A document with a filter and a relation that both can be sent, and below the relation one whose
name holds a comma. -/
def commaDocument : Json :=
  .object [("where", .object [("$not", .object [("a", .null)])]),
    ("nested", .object [("a", .object [("query", .object [("limit", .number (Number.ofWord 1))]),
      ("nested", .object [("b,c", .boolean true)])])])]

/-- The request that the document is read as. -/
def commaRequest : Request where
  filter := some (Filter.empty.negation (Filter.empty.equals "a" .null))
  nested := some [.refined "a" (some { limit := some 1 }) (some [.plain "b,c"])]

theorem compile_refuses_names_comma :
    commaDocument.WellFormed ∧ decoder.ofJson commaDocument = .ok commaRequest ∧
      commaRequest.compile = .error (.shape (.reservedName "b,c")) ∧
      ∃ tree name, commaRequest.nested = some tree ∧ tree.HasName name ∧ Unwritable name := by
  have wellFormed : commaDocument.WellFormed := by
    simp [commaDocument, Json.WellFormed, Json.MembersWellFormed, Keyed.Distinct]
  have read : decoder.ofJson commaDocument = .ok commaRequest := rfl
  have refused : commaRequest.compile = .error (.shape (.reservedName "b,c")) := rfl
  exact ⟨wellFormed, read, refused, (compile_refuses_names wellFormed read).1.mp ⟨_, refused⟩⟩

end Request

end ListQuery
