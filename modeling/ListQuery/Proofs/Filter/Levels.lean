/-
This file tells what the check of a filter asks for, without following the check.
The filters that lie in a filter are counted by the connectives and negations around
them, and the paths are those of fields at any level. A filter passes exactly when
it has room and none of its paths reads like a connective; whatever a filter is
refused for is in the filter.
-/

import ListQuery.Proofs.Filter.Settled
import ListQuery.Proofs.Levels

namespace ListQuery

theorem startsWithDollar_eq_true {key : String} :
    startsWithDollar key = true ↔ key.toList.head? = some '$' :=
  beq_iff_eq

theorem startsWithDollar_eq_false {key : String} :
    startsWithDollar key = false ↔ key.toList.head? ≠ some '$' :=
  beq_eq_false_iff_ne

namespace Filter

variable {levels : Nat} {filter : Filter}

/-! ### Filters inside filters -/

/-- A filter is a branch of a clause of a filter. -/
def HasBranch (filter branch : Filter) : Prop :=
  ∃ clause ∈ filter, branch ∈ clause.inner

/-- A filter lies in a filter under so many connectives and negations. -/
abbrev HoldsFilter : Filter → Nat → Filter → Prop :=
  Levels.Holds HasBranch

/-- No filter in a filter lies deeper than so many levels have room for. -/
abbrev Fits (levels : Nat) (filter : Filter) : Prop :=
  Levels.Fits HasBranch levels filter

/-- A field at some level of a filter has a path. -/
def HasPath (filter : Filter) (path : String) : Prop :=
  ∃ count held, filter.HoldsFilter count held ∧ ∃ condition, Clause.field path condition ∈ held

theorem hasPath_iff {path : String} :
    filter.HasPath path ↔ (∃ condition, Clause.field path condition ∈ filter) ∨
      ∃ branch, filter.HasBranch branch ∧ branch.HasPath path :=
  Levels.exists_holds_iff

/-! ### What the check asks for -/

/-- The path of a clause, if it has one, does not read like a connective. -/
theorem pathFree_iff {clause : Clause} :
    clause.PathFree ↔
      ∀ path condition, clause = .field path condition → startsWithDollar path = false := by
  cases clause with
  | field path condition =>
    constructor
    · rintro free _ _ ⟨⟩
      exact free
    · exact fun each => each path condition rfl
  | group connective branches => exact ⟨fun _ => nofun, fun _ => trivial⟩
  | negation branch => exact ⟨fun _ => nofun, fun _ => trivial⟩

/-- A filter passes the check at some levels exactly when it fits them and none of its paths reads
like a connective. -/
theorem checkWithin_eq_ok :
    checkWithin levels filter = .ok () ↔
      filter.Fits levels ∧ ∀ path, filter.HasPath path → startsWithDollar path = false := by
  induction levels generalizing filter with
  | zero => exact ⟨nofun, fun held => absurd held.1 Levels.not_fits_zero⟩
  | succ levels inductionHypothesis =>
    rw [checkWithin_succ, Fits, Levels.fits_succ]
    constructor
    · intro each
      constructor
      · rintro branch ⟨clause, member, inside⟩
        exact (inductionHypothesis.mp ((each clause member).2 branch inside)).1
      · intro path hasPath
        rcases hasPath_iff.mp hasPath with ⟨condition, member⟩ | ⟨branch, inside, deeper⟩
        · exact pathFree_iff.mp (each _ member).1 path condition rfl
        · obtain ⟨clause, member, inside⟩ := inside
          exact (inductionHypothesis.mp ((each clause member).2 branch inside)).2 path deeper
    · rintro ⟨fits, paths⟩ clause member
      refine ⟨pathFree_iff.mpr fun path condition given => ?_, fun branch inside =>
        inductionHypothesis.mpr ⟨fits branch ⟨clause, member, inside⟩, fun path deeper => ?_⟩⟩
      · exact paths path (hasPath_iff.mpr (.inl ⟨condition, given ▸ member⟩))
      · exact paths path (hasPath_iff.mpr (.inr ⟨branch, ⟨clause, member, inside⟩, deeper⟩))

/-- A filter passes exactly when no path in it starts with a dollar sign and no filter in it lies
under more than 32 connectives and negations. -/
theorem check_eq_ok :
    filter.check = .ok () ↔
      (∀ path, filter.HasPath path → path.toList.head? ≠ some '$') ∧
        ∀ count held, filter.HoldsFilter count held → count ≤ 32 := by
  refine checkWithin_eq_ok.trans (and_comm.trans (and_congr ?_ ?_))
  · exact forall₂_congr fun _ _ => startsWithDollar_eq_false
  · exact forall₃_congr fun _ _ _ => Nat.lt_succ_iff

/-- What a filter can be refused for at some levels: a filter in it lies too deep, or a path in it
reads like a connective. -/
inductive Reason (levels : Nat) (filter : Filter) : ShapeFault → Prop
  | level (tooDeep : ¬filter.Fits levels) : Reason levels filter .filterTooDeep
  | path {path : String} (hasPath : filter.HasPath path)
      (reserved : startsWithDollar path = true) : Reason levels filter (.reservedPath path)

/-- What a filter is refused for inside another one, the other one is refused for. -/
theorem Reason.outside {branch : Filter} {fault : ShapeFault} (inside : filter.HasBranch branch)
    (reason : Reason levels branch fault) : Reason (levels + 1) filter fault := by
  cases reason with
  | level tooDeep => exact .level fun fits => tooDeep (Levels.fits_succ.mp fits branch inside)
  | path hasPath reserved =>
    exact .path (hasPath_iff.mpr (.inr ⟨branch, inside, hasPath⟩)) reserved

/-- A filter is refused only for what is in it. -/
theorem reason_of_checkWithin {fault : ShapeFault}
    (refused : checkWithin levels filter = .error fault) : Reason levels filter fault := by
  induction levels generalizing filter with
  | zero =>
    cases refused
    exact .level Levels.not_fits_zero
  | succ levels inductionHypothesis =>
    rw [checkWithin] at refused
    obtain ⟨clause, member, refused⟩ := Traversal.exists_of_forM_error refused
    cases clause with
    | field path condition =>
      simp only at refused
      split at refused
      · rename_i reserved
        cases refused
        exact .path (hasPath_iff.mpr (.inl ⟨condition, member⟩)) reserved
      · cases refused
    | group connective branches =>
      obtain ⟨branch, inside, branchRefused⟩ := Traversal.exists_of_forM_error refused
      exact (inductionHypothesis branchRefused).outside ⟨_, member, inside⟩
    | negation branch =>
      exact (inductionHypothesis refused).outside ⟨_, member, List.mem_cons_self⟩

end Filter

end ListQuery
