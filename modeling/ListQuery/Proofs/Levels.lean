/-
This file counts levels. Filters, the documents of filters and relation trees hold
others of their kind, and each of them is limited in how deep these may lie. What
holds of every such limit is proved here once, for things of any kind that may be
directly inside one another.
-/

namespace ListQuery

namespace Levels

/-- A thing lies in a thing under so many levels, given what may be directly inside what. -/
inductive Holds {Thing : Type} (inside : Thing → Thing → Prop) : Thing → Nat → Thing → Prop
  | here {thing : Thing} : Holds inside thing 0 thing
  | deeper {outer inner held : Thing} {count : Nat} (direct : inside outer inner)
      (holds : Holds inside inner count held) : Holds inside outer (count + 1) held

/-- Nothing in a thing lies deeper than so many levels have room for. -/
def Fits {Thing : Type} (inside : Thing → Thing → Prop) (levels : Nat) (thing : Thing) : Prop :=
  ∀ count held, Holds inside thing count held → count < levels

variable {Thing : Type} {inside : Thing → Thing → Prop} {levels : Nat} {thing : Thing}

theorem not_fits_zero : ¬Fits inside 0 thing :=
  fun fits => Nat.not_lt_zero 0 (fits 0 thing .here)

theorem exists_of_not_fits (unfit : ¬Fits inside (levels + 1) thing) :
    ∃ count held, Holds inside thing count held ∧ levels < count := by
  obtain ⟨count, unfit⟩ := Classical.not_forall.mp unfit
  obtain ⟨held, unfit⟩ := Classical.not_forall.mp unfit
  obtain ⟨holds, deep⟩ := Classical.not_imp.mp unfit
  exact ⟨count, held, holds, Nat.lt_of_succ_le (Nat.le_of_not_lt deep)⟩

theorem fits_succ :
    Fits inside (levels + 1) thing ↔ ∀ inner, inside thing inner → Fits inside levels inner := by
  constructor
  · intro fits inner direct count held holds
    exact Nat.lt_of_succ_lt_succ (fits _ _ (.deeper direct holds))
  · intro each count held holds
    cases holds with
    | here => exact Nat.succ_pos levels
    | deeper direct holds => exact Nat.succ_lt_succ (each _ direct _ _ holds)

/-- What is found somewhere in a thing is found in the thing itself or somewhere in what is directly
inside it. -/
theorem exists_holds_iff {found : Thing → Prop} :
    (∃ count held, Holds inside thing count held ∧ found held) ↔
      found thing ∨ ∃ inner, inside thing inner ∧
        ∃ count held, Holds inside inner count held ∧ found held := by
  constructor
  · rintro ⟨count, held, holds, isFound⟩
    cases holds with
    | here => exact .inl isFound
    | deeper direct holds => exact .inr ⟨_, direct, _, held, holds, isFound⟩
  · rintro (isFound | ⟨inner, direct, count, held, holds, isFound⟩)
    · exact ⟨0, thing, .here, isFound⟩
    · exact ⟨count + 1, held, .deeper direct holds, isFound⟩

end Levels

end ListQuery
