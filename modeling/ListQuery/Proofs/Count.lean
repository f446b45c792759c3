/-
This file proves which digits are read as a count. The digits are collected in a
word of 64 bits, and reading stops as soon as they no longer fit. Digits behind
others never make a number smaller, so a number whose first digits do not fit does
not fit either: what is refused on the way is beyond 64 bits as a whole, however
many zeros it starts with, and what is read is the number itself.
-/

import ListQuery.Proofs.Json.Grammar
import ListQuery.Count

namespace ListQuery

namespace Count

variable {first second count longer : Count} {char : Char} {digits : List Char}

/-! ### Checked arithmetic -/

/-- A word that is refused when it wraps is the number that it should be. -/
theorem checked_eq_some {number : Nat} {word : Count} (wraps : word.toNat = number % UInt64.size) :
    (if decide (number ≥ UInt64.size) then none else some word) = some count ↔
      number = count.toNat := by
  by_cases overflows : number ≥ UInt64.size
  · rw [if_pos (decide_eq_true overflows)]
    refine ⟨nofun, fun same => ?_⟩
    exact absurd overflows (Nat.not_le.mpr (same ▸ count.toNat_lt))
  · rw [Nat.mod_eq_of_lt (Nat.not_le.mp overflows)] at wraps
    rw [if_neg (decide_eq_true_iff.not.mpr overflows), Option.some_inj, ← UInt64.toNat_inj, wraps]

theorem mul?_eq_some :
    mul? first second = some count ↔ first.toNat * second.toNat = count.toNat :=
  checked_eq_some (UInt64.toNat_mul first second)

theorem add?_eq_some :
    add? first second = some count ↔ first.toNat + second.toNat = count.toNat :=
  checked_eq_some (UInt64.toNat_add first second)

/-- A number no larger than that of some count is the number of a count itself. -/
theorem exists_of_le {number : Nat} (fits : number ≤ count.toNat) :
    ∃ word : Count, number = word.toNat :=
  ⟨UInt64.ofNat number, (UInt64.toNat_ofNat_of_lt' (fits.trans_lt count.toNat_lt)).symm⟩

/-! ### Digits -/

theorem toNat_digit (isDigit : char.isDigit = true) :
    (UInt64.ofNat (char.toNat - '0'.toNat)).toNat = char.toNat - '0'.toNat := by
  have nine : char.toNat ≤ 57 := (Char.isDigit_iff_toNat.mp isDigit).2
  exact UInt64.toNat_ofNat_of_lt' ((Nat.sub_le _ _).trans_lt (nine.trans_lt (by decide)))

/-- One digit more: the number goes up by one place, and nothing else is taken. -/
theorem append?_eq_some : append? count char = some longer ↔
    char.isDigit = true ∧ 10 * count.toNat + (char.toNat - '0'.toNat) = longer.toNat := by
  have ten : (10 : Count).toNat = 10 := rfl
  simp only [append?, Option.bind_eq_bind, Option.bind_eq_some_iff, mul?_eq_some, ten]
  constructor
  · rintro ⟨tens, shifted, taken⟩
    split at taken
    case isFalse => cases taken
    case isTrue isDigit =>
      rw [add?_eq_some, toNat_digit isDigit, ← shifted, Nat.mul_comm] at taken
      exact ⟨isDigit, taken⟩
  · rintro ⟨isDigit, taken⟩
    obtain ⟨tens, shifted⟩ := exists_of_le (Nat.le_of_add_right_le taken.le)
    refine ⟨tens, by rw [Nat.mul_comm, shifted], ?_⟩
    rw [if_pos isDigit, add?_eq_some, toNat_digit isDigit, ← shifted, taken]

/-- Digits behind others never make a number smaller. -/
theorem le_ofDigitChars (digits : List Char) (total : Nat) :
    total ≤ Nat.ofDigitChars 10 digits total := by
  induction digits generalizing total with
  | nil => exact le_rfl
  | cons char rest inductionHypothesis =>
    rw [Nat.ofDigitChars_cons]
    exact le_trans (by omega) (inductionHypothesis _)

/-- Digits behind a count are taken one by one exactly when the number that they end in fits. -/
theorem foldlM_append?_eq_some : digits.foldlM append? first = some count ↔
    (∀ char ∈ digits, char.isDigit = true) ∧
      Nat.ofDigitChars 10 digits first.toNat = count.toNat := by
  induction digits generalizing first with
  | nil =>
    rw [List.foldlM_nil, Nat.ofDigitChars_nil, UInt64.toNat_inj]
    exact ⟨fun same => ⟨List.forall_mem_nil _, Option.some.inj same⟩,
      fun same => congrArg some same.2⟩
  | cons char rest inductionHypothesis =>
    rw [List.foldlM_cons, Nat.ofDigitChars_cons, List.forall_mem_cons]
    simp only [Option.bind_eq_bind, Option.bind_eq_some_iff, append?_eq_some, inductionHypothesis]
    constructor
    · rintro ⟨next, ⟨isDigit, taken⟩, each, read⟩
      exact ⟨⟨isDigit, each⟩, taken ▸ read⟩
    · rintro ⟨⟨isDigit, each⟩, read⟩
      -- What the first digit makes fits, because the number at the end is no smaller.
      obtain ⟨next, taken⟩ := exists_of_le ((le_ofDigitChars rest _).trans read.le)
      exact ⟨next, ⟨isDigit, taken⟩, each, taken ▸ read⟩

/-- Digits are read as a count exactly when there are some and their number fits; then they are read
as that number. -/
theorem ofDigits?_eq_some : ofDigits? digits = some count ↔
    Json.IsDigits digits ∧ Digits.value digits = count.toNat := by
  cases digits with
  | nil => exact ⟨nofun, fun read => absurd rfl read.1.nonempty⟩
  | cons char rest =>
    rw [ofDigits?, foldlM_append?_eq_some]
    · exact and_congr_left fun _ => ⟨fun each => ⟨List.cons_ne_nil _ _, each⟩, Json.IsDigits.digits⟩
    · exact nofun

end Count

end ListQuery
