/-
This file proves how numbers are read back from their text. What a literal is read
as does not depend on what follows it, as long as that does not go on with a digit,
a point or an exponent. Every integer is read back as itself. A double need not be,
because its digits are rounded twice when they are read, so that a double is read
back is a property of its own.
-/

import ListQuery.Json.Reader
import ListQuery.Proofs.Text.Run

namespace ListQuery

/-- A number is read back from its text as the same number. -/
def Number.ReadsBack (number : Number) : Prop :=
  Json.readNumber number.text = .ok (.number number, [])

/-! ### What may follow a literal -/

/-- The characters with which a literal may go on. -/
def Literal.extends (char : Char) : Bool :=
  char.isDigit || char == '.' || char == 'e' || char == 'E'

namespace Literal

variable {text rest more : List Char}

theorem stops_isDigit (stops : Text.Stops Literal.extends more) :
    Text.Stops Char.isDigit more := by
  intro char head
  have outside := stops char head
  simp only [Literal.extends, Bool.or_eq_false_iff] at outside
  exact outside.1.1.1

/-- What follows a literal does not start like any part of it. -/
theorem ne_of_stops (stops : Text.Stops Literal.extends more) {char : Char} {others : List Char}
    (goesOn : more = char :: others) : char ≠ '.' ∧ char ≠ 'e' ∧ char ≠ 'E' := by
  have outside := stops char (by rw [goesOn]; rfl)
  simp only [Literal.extends, Bool.or_eq_false_iff, beq_eq_false_iff_ne] at outside
  exact ⟨outside.1.1.2, outside.1.2, outside.2⟩

theorem split?_append {digits : List Char} (stops : Text.Stops Literal.extends more)
    (read : Digits.split? text = some (digits, rest)) :
    Digits.split? (text ++ more) = some (digits, rest ++ more) := by
  unfold Digits.split? at read ⊢
  rw [Text.takeWhile_append (stops_isDigit stops), Text.dropWhile_append (stops_isDigit stops)]
  split at read
  · cases read
  · cases read
    rfl

theorem readFraction?_append {fraction : List Char} (stops : Text.Stops Literal.extends more)
    (read : readFraction? text = some (fraction, rest)) :
    readFraction? (text ++ more) = some (fraction, rest ++ more) := by
  unfold readFraction? at read
  split at read
  · exact split?_append stops read
  · rename_i noPoint
    cases read
    unfold readFraction?
    split
    · rename_i others goesOn
      cases text with
      | nil => exact absurd rfl (ne_of_stops stops goesOn).1
      | cons char chars =>
        cases goesOn
        exact absurd rfl (noPoint chars)
    · rfl

theorem readExponentSize?_append {size : Int} (stops : Text.Stops Literal.extends more)
    (read : readExponentSize? text = some (size, rest)) :
    readExponentSize? (text ++ more) = some (size, rest ++ more) := by
  obtain ⟨⟨digits, left⟩, digitsRead, same⟩ := Option.bind_eq_some_iff.mp read
  cases same
  exact Option.bind_eq_some_iff.mpr ⟨_, split?_append stops digitsRead, rfl⟩

theorem readSignedExponent?_append {exponent : Option Int}
    (stops : Text.Stops Literal.extends more)
    (read : readSignedExponent? text = some (exponent, rest)) :
    readSignedExponent? (text ++ more) = some (exponent, rest ++ more) := by
  unfold readSignedExponent? at read
  split at read
  all_goals
    obtain ⟨⟨size, left⟩, sizeRead, same⟩ := Option.bind_eq_some_iff.mp read
    cases same
    have sizeReadOn := readExponentSize?_append stops sizeRead
  · exact Option.bind_eq_some_iff.mpr ⟨_, sizeReadOn, rfl⟩
  · exact Option.bind_eq_some_iff.mpr ⟨_, sizeReadOn, rfl⟩
  · rename_i noPlus noMinus
    cases text with
    | nil => cases sizeRead
    | cons char chars =>
      rw [List.cons_append, readSignedExponent?.eq_3]
      · exact Option.bind_eq_some_iff.mpr ⟨_, sizeReadOn, rfl⟩
      · rintro _ ⟨⟩
        exact noPlus chars rfl
      · rintro _ ⟨⟩
        exact noMinus chars rfl

theorem readExponent?_append {exponent : Option Int} (stops : Text.Stops Literal.extends more)
    (read : readExponent? text = some (exponent, rest)) :
    readExponent? (text ++ more) = some (exponent, rest ++ more) := by
  unfold readExponent? at read
  split at read
  · exact readSignedExponent?_append stops read
  · exact readSignedExponent?_append stops read
  · rename_i noSmall noLarge
    cases read
    cases text with
    | nil =>
      unfold readExponent?
      split
      · rename_i goesOn
        exact absurd rfl (ne_of_stops stops goesOn).2.1
      · rename_i goesOn
        exact absurd rfl (ne_of_stops stops goesOn).2.2
      · rfl
    | cons char chars =>
      rw [List.cons_append, readExponent?.eq_3]
      · rintro _ ⟨⟩
        exact noSmall chars rfl
      · rintro _ ⟨⟩
        exact noLarge chars rfl

/-- What the reader of a literal has read does not depend on what follows. -/
theorem readUnsigned?_append {negative : Bool} {literal : Literal}
    (stops : Text.Stops Literal.extends more)
    (read : readUnsigned? negative text = some (literal, rest)) :
    readUnsigned? negative (text ++ more) = some (literal, rest ++ more) := by
  obtain ⟨⟨whole, afterWhole⟩, wholeRead, read⟩ := Option.bind_eq_some_iff.mp read
  simp only at read
  split at read
  · cases read
  · rename_i leading
    obtain ⟨⟨fraction, afterFraction⟩, fractionRead, read⟩ := Option.bind_eq_some_iff.mp read
    obtain ⟨⟨exponent, afterExponent⟩, exponentRead, same⟩ := Option.bind_eq_some_iff.mp read
    cases same
    refine Option.bind_eq_some_iff.mpr ⟨_, split?_append stops wholeRead, ?_⟩
    simp only
    rw [if_neg leading]
    refine Option.bind_eq_some_iff.mpr ⟨_, readFraction?_append stops fractionRead, ?_⟩
    exact Option.bind_eq_some_iff.mpr ⟨_, readExponent?_append stops exponentRead, rfl⟩

theorem read?_append {literal : Literal} (stops : Text.Stops Literal.extends more)
    (read : read? text = some (literal, rest)) :
    read? (text ++ more) = some (literal, rest ++ more) := by
  unfold read? at read
  split at read
  · exact readUnsigned?_append stops read
  · rename_i noMinus
    cases text with
    | nil => cases read
    | cons char chars =>
      rw [List.cons_append, read?.eq_2]
      · exact readUnsigned?_append stops read
      · rintro _ ⟨⟩
        exact noMinus chars rfl

/-- A literal starts with a digit or a minus sign. -/
theorem exists_of_read? {literal : Literal} (read : read? text = some (literal, rest)) :
    ∃ char others, text = char :: others ∧ (char.isDigit = true ∨ char = '-') := by
  unfold read? at read
  split at read
  · exact ⟨'-', _, rfl, Or.inr rfl⟩
  · cases text with
    | nil => cases read
    | cons char chars =>
      obtain ⟨⟨whole, afterWhole⟩, wholeRead, _⟩ := Option.bind_eq_some_iff.mp read
      unfold Digits.split? at wholeRead
      rw [List.takeWhile_cons] at wholeRead
      cases digit : char.isDigit with
      | true => exact ⟨char, chars, rfl, Or.inl digit⟩
      | false =>
        rw [digit] at wholeRead
        cases wholeRead

end Literal

/-! ### Integers -/

namespace Digits

theorem isDigit_of_mem_ofNat (number : Nat) : ∀ char ∈ ofNat number, char.isDigit = true :=
  fun _ member => Nat.isDigit_of_mem_toDigits (by decide) (by decide) member

theorem value_ofNat (number : Nat) : value (ofNat number) = number :=
  Nat.ofDigitChars_ten_toDigits

theorem split?_ofNat (number : Nat) : split? (ofNat number) = some (ofNat number, []) := by
  have taken := Text.takeWhile_run (isDigit_of_mem_ofNat number) Text.stops_nil
  have dropped := Text.dropWhile_run (isDigit_of_mem_ofNat number) Text.stops_nil
  rw [List.append_nil] at taken dropped
  unfold split?
  rw [taken, dropped]
  split
  · rename_i empty
    exact absurd empty Nat.toDigits_ne_nil
  · rfl

/-- Only zero itself starts with a zero. -/
theorem eq_zero_of_head {number : Nat} (leading : (ofNat number).head? = some '0') :
    number = 0 := by
  induction number using Nat.strongRecOn with
  | ind number inductionHypothesis =>
    by_cases small : number < 10
    · rw [ofNat, Nat.toDigits_of_lt_base small, List.head?_cons] at leading
      have each : ∀ digit < 10, Nat.digitChar digit = '0' → digit = 0 := by decide
      exact each number small (Option.some.inj leading)
    · have large : 10 ≤ number := Nat.not_lt.mp small
      have longer : (ofNat number).head? = (ofNat (number / 10)).head? := by
        rw [ofNat, ofNat, Nat.toDigits_of_base_le (by decide) large]
        cases digits : Nat.toDigits 10 (number / 10) with
        | nil => exact absurd digits Nat.toDigits_ne_nil
        | cons digit others => rfl
      have zero := inductionHypothesis (number / 10) (by omega) (longer ▸ leading)
      omega

end Digits

namespace Literal

theorem readUnsigned?_ofNat (negative : Bool) (number : Nat) :
    readUnsigned? negative (Digits.ofNat number) =
      some (⟨negative, Digits.ofNat number, [], none⟩, []) := by
  have plain : ¬((Digits.ofNat number).head? = some '0' ∧ Digits.ofNat number ≠ ['0']) := by
    rintro ⟨leading, several⟩
    rw [Digits.eq_zero_of_head leading] at several
    exact several rfl
  unfold readUnsigned?
  rw [Digits.split?_ofNat]
  exact if_neg plain

theorem read?_ofNat (number : Nat) :
    read? (Digits.ofNat number) = some (⟨false, Digits.ofNat number, [], none⟩, []) := by
  rw [read?.eq_2]
  · exact readUnsigned?_ofNat false number
  · intro others minus
    have isDigit := Digits.isDigit_of_mem_ofNat number '-' (by rw [minus]; exact List.mem_cons_self)
    cases isDigit

end Literal

namespace Number

theorem number?_negative {size : Nat} (fits : 0 < size ∧ size ≤ 9223372036854775808) :
    Literal.number? ⟨true, Digits.ofNat size, [], none⟩ =
      some (.integer (-size) ⟨by omega, by omega⟩) := by
  simp only [Literal.number?, Literal.integer?, Digits.value_ofNat, and_self, if_true,
    dif_pos fits]

theorem number?_nonnegative {size : Nat} (fits : size < 18446744073709551616) :
    Literal.number? ⟨false, Digits.ofNat size, [], none⟩ =
      some (.integer size ⟨by omega, by omega⟩) := by
  simp only [Literal.number?, Literal.integer?, Digits.value_ofNat, and_self, if_true,
    Bool.false_eq_true, if_false, dif_pos fits]

/-- Every integer in range is read back from its text. -/
theorem readsBack_integer (value : Int)
    (inRange : -9223372036854775808 ≤ value ∧ value < 18446744073709551616) :
    ReadsBack (.integer value inRange) := by
  rw [ReadsBack, text, Digits.ofInt, Json.readNumber]
  by_cases isNegative : value < 0
  · have fits : 0 < value.natAbs ∧ value.natAbs ≤ 9223372036854775808 := by omega
    have same : (-(value.natAbs : Int)) = value := by omega
    rw [if_pos isNegative, Literal.read?, Literal.readUnsigned?_ofNat]
    simp only [Json.Fault.require, bind, Except.bind, number?_negative fits, same]
    rfl
  · have fits : value.natAbs < 18446744073709551616 := by omega
    have same : (value.natAbs : Int) = value := by omega
    rw [if_neg isNegative, Literal.read?_ofNat]
    simp only [Json.Fault.require, bind, Except.bind, number?_nonnegative fits, same]
    rfl

end Number

/-! ### Numbers in a text -/

namespace Json

variable {text rest more : List Char} {document : Json}

theorem readNumber_append (stops : Text.Stops Literal.extends more)
    (read : readNumber text = .ok (document, rest)) :
    readNumber (text ++ more) = .ok (document, rest ++ more) := by
  unfold readNumber at read ⊢
  cases literalRead : Literal.read? text with
  | none =>
    rw [literalRead] at read
    cases read
  | some found =>
    obtain ⟨literal, left⟩ := found
    rw [literalRead] at read
    rw [Literal.read?_append stops literalRead]
    cases value : literal.number? with
    | none =>
      simp only [Fault.require, bind, Except.bind, value] at read
      cases read
    | some number =>
      simp only [Fault.require, bind, Except.bind, pure, Except.pure, value] at read ⊢
      cases read
      rfl

/-- A number starts with a digit or a minus sign. -/
theorem exists_of_readNumber (read : readNumber text = .ok (document, rest)) :
    ∃ char others, text = char :: others ∧ (char.isDigit = true ∨ char = '-') := by
  unfold readNumber at read
  cases literalRead : Literal.read? text with
  | none =>
    rw [literalRead] at read
    cases read
  | some found => exact Literal.exists_of_read? literalRead

end Json

end ListQuery
