/-
This file proves that a string is read back from its quoted form, whatever follows
the closing quote. Writing turns each character into itself or into an escape, and
either is read as the code of that character; no character is half of a surrogate
pair, so joining leaves all codes as they are.
-/

import ListQuery.Json.Quoted

namespace ListQuery

namespace Quoted

variable {text rest : List Char} {codes : List Nat}

/-! ### One step of the reader -/

theorem codes?_raw {char : Char} (noQuote : char ≠ '"') (noEscape : char ≠ '\\')
    (printable : 0x20 ≤ char.toNat) (read : codes? text = some (codes, rest)) :
    codes? (char :: text) = some (char.toNat :: codes, rest) := by
  rw [codes?.eq_5 char text noQuote (fun _ _ _ _ _ same => absurd same noEscape)
    (fun _ _ same => absurd same noEscape), if_neg (Nat.not_lt.mpr printable), read]
  rfl

theorem codes?_short {letter : Char} {code : Nat} (notHex : letter ≠ 'u')
    (escape : shortEscape? letter = some code) (read : codes? text = some (codes, rest)) :
    codes? ('\\' :: letter :: text) = some (code :: codes, rest) := by
  rw [codes?.eq_4 letter text fun _ _ _ _ _ same => absurd same notHex, escape, read]
  rfl

theorem codes?_hex {first second third fourth : Char} {code : Nat}
    (value : Digits.hexValue4? first second third fourth = some code)
    (read : codes? text = some (codes, rest)) :
    codes? ('\\' :: 'u' :: first :: second :: third :: fourth :: text) =
      some (code :: codes, rest) := by
  rw [codes?, value, read]
  rfl

/-! ### Reading what was written -/

theorem hexValue?_digitChar {digit : Nat} (small : digit < 16) :
    Digits.hexValue? (Nat.digitChar digit) = some digit := by
  have each : ∀ digit < 16, Digits.hexValue? (Nat.digitChar digit) = some digit := by decide
  exact each digit small

/-- The two digits of a control character, behind two zeros, have its code as their value. -/
theorem hexValue4?_control {code : Nat} (control : code < 0x20) :
    Digits.hexValue4? '0' '0' (Nat.digitChar (code / 16)) (Nat.digitChar (code % 16)) =
      some code := by
  have zero : Digits.hexValue? '0' = some 0 := by decide
  have split : ((0 * 16 + 0) * 16 + code / 16) * 16 + code % 16 = code := by omega
  rw [Digits.hexValue4?, zero, hexValue?_digitChar (show code / 16 < 16 by omega),
    hexValue?_digitChar (show code % 16 < 16 by omega)]
  exact congrArg some split

/-- A written character is read as its code. -/
theorem codes?_writeChar (char : Char) (read : codes? text = some (codes, rest)) :
    codes? (writeChar char ++ text) = some (char.toNat :: codes, rest) := by
  unfold writeChar
  split
  · rename_i marked
    rcases marked with rfl | rfl
    · exact codes?_short (by decide) rfl read
    · exact codes?_short (by decide) rfl read
  split
  · rename_i same
    subst same
    exact codes?_short (by decide) rfl read
  split
  · rename_i same
    subst same
    exact codes?_short (by decide) rfl read
  split
  · rename_i same
    subst same
    exact codes?_short (by decide) rfl read
  split
  · rename_i same
    subst same
    exact codes?_short (by decide) rfl read
  split
  · rename_i same
    subst same
    exact codes?_short (by decide) rfl read
  split
  · rename_i control
    exact codes?_hex (hexValue4?_control control) read
  · rename_i unmarked _ _ _ _ _ printable
    rw [not_or] at unmarked
    exact codes?_raw unmarked.1 unmarked.2 (Nat.not_lt.mp printable) read

theorem codes?_write (chars rest : List Char) :
    codes? (chars.flatMap writeChar ++ '"' :: rest) = some (chars.map Char.toNat, rest) := by
  induction chars with
  | nil => rw [List.flatMap_nil, List.nil_append, codes?, List.map_nil]
  | cons char chars inductionHypothesis =>
    rw [List.flatMap_cons, List.append_assoc]
    exact codes?_writeChar char inductionHypothesis

/-- The code of a character is no half of a surrogate pair. -/
theorem whole_toNat (char : Char) :
    isLeading char.toNat = false ∧ isTrailing char.toNat = false := by
  have valid : char.toNat < 0xd800 ∨ 0xdfff < char.toNat ∧ char.toNat < 0x110000 := char.valid
  unfold isLeading isTrailing
  simp only [Bool.and_eq_false_iff, decide_eq_false_iff_not]
  omega

theorem join?_map_toNat (chars : List Char) : join? (chars.map Char.toNat) = some chars := by
  induction chars with
  | nil => rfl
  | cons char rest inductionHypothesis =>
    obtain ⟨notLeading, notTrailing⟩ := whole_toNat char
    cases rest with
    | nil =>
      rw [List.map_cons, List.map_nil, join?, notLeading, notTrailing, Char.ofNat_toNat]
      rfl
    | cons next others =>
      rw [List.map_cons, List.map_cons, join?, if_neg (notLeading ▸ Bool.false_ne_true),
        if_neg (notTrailing ▸ Bool.false_ne_true), ← List.map_cons, inductionHypothesis,
        Char.ofNat_toNat]
      rfl

/-- A string is read back from its quoted form, behind the opening quote. -/
theorem read?_write (string : String) (rest : List Char) :
    read? (string.toList.flatMap writeChar ++ '"' :: rest) = some (string, rest) := by
  rw [read?, codes?_write]
  show (do let chars ← join? (string.toList.map Char.toNat); return (String.ofList chars, rest)) = _
  rw [join?_map_toNat]
  exact congrArg (fun read => some (read, rest)) String.ofList_toList

end Quoted

end ListQuery
