/-
This file reads percent-encoded text and proves that reading undoes writing. That
holds whichever bytes are left as they are, as long as none of them is outside
ASCII or a mark that means something in a query: such a mark never shows in the
written text, so a query can be split at its marks before its parts are read.
-/

import ListQuery.Proofs.Relation.Bytes
import ListQuery.Text.Percent

namespace ListQuery

namespace Percent

/-! ### Reading -/

/-- The bytes of a percent-encoded text. A percent sign that two hexadecimal digits do not follow
stands for itself. -/
def decodeBytes : List Char → List UInt8
  | '%' :: high :: low :: rest =>
    match Digits.hexValue? high, Digits.hexValue? low with
    | some upper, some lower => UInt8.ofNat (upper * 16 + lower) :: decodeBytes rest
    | _, _ => String.utf8EncodeChar '%' ++ decodeBytes (high :: low :: rest)
  | char :: rest => String.utf8EncodeChar char ++ decodeBytes rest
  | [] => []

/-- The text that a percent-encoded text stands for, if its bytes are those of a text. -/
def decode? (text : List Char) : Option String :=
  String.fromUTF8? ⟨(decodeBytes text).toArray⟩

theorem decodeBytes_cons {char : Char} (other : char ≠ '%') (rest : List Char) :
    decodeBytes (char :: rest) = String.utf8EncodeChar char ++ decodeBytes rest := by
  rw [decodeBytes]
  rintro high low left ⟨⟩
  exact absurd rfl other

/-! ### Marks -/

/-- The marks that mean something in a query or end it. -/
def marks : List Char := ['%', '&', '=', '+', '#', ' ']

/-- No mark of a query is left as it is, and nothing outside ASCII. -/
def KeepsMarks (plain : UInt8 → Bool) : Prop :=
  ∀ byte, plain byte = true → byte.toNat < 128 ∧ Char.ofNat byte.toNat ∉ marks

variable {plain : UInt8 → Bool}

theorem toNat_ofNat_ascii {code : Nat} (ascii : code < 128) : (Char.ofNat code).toNat = code := by
  have valid : code.isValidChar := Or.inl (by omega)
  rw [Char.ofNat, dif_pos valid]
  rfl

/-- The bytes that are plain by custom are no marks. -/
theorem keepsMarks_isPlain : KeepsMarks isPlain := by
  intro byte plain
  simp only [isPlain, Bool.and_eq_true, decide_eq_true_iff, Bool.not_eq_true'] at plain
  obtain ⟨⟨low, high⟩, unreserved⟩ := plain
  have ascii : byte.toNat < 128 := Nat.lt_of_le_of_lt high (by decide)
  have each : marks.all (fun mark => mark == ' ' || reserved.contains mark) = true := by decide
  refine ⟨ascii, fun member => ?_⟩
  rcases Bool.or_eq_true_iff.mp (List.all_eq_true.mp each _ member) with blank | held
  · have same := toNat_ofNat_ascii ascii
    rw [eq_of_beq blank] at same
    exact absurd (same ▸ low) (by decide)
  · exact Bool.noConfusion (unreserved.symm.trans held)

/-- A byte of ASCII is the only byte of its character. -/
theorem encodeChar_ofNat {byte : UInt8} (ascii : byte.toNat < 128) :
    String.utf8EncodeChar (Char.ofNat byte.toNat) = [byte] := by
  have same := toNat_ofNat_ascii ascii
  have low : (Char.ofNat byte.toNat).toNat < 128 := lt_of_eq_of_lt same ascii
  rw [Outline.encodeChar_ascii low, List.singleton_inj, ← UInt8.toNat_inj,
    Outline.toNat_toUInt8 low, same]

theorem hexValue?_hexDigit {value : Nat} (digit : value < 16) :
    Digits.hexValue? (hexDigit value) = some value := by
  have each : ∀ digit : Fin 16, Digits.hexValue? (hexDigit digit) = some digit.val := by decide
  exact each ⟨value, digit⟩

theorem hexDigit_not_mem_marks {value : Nat} (digit : value < 16) :
    hexDigit value ∉ marks := by
  have each : ∀ digit : Fin 16, hexDigit digit ∉ marks := by decide
  exact each ⟨value, digit⟩

/-- The only mark in a written byte is the percent sign. -/
theorem not_mem_encodeByte (keeps : KeepsMarks plain) {mark : Char} (marked : mark ∈ marks)
    (other : mark ≠ '%') (byte : UInt8) : mark ∉ encodeByte plain byte := by
  have size := byte.toNat_lt
  unfold encodeByte
  split
  case isTrue isPlain =>
    rintro member
    cases List.mem_singleton.mp member
    exact (keeps byte isPlain).2 marked
  case isFalse =>
    have upper := hexDigit_not_mem_marks (show byte.toNat / 16 < 16 by omega)
    have lower := hexDigit_not_mem_marks (show byte.toNat % 16 < 16 by omega)
    simp only [List.mem_cons, List.not_mem_nil, or_false, not_or]
    exact ⟨other, fun same => upper (same ▸ marked), fun same => lower (same ▸ marked)⟩

/-- The only mark in a written text is the percent sign. -/
theorem not_mem_encode (keeps : KeepsMarks plain) {mark : Char} (marked : mark ∈ marks)
    (other : mark ≠ '%') (text : String) : mark ∉ (encode plain text).toList := by
  rw [encode, String.toList_ofList, List.mem_flatMap]
  rintro ⟨byte, _, member⟩
  exact not_mem_encodeByte keeps marked other byte member

/-! ### Reading what was written -/

/-- A written byte is read back, whatever follows it. -/
theorem decodeBytes_encodeByte (keeps : KeepsMarks plain) (byte : UInt8) (rest : List Char) :
    decodeBytes (encodeByte plain byte ++ rest) = byte :: decodeBytes rest := by
  have size := byte.toNat_lt
  unfold encodeByte
  split
  case isTrue isPlain =>
    obtain ⟨ascii, unmarked⟩ := keeps byte isPlain
    have other : Char.ofNat byte.toNat ≠ '%' := fun same => unmarked (same ▸ by decide)
    rw [List.singleton_append, decodeBytes_cons other, encodeChar_ofNat ascii,
      List.singleton_append]
  case isFalse =>
    have upper := hexValue?_hexDigit (show byte.toNat / 16 < 16 by omega)
    have lower := hexValue?_hexDigit (show byte.toNat % 16 < 16 by omega)
    have whole : byte.toNat / 16 * 16 + byte.toNat % 16 = byte.toNat := by omega
    rw [List.cons_append, List.cons_append, List.cons_append, List.nil_append, decodeBytes]
    simp only [upper, lower, whole, UInt8.ofNat_toNat]

theorem decodeBytes_flatMap (keeps : KeepsMarks plain) (bytes : List UInt8) :
    decodeBytes (bytes.flatMap (encodeByte plain)) = bytes := by
  induction bytes with
  | nil => rfl
  | cons byte rest inductionHypothesis =>
    rw [List.flatMap_cons, decodeBytes_encodeByte keeps, inductionHypothesis]

/-- A written text is read back. -/
theorem decode?_encode (keeps : KeepsMarks plain) (text : String) :
    decode? (encode plain text).toList = some text := by
  rw [decode?, encode, String.toList_ofList, decodeBytes_flatMap keeps]
  exact dif_pos text.isValidUTF8

end Percent

end ListQuery
