/-
This file relates the bytes of an input to its characters. A position at which a text
starts splits the bytes where it splits the characters, and the bytes of a character
above ASCII are all above ASCII themselves. So looking for a brace or a comma among
the bytes finds the character, and finds it where a character starts.
-/

import ListQuery.Relation.Outline.Cursor

namespace ListQuery

namespace Outline

/-! ### Counting bytes -/

theorem byteCount_append (first second : List Char) :
    byteCount (first ++ second) = byteCount first + byteCount second := by
  induction first with
  | nil => exact (Nat.zero_add _).symm
  | cons char rest inductionHypothesis =>
    rw [List.cons_append, byteCount, byteCount, inductionHypothesis, Nat.add_assoc]

theorem byteCount_pos {text : List Char} (nonempty : text ≠ []) : 0 < byteCount text := by
  obtain ⟨char, rest, rfl⟩ := List.exists_cons_of_ne_nil nonempty
  exact Nat.lt_of_lt_of_le char.utf8Size_pos (Nat.le_add_right _ _)

theorem length_le_byteCount (text : List Char) : text.length ≤ byteCount text := by
  induction text with
  | nil => exact Nat.le_refl 0
  | cons char rest inductionHypothesis =>
    have size := char.utf8Size_pos
    rw [List.length_cons, byteCount]
    omega

theorem utf8ByteSize_ofList (text : List Char) :
    (String.ofList text).utf8ByteSize = byteCount text := by
  induction text with
  | nil => rfl
  | cons char rest inductionHypothesis =>
    rw [← List.singleton_append, String.ofList_append, String.utf8ByteSize_append,
      inductionHypothesis, ← String.singleton_eq_ofList, String.utf8ByteSize_singleton]
    rfl

theorem byteCount_toList (input : String) : byteCount input.toList = input.utf8ByteSize := by
  rw [← utf8ByteSize_ofList, String.ofList_toList]

/-! ### Bytes of characters -/

/-- The bytes of a text. -/
def encoded (text : List Char) : List UInt8 :=
  text.flatMap String.utf8EncodeChar

theorem encoded_append (first second : List Char) :
    encoded (first ++ second) = encoded first ++ encoded second :=
  List.flatMap_append

theorem encoded_cons (char : Char) (rest : List Char) :
    encoded (char :: rest) = String.utf8EncodeChar char ++ encoded rest :=
  List.flatMap_cons

theorem length_encoded (text : List Char) : (encoded text).length = byteCount text := by
  induction text with
  | nil => rfl
  | cons char rest inductionHypothesis =>
    rw [encoded_cons, List.length_append, inductionHypothesis, String.length_utf8EncodeChar,
      byteCount]

theorem bytes_eq_encoded (input : String) : bytes input = encoded input.toList := by
  show input.toByteArray.data.toList = _
  rw [← String.utf8Encode_toList, List.utf8Encode, List.data_toByteArray]
  rfl

theorem length_bytes (input : String) : (bytes input).length = input.utf8ByteSize := by
  rw [bytes_eq_encoded, length_encoded, byteCount_toList]

theorem encodeChar_ne_nil (char : Char) : String.utf8EncodeChar char ≠ [] := by
  rw [← List.length_pos_iff, String.length_utf8EncodeChar]
  exact char.utf8Size_pos

theorem encoded_eq_nil_iff {text : List Char} : encoded text = [] ↔ text = [] := by
  constructor
  · intro empty
    cases text with
    | nil => rfl
    | cons char rest => exact absurd (List.append_eq_nil_iff.mp empty).1 (encodeChar_ne_nil char)
  · rintro rfl
    rfl

theorem utf8Size_ascii {char : Char} (ascii : char.toNat < 128) : char.utf8Size = 1 := by
  rw [Char.utf8Size_eq_one_iff, UInt32.le_iff_toNat_le]
  exact Nat.le_of_lt_succ ascii

/-- A character of ASCII is one byte. -/
theorem encodeChar_ascii {char : Char} (ascii : char.toNat < 128) :
    String.utf8EncodeChar char = [char.toUInt8] :=
  String.utf8EncodeChar_eq_singleton (utf8Size_ascii ascii)

/-- All bytes of other characters are above ASCII. -/
theorem le_of_mem_encodeChar {char : Char} (high : 128 ≤ char.toNat) :
    ∀ byte ∈ String.utf8EncodeChar char, 128 ≤ byte.toNat := by
  unfold Char.toNat at high
  fun_cases String.utf8EncodeChar char
  case case1 => omega
  all_goals
    simp only [List.forall_mem_cons, List.not_mem_nil, false_implies, implies_true, and_true,
      UInt8.toNat_ofNat']
    omega

/-- A byte of ASCII is among the bytes of no other character than its own. -/
theorem ascii_of_mem_encodeChar {char : Char} {byte : UInt8}
    (member : byte ∈ String.utf8EncodeChar char) (ascii : byte.toNat < 128) :
    char.toNat < 128 ∧ byte = char.toUInt8 := by
  have low : char.toNat < 128 := Nat.lt_of_not_le fun high =>
    Nat.not_lt.mpr (le_of_mem_encodeChar high byte member) ascii
  rw [encodeChar_ascii low, List.mem_singleton] at member
  exact ⟨low, member⟩

theorem toNat_toUInt8 {char : Char} (ascii : char.toNat < 128) :
    char.toUInt8.toNat = char.toNat :=
  (UInt32.toNat_toUInt8 char.val).trans (Nat.mod_eq_of_lt (Nat.lt_trans ascii (by decide)))

theorem toUInt8_eq_iff {char mark : Char} (ascii : char.toNat < 128) (marks : mark.toNat < 128) :
    char.toUInt8 = mark.toUInt8 ↔ char = mark := by
  rw [← UInt8.toNat_inj, toNat_toUInt8 ascii, toNat_toUInt8 marks, Char.toNat_inj]

/-- The bytes of a text start with the byte of a character of ASCII exactly when the text starts
with that character. -/
theorem head?_encoded {mark : Char} (ascii : mark.toNat < 128) (text : List Char) :
    (encoded text).head? = some mark.toUInt8 ↔ text.head? = some mark := by
  cases text with
  | nil => exact ⟨nofun, nofun⟩
  | cons char rest =>
    rw [encoded_cons, List.head?_cons]
    constructor
    · intro starts
      have member : mark.toUInt8 ∈ String.utf8EncodeChar char := by
        cases same : String.utf8EncodeChar char with
        | nil => exact absurd same (encodeChar_ne_nil char)
        | cons byte others =>
          rw [same] at starts
          cases starts
          exact List.mem_cons_self
      obtain ⟨low, same⟩ := ascii_of_mem_encodeChar member (by rwa [toNat_toUInt8 ascii])
      exact congrArg some ((toUInt8_eq_iff low ascii).mp same.symm)
    · rintro ⟨⟩
      rw [encodeChar_ascii ascii]
      rfl

/-- A byte of ASCII stands where a character starts. -/
theorem exists_of_ascii {text : List Char} {position : Nat} {byte : UInt8}
    (held : (encoded text)[position]? = some byte) (ascii : byte.toNat < 128) :
    ∃ passed rest, text = passed ++ rest ∧ position = byteCount passed := by
  induction text generalizing position with
  | nil => cases held
  | cons char rest inductionHypothesis =>
    rw [encoded_cons, List.getElem?_append] at held
    split at held
    · rename_i inside
      obtain ⟨low, _⟩ := ascii_of_mem_encodeChar (List.mem_of_getElem? held) ascii
      rw [encodeChar_ascii low, List.length_singleton, Nat.lt_one_iff] at inside
      exact ⟨[], char :: rest, rfl, inside⟩
    · rename_i outside
      obtain ⟨passed, left, rfl, counted⟩ := inductionHypothesis held
      rw [String.length_utf8EncodeChar] at outside counted
      refine ⟨char :: passed, left, rfl, ?_⟩
      rw [byteCount]
      omega

/-! ### Positions -/

/-- A run at a position of an input stands before the text that is left there. -/
def StandsBefore (input : String) (position : Nat) (text : List Char) : Prop :=
  ∃ passed, input.toList = passed ++ text ∧ position = byteCount passed

theorem eq_append_of_toList {input : String} {passed text : List Char}
    (parts : input.toList = passed ++ text) :
    input = String.ofList passed ++ String.ofList text := by
  rw [← String.ofList_append, ← parts, String.ofList_toList]

theorem standsBefore_start (input : String) : StandsBefore input 0 input.toList :=
  ⟨[], rfl, rfl⟩

/-- A byte of ASCII is one that a run can stand at. -/
theorem standsBefore_of_ascii {input : String} {position : Nat} {byte : UInt8}
    (held : (bytes input)[position]? = some byte) (ascii : byte.toNat < 128) :
    ∃ text, StandsBefore input position text := by
  rw [bytes_eq_encoded] at held
  obtain ⟨passed, text, parts, counted⟩ := exists_of_ascii held ascii
  exact ⟨text, passed, parts, counted⟩

/-- A position within an input, where a character starts or the input ends. -/
structure Boundary (input : String) (position : Nat) : Prop where
  within : position ≤ input.utf8ByteSize
  isValid : String.Pos.Raw.IsValid input ⟨position⟩

namespace StandsBefore

variable {input : String} {position next : Nat} {text front rest : List Char}

theorem size (stands : StandsBefore input position text) :
    position + byteCount text = input.utf8ByteSize := by
  obtain ⟨passed, parts, rfl⟩ := stands
  rw [← byteCount_append, ← parts, byteCount_toList]

theorem boundary (stands : StandsBefore input position text) : Boundary input position := by
  refine ⟨Nat.le.intro stands.size, ?_⟩
  obtain ⟨passed, parts, rfl⟩ := stands
  refine String.Pos.Raw.isValid_iff_exists_append.mpr
    ⟨String.ofList passed, String.ofList text, eq_append_of_toList parts, ?_⟩
  rw [← utf8ByteSize_ofList]
  rfl

theorem onward (stands : StandsBefore input position (front ++ rest)) :
    StandsBefore input (position + byteCount front) rest := by
  obtain ⟨passed, parts, rfl⟩ := stands
  exact ⟨passed ++ front, by rw [parts, List.append_assoc], (byteCount_append passed front).symm⟩

/-- Of two texts that are left at positions, the longer one ends with the other. -/
theorem suffix_of_length_le (stands : StandsBefore input position text)
    (other : StandsBefore input next rest) (shorter : text.length ≤ rest.length) :
    ∃ front, rest = front ++ text ∧ position = next + byteCount front := by
  have sizes := stands.size.trans other.size.symm
  obtain ⟨passed, parts, _⟩ := stands
  obtain ⟨others, otherParts, _⟩ := other
  obtain ⟨front, rfl⟩ := List.suffix_of_suffix_length_le ⟨passed, parts.symm⟩
    ⟨others, otherParts.symm⟩ shorter
  rw [byteCount_append] at sizes
  exact ⟨front, rfl, by omega⟩

/-- Further on in an input less text is left. -/
theorem length_lt (stands : StandsBefore input position text)
    (further : StandsBefore input next rest) (less : position < next) :
    rest.length < text.length := by
  refine Nat.lt_of_not_le fun longer => ?_
  obtain ⟨front, _, same⟩ := stands.suffix_of_length_le further longer
  omega

/-- One text is left at a position. -/
theorem unique (stands : StandsBefore input position text)
    (other : StandsBefore input position rest) : text = rest := by
  have shorter : ∀ {first second}, StandsBefore input position first →
      StandsBefore input position second → first.length ≤ second.length → first = second := by
    intro first second firstStands secondStands less
    obtain ⟨front, rfl, same⟩ := firstStands.suffix_of_length_le secondStands less
    cases front with
    | nil => rfl
    | cons char front => exact absurd (byteCount_pos (List.cons_ne_nil char front)) (by omega)
  rcases Nat.le_total text.length rest.length with less | less
  · exact shorter stands other less
  · exact (shorter other stands less).symm

theorem drop_bytes (stands : StandsBefore input position text) :
    (bytes input).drop position = encoded text := by
  obtain ⟨passed, parts, rfl⟩ := stands
  rw [bytes_eq_encoded, parts, encoded_append, ← length_encoded, List.drop_left]

theorem getElem?_bytes (stands : StandsBefore input position text) :
    (bytes input)[position]? = (encoded text).head? := by
  rw [← stands.drop_bytes, List.head?_drop]

/-- The byte at a position is that of a character of ASCII exactly when the character is there. -/
theorem getElem?_eq_some_iff (stands : StandsBefore input position text) {mark : Char}
    (ascii : mark.toNat < 128) :
    (bytes input)[position]? = some mark.toUInt8 ↔ text.head? = some mark := by
  rw [stands.getElem?_bytes]
  exact head?_encoded ascii text

section Marks

variable {mark : Char} {Value : Type} {found missed : Value}

theorem if_mark (stands : StandsBefore input position text) (ascii : mark.toNat < 128)
    (starts : text.head? = some mark) :
    (if (bytes input)[position]? = some mark.toUInt8 then found else missed) = found :=
  if_pos ((stands.getElem?_eq_some_iff ascii).mpr starts)

theorem if_noMark (stands : StandsBefore input position text) (ascii : mark.toNat < 128)
    (starts : ¬text.head? = some mark) :
    (if (bytes input)[position]? = some mark.toUInt8 then found else missed) = missed :=
  if_neg fun held => starts ((stands.getElem?_eq_some_iff ascii).mp held)

end Marks

theorem getElem?_eq_none_iff (stands : StandsBefore input position text) :
    (bytes input)[position]? = none ↔ text = [] := by
  rw [stands.getElem?_bytes, List.head?_eq_none_iff, encoded_eq_nil_iff]

/-- The position exists in the string, and splits the string before the text that is left. -/
theorem exists_splits (stands : StandsBefore input position text) :
    ∃ found : input.Pos, input.pos? ⟨position⟩ = some found ∧
      ∀ {passed}, input.toList = passed ++ text →
        found.Splits (String.ofList passed) (String.ofList text) := by
  have inSlice := String.Pos.Raw.isValidForSlice_eq_true_iff.mpr stands.boundary.isValid.toSlice
  refine ⟨input.pos ⟨position⟩ stands.boundary.isValid, ?_,
    fun {passed} parts => ⟨eq_append_of_toList parts, ?_⟩⟩
  · rw [String.pos?, String.Slice.pos?, dif_pos inSlice]
    rfl
  · have counted := stands.size
    rw [← byteCount_toList, parts, byteCount_append, Nat.add_right_cancel_iff] at counted
    exact String.Pos.Raw.ext (counted.trans (utf8ByteSize_ofList passed).symm)

/-- The piece of the input between two positions is the text between them. -/
theorem slice {piece : List Char} (stands : StandsBefore input position (piece ++ rest))
    (cursor : Cursor) :
    Run.slice input position (position + byteCount piece) cursor =
      .ok (String.ofList piece)
        { cursor with log := .sliced position (position + byteCount piece) :: cursor.log } := by
  have ⟨passed, parts, _⟩ := stands
  obtain ⟨first, firstFound, firstSplits⟩ := stands.exists_splits
  obtain ⟨last, lastFound, lastSplits⟩ := stands.onward.exists_splits
  obtain ⟨ordered, copied⟩ := String.copy_slice_eq_iff_splits.mpr
    ⟨String.ofList passed, String.ofList rest, String.ofList_append ▸ firstSplits parts,
      String.ofList_append ▸ lastSplits (parts.trans (List.append_assoc _ _ _).symm)⟩
  have taken : input.extract first last = String.ofList piece :=
    (String.extract_eq_copy_slice first last ordered).trans copied
  unfold Run.slice
  rw [firstFound, lastFound]
  simp only [if_pos ordered, taken]
  rfl

end StandsBefore

end Outline

end ListQuery
