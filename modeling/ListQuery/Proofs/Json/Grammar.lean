/-
This file says what a JSON text is without reading it, and proves two things of the
readers. What is skipped is skipped whole, however deep it is and whatever its
numbers and strings stand for. And the reader of documents is sure of every such
text: it may refuse one, for its depth or for what it stands for, but what it reads
is the whole of it, and what follows does not matter.
-/

import ListQuery.Proofs.Json.Elements

namespace ListQuery

namespace Json

/-! ### Numerals -/

/-- A run of decimal digits, at least one. -/
structure IsDigits (text : List Char) : Prop where
  nonempty : text ≠ []
  digits : ∀ char ∈ text, char.isDigit = true

/-- The digits before the point; a zero in front stands alone. -/
structure IsWhole (text : List Char) : Prop extends IsDigits text where
  noLeadingZero : text.head? = some '0' → text = ['0']

/-- The digits behind the point, with the point, or nothing. -/
inductive IsFraction : List Char → Prop
  | none : IsFraction []
  | digits {digits : List Char} (isDigits : IsDigits digits) : IsFraction ('.' :: digits)

/-- An exponent with its mark and an optional sign, or nothing. -/
inductive IsExponent : List Char → Prop
  | none : IsExponent []
  | digits {mark : Char} {sign digits : List Char} (marks : mark = 'e' ∨ mark = 'E')
      (signs : sign = [] ∨ sign = ['+'] ∨ sign = ['-']) (isDigits : IsDigits digits) :
      IsExponent (mark :: (sign ++ digits))

/-- The text of a number. -/
inductive IsNumeral : List Char → Prop
  | of {sign whole fraction exponent : List Char} (signs : sign = [] ∨ sign = ['-'])
      (isWhole : IsWhole whole) (isFraction : IsFraction fraction)
      (isExponent : IsExponent exponent) :
      IsNumeral (sign ++ (whole ++ (fraction ++ exponent)))

section Numerals

variable {digits rest : List Char}

theorem split?_digits (isDigits : IsDigits digits) (stops : Text.Stops Char.isDigit rest) :
    Digits.split? (digits ++ rest) = some (digits, rest) := by
  rw [Digits.split?, Text.takeWhile_run isDigits.digits stops,
    Text.dropWhile_run isDigits.digits stops]
  split
  · exact absurd rfl isDigits.nonempty
  · rfl

theorem readExponentSize?_digits (isDigits : IsDigits digits) :
    Literal.readExponentSize? digits = some ((Digits.value digits : Int), []) := by
  have split := split?_digits isDigits Text.stops_nil
  rw [List.append_nil] at split
  rw [Literal.readExponentSize?, split]
  rfl

theorem readSignedExponent?_digits {sign : List Char}
    (signs : sign = [] ∨ sign = ['+'] ∨ sign = ['-']) (isDigits : IsDigits digits) :
    ∃ exponent, Literal.readSignedExponent? (sign ++ digits) = some (exponent, []) := by
  have size := readExponentSize?_digits isDigits
  rcases signs with rfl | rfl | rfl
  · refine ⟨some (Digits.value digits : Int), ?_⟩
    rw [List.nil_append, Literal.readSignedExponent?.eq_3, size]
    · rfl
    · rintro others rfl
      cases isDigits.digits '+' List.mem_cons_self
    · rintro others rfl
      cases isDigits.digits '-' List.mem_cons_self
  · refine ⟨some (Digits.value digits : Int), ?_⟩
    rw [List.singleton_append, Literal.readSignedExponent?, size]
    rfl
  · refine ⟨some (-(Digits.value digits : Int)), ?_⟩
    rw [List.singleton_append, Literal.readSignedExponent?, size]
    rfl

theorem readExponent?_exponent {exponent : List Char} (isExponent : IsExponent exponent) :
    ∃ value, Literal.readExponent? exponent = some (value, []) := by
  cases isExponent with
  | none => exact ⟨none, rfl⟩
  | digits marks signs isDigits =>
    obtain ⟨value, read⟩ := readSignedExponent?_digits signs isDigits
    rcases marks with rfl | rfl <;> exact ⟨value, read⟩

theorem stops_exponent {exponent : List Char} (isExponent : IsExponent exponent) :
    Text.Stops Char.isDigit exponent := by
  cases isExponent with
  | none => exact Text.stops_nil
  | digits marks _ _ => rcases marks with rfl | rfl <;> exact Text.stops_cons (by decide)

theorem stops_fraction {fraction exponent : List Char} (isFraction : IsFraction fraction)
    (isExponent : IsExponent exponent) : Text.Stops Char.isDigit (fraction ++ exponent) := by
  cases isFraction with
  | none => exact stops_exponent isExponent
  | digits _ => exact Text.stops_cons (by decide)

theorem readFraction?_fraction {fraction exponent : List Char} (isFraction : IsFraction fraction)
    (isExponent : IsExponent exponent) :
    ∃ digits, Literal.readFraction? (fraction ++ exponent) = some (digits, exponent) := by
  cases isFraction with
  | none =>
    refine ⟨[], ?_⟩
    cases isExponent with
    | none => rfl
    | digits marks _ _ => rcases marks with rfl | rfl <;> rfl
  | @digits digits isDigits =>
    exact ⟨digits, split?_digits isDigits (stops_exponent isExponent)⟩

theorem readUnsigned?_numeral {whole fraction exponent : List Char} (isWhole : IsWhole whole)
    (isFraction : IsFraction fraction) (isExponent : IsExponent exponent) (negative : Bool) :
    ∃ literal, Literal.readUnsigned? negative (whole ++ (fraction ++ exponent)) =
      some (literal, []) := by
  obtain ⟨fractionDigits, fractionRead⟩ := readFraction?_fraction isFraction isExponent
  obtain ⟨value, exponentRead⟩ := readExponent?_exponent isExponent
  have wholeRead := split?_digits isWhole.toIsDigits (stops_fraction isFraction isExponent)
  have leading : ¬(whole.head? = some '0' ∧ whole ≠ ['0']) := fun ⟨zero, several⟩ =>
    several (isWhole.noLeadingZero zero)
  refine ⟨⟨negative, whole, fractionDigits, value⟩, ?_⟩
  refine Option.bind_eq_some_iff.mpr ⟨_, wholeRead, ?_⟩
  simp only
  rw [if_neg leading]
  refine Option.bind_eq_some_iff.mpr ⟨_, fractionRead, ?_⟩
  exact Option.bind_eq_some_iff.mpr ⟨_, exponentRead, rfl⟩

/-- A numeral is read whole, as a literal. -/
theorem read?_numeral {numeral : List Char} (isNumeral : IsNumeral numeral) :
    ∃ literal, Literal.read? numeral = some (literal, []) := by
  obtain ⟨signs, isWhole, isFraction, isExponent⟩ := isNumeral
  rcases signs with rfl | rfl
  · obtain ⟨literal, read⟩ := readUnsigned?_numeral isWhole isFraction isExponent false
    refine ⟨literal, ?_⟩
    rw [List.nil_append, Literal.read?.eq_2]
    · exact read
    · intro others minus
      obtain ⟨char, more, rfl⟩ := List.exists_cons_of_ne_nil isWhole.nonempty
      cases minus
      cases isWhole.digits '-' List.mem_cons_self
  · obtain ⟨literal, read⟩ := readUnsigned?_numeral isWhole isFraction isExponent true
    exact ⟨literal, read⟩

end Numerals

/-! ### Strings -/

/-- The digits of an escape that gives a code. -/
def hexDigits : List Char :=
  ['0', '1', '2', '3', '4', '5', '6', '7', '8', '9', 'a', 'b', 'c', 'd', 'e', 'f', 'A', 'B', 'C',
    'D', 'E', 'F']

/-- A part of a string: a character that is no control character, or an escape. -/
inductive IsPiece : List Char → Prop
  | raw {char : Char} (printable : 0x20 ≤ char.toNat) (noQuote : char ≠ '"')
      (noEscape : char ≠ '\\') : IsPiece [char]
  | short {letter : Char} (known : letter ∈ ['"', '\\', '/', 'b', 'f', 'n', 'r', 't']) :
      IsPiece ['\\', letter]
  | hex {first second third fourth : Char}
      (digits : ∀ digit ∈ [first, second, third, fourth], digit ∈ hexDigits) :
      IsPiece ['\\', 'u', first, second, third, fourth]

/-- A string in quotes. Escapes may give halves of surrogate pairs that stand alone. -/
inductive IsQuoted : List Char → Prop
  | of {pieces : List (List Char)} (each : ∀ piece ∈ pieces, IsPiece piece) :
      IsQuoted ('"' :: (pieces.flatten ++ ['"']))

theorem exists_hexValue? {digit : Char} (known : digit ∈ hexDigits) :
    ∃ value, Digits.hexValue? digit = some value := by
  have each : hexDigits.all (fun digit => (Digits.hexValue? digit).isSome) = true := by decide
  exact Option.isSome_iff_exists.mp (List.all_eq_true.mp each digit known)

theorem exists_hexValue4? {first second third fourth : Char}
    (known : ∀ digit ∈ [first, second, third, fourth], digit ∈ hexDigits) :
    ∃ code, Digits.hexValue4? first second third fourth = some code := by
  simp only [List.forall_mem_cons, List.not_mem_nil, false_implies, implies_true, and_true] at known
  obtain ⟨_, firstRead⟩ := exists_hexValue? known.1
  obtain ⟨_, secondRead⟩ := exists_hexValue? known.2.1
  obtain ⟨_, thirdRead⟩ := exists_hexValue? known.2.2.1
  obtain ⟨_, fourthRead⟩ := exists_hexValue? known.2.2.2
  rw [Digits.hexValue4?, firstRead, secondRead, thirdRead, fourthRead]
  exact ⟨_, rfl⟩

theorem exists_shortEscape? {letter : Char}
    (known : letter ∈ ['"', '\\', '/', 'b', 'f', 'n', 'r', 't']) :
    letter ≠ 'u' ∧ ∃ code, Quoted.shortEscape? letter = some code := by
  have each : ['"', '\\', '/', 'b', 'f', 'n', 'r', 't'].all
      (fun letter => letter != 'u' && (Quoted.shortEscape? letter).isSome) = true := by decide
  obtain ⟨notHex, found⟩ := Bool.and_eq_true_iff.mp (List.all_eq_true.mp each letter known)
  exact ⟨bne_iff_ne.mp notHex, Option.isSome_iff_exists.mp found⟩

/-- The codes of a string are read up to its closing quote, whatever follows. -/
theorem codes?_pieces {pieces : List (List Char)} (each : ∀ piece ∈ pieces, IsPiece piece) :
    ∃ codes, ∀ rest, Quoted.codes? (pieces.flatten ++ '"' :: rest) = some (codes, rest) := by
  induction pieces with
  | nil => exact ⟨[], fun rest => by rw [List.flatten_nil, List.nil_append, Quoted.codes?]⟩
  | cons piece pieces inductionHypothesis =>
    obtain ⟨isPiece, others⟩ := List.forall_mem_cons.mp each
    obtain ⟨codes, read⟩ := inductionHypothesis others
    simp only [List.flatten_cons, List.append_assoc]
    cases isPiece with
    | raw printable noQuote noEscape =>
      exact ⟨_, fun rest => Quoted.codes?_raw noQuote noEscape printable (read rest)⟩
    | short known =>
      obtain ⟨notHex, code, escape⟩ := exists_shortEscape? known
      exact ⟨_, fun rest => Quoted.codes?_short notHex escape (read rest)⟩
    | hex digits =>
      obtain ⟨code, value⟩ := exists_hexValue4? digits
      exact ⟨_, fun rest => Quoted.codes?_hex value (read rest)⟩

/-- What the characters of a string are does not depend on what follows, if it has any. -/
theorem codes?_quoted {quoted : List Char} (isQuoted : IsQuoted quoted) :
    ∃ inner codes, quoted = '"' :: inner ∧
      ∀ rest, Quoted.codes? (inner ++ rest) = some (codes, rest) := by
  obtain ⟨each⟩ := isQuoted
  obtain ⟨codes, read⟩ := codes?_pieces each
  refine ⟨_, codes, rfl, fun rest => ?_⟩
  rw [List.append_assoc, List.singleton_append]
  exact read rest

/-! ### Values -/

/-- The text of an array. -/
def arrayText (padding : List Char) (elements : List Padded) : List Char :=
  '[' :: (padding ++ (listed Padded.text elements ++ [']']))

/-- The text of an object. -/
def objectText (padding : List Char) (members : List Member) : List Char :=
  '\x7b' :: (padding ++ (listed Padded.text (members.map Member.element) ++ ['\x7d']))

theorem arrayText_append (padding : List Char) (elements : List Padded) (rest : List Char) :
    arrayText padding elements ++ rest =
      '[' :: (padding ++ (listed Padded.text elements ++ ']' :: rest)) := by
  rw [arrayText, List.cons_append, List.append_assoc, List.append_assoc, List.singleton_append]

theorem objectText_append (padding : List Char) (members : List Member) (rest : List Char) :
    objectText padding members ++ rest =
      '\x7b' ::
        (padding ++ (listed Padded.text (members.map Member.element) ++ '\x7d' :: rest)) := by
  rw [objectText, List.cons_append, List.append_assoc, List.append_assoc, List.singleton_append]

theorem write_object (members : List (String × Json)) :
    (Json.object members).write = objectText [] (members.map Member.bare) := by
  rw [write, writeMembers_eq_bare, objectText, List.nil_append]

/-- The words that are values. -/
def words : List (List Char) :=
  [['n', 'u', 'l', 'l'], ['t', 'r', 'u', 'e'], ['f', 'a', 'l', 's', 'e']]

/-- The text of a JSON value, without blanks around it. -/
inductive IsValue : List Char → Prop
  | word {word : List Char} (known : word ∈ words) : IsValue word
  | number {numeral : List Char} (isNumeral : IsNumeral numeral) : IsValue numeral
  | string {quoted : List Char} (isQuoted : IsQuoted quoted) : IsValue quoted
  | array {padding : List Char} {elements : List Padded} (blank : Blank padding)
      (each : ∀ element ∈ elements, IsValue element.core) : IsValue (arrayText padding elements)
  | object {padding : List Char} {members : List Member} (blank : Blank padding)
      (names : ∀ member ∈ members, IsQuoted member.name.core)
      (each : ∀ member ∈ members, IsValue member.value.core) :
      IsValue (objectText padding members)

/-- A member with a string for its name and with any value. -/
structure Member.IsValid (member : Member) : Prop where
  name : IsQuoted member.name.core
  value : IsValue member.value.core

/-! ### The starts of values -/

theorem exists_of_numeral {numeral : List Char} (isNumeral : IsNumeral numeral) :
    ∃ char others, numeral = char :: others ∧ (char.isDigit = true ∨ char = '-') := by
  obtain ⟨_, read⟩ := read?_numeral isNumeral
  exact Literal.exists_of_read? read

/-- A value starts neither with a blank nor with a closing bracket. -/
theorem IsValue.starts {text : List Char} (isValue : IsValue text) : Starts text := by
  cases isValue with
  | word known =>
    simp only [words, List.mem_cons, List.not_mem_nil, or_false] at known
    rcases known with rfl | rfl | rfl <;> exact starts_cons (by decide) (by decide) (by decide) _
  | number isNumeral =>
    obtain ⟨char, others, leads, numeral⟩ := exists_of_numeral isNumeral
    obtain ⟨solid, noBracket, noBrace, _⟩ := ne_of_numeral numeral
    exact ⟨char, others, leads, solid, noBracket, noBrace⟩
  | string isQuoted =>
    obtain ⟨inner, _, rfl, _⟩ := codes?_quoted isQuoted
    exact starts_cons (by decide) (by decide) (by decide) _
  | array _ _ => exact starts_cons (by decide) (by decide) (by decide) _
  | object _ _ _ => exact starts_cons (by decide) (by decide) (by decide) _

theorem Member.IsValid.starts {member : Member} (isValid : member.IsValid) :
    Starts member.core := by
  obtain ⟨inner, _, leads, _⟩ := codes?_quoted isValid.name
  rw [Member.core, leads]
  exact starts_cons (by decide) (by decide) (by decide) _

/-! ### Skipping -/

section Skipping

variable {skipValue : List Char → Except Fault (List Char)} {rest : List Char}

theorem skipItem_eq_ok {text : List Char} :
    skipItem skipValue () text = .ok ((), rest) ↔ skipValue text = .ok rest := by
  rw [skipItem, Traversal.bind_eq_ok]
  constructor
  · rintro ⟨left, read, same⟩
    cases same
    exact read
  · exact fun read => ⟨rest, read, rfl⟩

/-- A step without a state only reads. -/
theorem follows_unit (step : Unit → List Char → Except Fault (Unit × List Char)) :
    Follows (fun _ => True) step (step ()) fun _ _ => .ok () := by
  refine ⟨fun _ => ?_, fun _ _ => trivial⟩
  exact fun {text next rest} => ⟨fun read => ⟨next, read, rfl⟩, fun ⟨_, read, _⟩ => read⟩

theorem foldlM_unit (elements : List Padded) :
    (elements.map fun _ => ()).foldlM (fun _ _ => .ok ()) () = (.ok () : Except Fault Unit) :=
  List.foldlM_pure

/-- A container is skipped when its elements are. -/
theorem foldElements_unit {step : Unit → List Char → Except Fault (Unit × List Char)}
    {close : Char} {padding : List Char} {elements : List Padded}
    (skipsBlanks : SkipsBlanks (step ()))
    (closes : close = ']' ∨ close = '\x7d') (blank : Blank padding)
    (starts : ∀ element ∈ elements, Starts element.core)
    (taken : ∀ element ∈ elements, Takes (step ()) element.core ()) (rest : List Char) :
    foldElements close step () (padding ++ (listed Padded.text elements ++ close :: rest)) =
      .ok ((), rest) := by
  have ends : dropBlanks (close :: rest) = close :: rest :=
    dropBlanks_of_head (by rcases closes with rfl | rfl <;> decide) rest
  refine foldElements_of_takes (follows_unit step) skipsBlanks closes ends blank starts ?_ trivial
    (foldlM_unit elements)
  rw [List.forall₂_map_right_iff, List.forall₂_same]
  exact taken

theorem skipWithin_dropBlanks (depth : Nat) (text : List Char) :
    skipWithin depth (dropBlanks text) = skipWithin depth text := by
  cases depth with
  | zero => rw [skipWithin, skipWithin, dropBlanks_dropBlanks]
  | succ depth => rw [skipWithin, skipWithin, dropBlanks_dropBlanks]

theorem skipsBlanks_skipItem (depth : Nat) : SkipsBlanks (skipItem (skipWithin depth) ()) :=
  skipsBlanks_of_dropBlanks fun text => by rw [skipItem, skipItem, skipWithin_dropBlanks]

theorem skipName_dropBlanks (text : List Char) : skipName (dropBlanks text) = skipName text := by
  rw [skipName, skipName, dropBlanks_dropBlanks]

theorem skipsBlanks_skipMember : SkipsBlanks (skipMember skipValue ()) :=
  skipsBlanks_of_dropBlanks fun text => by rw [skipMember, skipMember, skipName_dropBlanks]

theorem skipString_quoted {quoted : List Char} (isQuoted : IsQuoted quoted) :
    ∃ inner, quoted = '"' :: inner ∧ ∀ rest, skipString (inner ++ rest) = .ok rest := by
  obtain ⟨inner, codes, leads, read⟩ := codes?_quoted isQuoted
  refine ⟨inner, leads, fun rest => ?_⟩
  rw [skipString, read]
  rfl

theorem takes_skipMember {member : Member} (isQuoted : IsQuoted member.name.core)
    (skipsBlanks : SkipsBlanks (skipItem skipValue ()))
    (takes : Takes (skipItem skipValue ()) member.value.core ()) :
    Takes (skipMember skipValue ()) member.core () := by
  intro rest stops
  obtain ⟨inner, leads, skipped⟩ := skipString_quoted isQuoted
  have valueSkipped := skipItem_eq_ok.mp
    ((skipsBlanks member.value.blankBefore _ _ _).mpr (takes rest stops))
  rw [Member.core, leads, List.append_assoc, List.append_assoc, List.cons_append, List.cons_append,
    List.append_assoc, skipMember]
  refine Traversal.bind_eq_ok.mpr
    ⟨member.name.after ++ ':' :: (member.value.before ++ (member.value.core ++ rest)), ?_, ?_⟩
  · rw [skipName, dropBlanks_of_head (by decide)]
    exact skipped _
  · refine Traversal.bind_eq_ok.mpr ⟨_, readColon_append member.name.blankAfter _, ?_⟩
    exact Traversal.bind_eq_ok.mpr ⟨_, valueSkipped, rfl⟩

/-- What starts with a character that is no bracket is skipped as no container. -/
theorem skip_cons_eq_skipScalar {char : Char} (solid : isBlank char = false) (noArray : char ≠ '[')
    (noObject : char ≠ '\x7b') (depth : Nat) (others : List Char) :
    skipWithin depth (char :: others) = skipScalar (char :: others) := by
  cases depth with
  | zero => rw [skipWithin, dropBlanks_of_head solid]
  | succ depth =>
    rw [skipWithin, dropBlanks_of_head solid]
    split
    · rename_i same
      exact absurd (List.cons.inj same).1 noArray
    · rename_i same
      exact absurd (List.cons.inj same).1 noObject
    · rfl

theorem skipScalar_eq_skipNumber {char : Char} (numeral : char.isDigit = true ∨ char = '-')
    (others : List Char) : skipScalar (char :: others) = skipNumber (char :: others) := by
  obtain ⟨_, _, _, _, _, noNull, noTrue, noFalse, noQuote⟩ := ne_of_numeral numeral
  unfold skipScalar
  split
  · rename_i same
    exact absurd (List.cons.inj same).1 noQuote
  · rename_i same
    exact absurd (List.cons.inj same).1 noNull
  · rename_i same
    exact absurd (List.cons.inj same).1 noTrue
  · rename_i same
    exact absurd (List.cons.inj same).1 noFalse
  · rfl

/-- An element is no longer than the elements of its container together. -/
theorem length_le_listed {elements : List Padded} {element : Padded} (member : element ∈ elements) :
    element.core.length ≤ (listed Padded.text elements).length := by
  have own : element.core.length ≤ element.text.length := by
    rw [Padded.text, List.length_append, List.length_append]
    omega
  refine own.trans ?_
  cases elements with
  | nil => cases member
  | cons first others =>
    rw [listed, List.length_append]
    rcases List.mem_cons.mp member with rfl | later
    · exact Nat.le_add_right _ _
    · obtain ⟨before, behind, rfl⟩ := List.append_of_mem later
      rw [List.flatMap_append, List.flatMap_cons, List.length_append, List.length_append,
        List.length_cons]
      omega

theorem takes_skip_word {word : List Char} (known : word ∈ words) (depth : Nat) :
    Takes (skipItem (skipWithin depth) ()) word () := by
  intro rest _
  rw [skipItem_eq_ok]
  simp only [words, List.mem_cons, List.not_mem_nil, or_false] at known
  rcases known with rfl | rfl | rfl <;>
    exact skip_cons_eq_skipScalar (by decide) (by decide) (by decide) depth _

theorem takes_skip_number {numeral : List Char} (isNumeral : IsNumeral numeral) (depth : Nat) :
    Takes (skipItem (skipWithin depth) ()) numeral () := by
  intro rest stops
  obtain ⟨literal, read⟩ := read?_numeral isNumeral
  obtain ⟨char, others, rfl, numeral⟩ := exists_of_numeral isNumeral
  obtain ⟨solid, _, _, noArray, noObject, _⟩ := ne_of_numeral numeral
  have readOn := Literal.read?_append stops read
  rw [skipItem_eq_ok, List.cons_append, skip_cons_eq_skipScalar solid noArray noObject,
    skipScalar_eq_skipNumber numeral, skipNumber, ← List.cons_append, readOn]
  rfl

theorem takes_skip_string {quoted : List Char} (isQuoted : IsQuoted quoted) (depth : Nat) :
    Takes (skipItem (skipWithin depth) ()) quoted () := by
  intro rest _
  obtain ⟨inner, rfl, skipped⟩ := skipString_quoted isQuoted
  rw [skipItem_eq_ok, List.cons_append, skip_cons_eq_skipScalar (by decide) (by decide)
    (by decide)]
  exact skipped rest

/-- An array is skipped with one level more than its elements are. -/
theorem takes_skip_array {padding : List Char} {elements : List Padded} (blank : Blank padding)
    (starts : ∀ element ∈ elements, Starts element.core) {depth : Nat}
    (each : ∀ element ∈ elements, Takes (skipItem (skipWithin depth) ()) element.core ()) :
    Takes (skipItem (skipWithin (depth + 1)) ()) (arrayText padding elements) () := by
  intro rest _
  have skipped := foldElements_unit (skipsBlanks_skipItem depth) (.inl rfl) blank starts each rest
  rw [skipItem_eq_ok, arrayText_append, skipWithin, dropBlanks_of_head (by decide)]
  exact Traversal.bind_eq_ok.mpr ⟨_, skipped, rfl⟩

/-- An object is skipped with one level more than the values in it are. -/
theorem takes_skip_object {padding : List Char} {members : List Member} (blank : Blank padding)
    (valid : ∀ member ∈ members, member.IsValid) {depth : Nat}
    (each : ∀ member ∈ members, Takes (skipItem (skipWithin depth) ()) member.value.core ()) :
    Takes (skipItem (skipWithin (depth + 1)) ()) (objectText padding members) () := by
  intro rest _
  have starts : ∀ element ∈ members.map Member.element, Starts element.core := by
    rw [List.forall_mem_map]
    exact fun member held => (valid member held).starts
  have taken : ∀ element ∈ members.map Member.element,
      Takes (skipMember (skipWithin depth) ()) element.core () := by
    rw [List.forall_mem_map]
    exact fun member held =>
      takes_skipMember (valid member held).name (skipsBlanks_skipItem depth) (each member held)
  have skipped := foldElements_unit skipsBlanks_skipMember (.inr rfl) blank starts taken rest
  rw [skipItem_eq_ok, objectText_append, skipWithin, dropBlanks_of_head (by decide)]
  exact Traversal.bind_eq_ok.mpr ⟨_, skipped, rfl⟩

/-- Every value is skipped whole. -/
theorem takes_skip {text : List Char} (isValue : IsValue text) {depth : Nat}
    (enough : text.length ≤ depth) : Takes (skipItem (skipWithin depth) ()) text () := by
  induction isValue generalizing depth with
  | word known => exact takes_skip_word known depth
  | number isNumeral => exact takes_skip_number isNumeral depth
  | string isQuoted => exact takes_skip_string isQuoted depth
  | @array padding elements blank each inductionHypothesis =>
    rw [arrayText, List.length_cons, List.length_append, List.length_append] at enough
    obtain ⟨depth, rfl⟩ : ∃ less, depth = less + 1 := ⟨depth - 1, by omega⟩
    have room : ∀ element ∈ elements, element.core.length ≤ depth := by
      intro element member
      have within := length_le_listed member
      omega
    exact takes_skip_array blank (fun element member => (each element member).starts)
      fun element member => inductionHypothesis element member (room element member)
  | @object padding members blank names each inductionHypothesis =>
    rw [objectText, List.length_cons, List.length_append, List.length_append] at enough
    obtain ⟨depth, rfl⟩ : ∃ less, depth = less + 1 := ⟨depth - 1, by omega⟩
    have room : ∀ member ∈ members, member.value.core.length ≤ depth := by
      intro member held
      have within := length_le_listed (List.mem_map_of_mem (f := Member.element) held)
      simp only [Member.element, Member.core, List.length_append, List.length_cons] at within
      omega
    exact takes_skip_object blank (fun member held => ⟨names member held, each member held⟩)
      fun member held => inductionHypothesis member held (room member held)

end Skipping

end Json

end ListQuery
