/-
This file proves that decoders are certain of JSON values: whether a value is taken
off a text, and as what, is decided by the value alone and not by what follows it.
That is so of the reader of documents, hence of every decoder that streams, and it
is kept by the ways to build decoders from others.
-/

import ListQuery.Proofs.Json.Grammar
import ListQuery.Proofs.Json.Records

namespace ListQuery

namespace Json

variable {Value Other : Type} {value : List Char → Except Fault (Value × List Char)}

/-- A reader is sure of a text when all that it may fail on is known before what follows. -/
theorem decides_of_require {Part : Type} {found : Option Part} {make : Part → Value}
    {text : List Char}
    (same : ∀ rest, Text.Stops Literal.extends rest →
      value (text ++ rest) = (Fault.require found).map fun part => (make part, rest)) :
    Decides value text := by
  intro rest item left stops read
  rw [same rest stops] at read
  cases found with
  | none => cases read
  | some part =>
    cases read
    exact ⟨rfl, same⟩

/-- A reader that is sure of every value, and for which blanks before a value count for nothing. -/
structure Certain (value : List Char → Except Fault (Value × List Char)) : Prop where
  skipsBlanks : SkipsBlanks value
  decides : ∀ {text}, IsValue text → Decides value text

/-! ### Strings and names -/

theorem read?_of_codes {text rest : List Char} {codes : List Nat}
    (read : Quoted.codes? text = some (codes, rest)) :
    Fault.require (Quoted.read? text) =
      (Fault.require (Quoted.join? codes)).map fun chars => (String.ofList chars, rest) := by
  rw [Quoted.read?, read]
  show Fault.require (Quoted.join? codes >>= fun chars => some (String.ofList chars, rest)) = _
  cases Quoted.join? codes <;> rfl

/-- A literal stands for a name. -/
def Names (literal : List Char) (name : String) : Prop :=
  readName literal = .ok (name, [])

theorem names_unique {literal : List Char} {name other : String} (names : Names literal name)
    (others : Names literal other) : name = other := by
  rw [Names, names] at others
  cases others
  rfl

/-- A member stands for a name. One does not when half a surrogate pair stands alone in it. -/
def Member.IsNamed (member : Member) : Prop :=
  ∃ name, Names member.name.core name

/-- A string in quotes stands for a name whatever follows it, or for none. -/
theorem readName_quoted {quoted : List Char} (isQuoted : IsQuoted quoted) :
    ∃ found : Option (List Char), ∀ rest,
      readName (quoted ++ rest) =
        (Fault.require found).map fun chars => (String.ofList chars, rest) := by
  obtain ⟨inner, codes, rfl, read⟩ := codes?_quoted isQuoted
  refine ⟨Quoted.join? codes, fun rest => ?_⟩
  rw [List.cons_append, readName, dropBlanks_of_head (by decide)]
  exact read?_of_codes (read rest)

theorem readName_append {quoted : List Char} (isQuoted : IsQuoted quoted) {name : String}
    (names : Names quoted name) (rest : List Char) :
    readName (quoted ++ rest) = .ok (name, rest) := by
  obtain ⟨found, read⟩ := readName_quoted isQuoted
  rw [Names, ← List.append_nil quoted, read] at names
  rw [read]
  cases found with
  | none => cases names
  | some chars =>
    cases names
    rfl

/-- Where a name is read off a string in quotes, the string stands for that name. -/
theorem names_of_readName {quoted rest left : List Char} (isQuoted : IsQuoted quoted)
    {name : String} (nameRead : readName (quoted ++ rest) = .ok (name, left)) :
    Names quoted name ∧ left = rest := by
  obtain ⟨found, read⟩ := readName_quoted isQuoted
  rw [read] at nameRead
  rw [Names, ← List.append_nil quoted, read]
  cases found with
  | none => cases nameRead
  | some chars =>
    cases nameRead
    exact ⟨rfl, rfl⟩

/-! ### Documents -/

theorem decides_readPair {value : List Char → Except Fault (Json × List Char)} {member : Member}
    (isQuoted : IsQuoted member.name.core) (skipsBlanks : SkipsBlanks value)
    (decides : Decides value member.value.core) : Decides (readPair value) member.core := by
  intro rest pair left stops read
  obtain ⟨name, document⟩ := pair
  obtain ⟨afterName, afterColon, nameRead, colonRead, valueRead⟩ := readPair_eq_ok.mp read
  rw [Member.core, List.append_assoc, List.append_assoc, List.cons_append, List.append_assoc]
    at nameRead
  obtain ⟨names, rfl⟩ := names_of_readName isQuoted nameRead
  rw [readColon_append member.name.blankAfter] at colonRead
  cases colonRead
  obtain ⟨rfl, takes⟩ :=
    decides _ _ _ stops ((skipsBlanks member.value.blankBefore _ _ _).mp valueRead)
  exact ⟨rfl, takes_readPair (readName_append isQuoted names) skipsBlanks takes⟩

theorem decides_read_number {numeral : List Char} (isNumeral : IsNumeral numeral) (depth : Nat) :
    Decides (read depth) numeral := by
  obtain ⟨literal, read⟩ := read?_numeral isNumeral
  obtain ⟨char, others, rfl, numeral⟩ := exists_of_numeral isNumeral
  obtain ⟨solid, _, _, noArray, noObject, _⟩ := ne_of_numeral numeral
  have same : ∀ rest, Text.Stops Literal.extends rest →
      Json.read depth (char :: others ++ rest) =
        (Fault.require literal.number?).map fun number => (Json.number number, rest) := by
    intro rest stops
    have readOn := Literal.read?_append stops read
    rw [List.cons_append, read_cons_eq_readScalar solid noArray noObject,
      readScalar_eq_readNumber numeral, ← List.cons_append, readNumber, readOn]
    show (Fault.require literal.number? >>= fun number => Except.ok (Json.number number, rest)) = _
    cases literal.number? <;> rfl
  exact decides_of_require same

theorem decides_read_string {quoted : List Char} (isQuoted : IsQuoted quoted) (depth : Nat) :
    Decides (read depth) quoted := by
  obtain ⟨inner, codes, rfl, codesRead⟩ := codes?_quoted isQuoted
  have same : ∀ rest, Text.Stops Literal.extends rest →
      Json.read depth ('"' :: inner ++ rest) =
        (Fault.require (Quoted.join? codes)).map fun chars =>
          (Json.string (String.ofList chars), rest) := by
    intro rest _
    rw [List.cons_append, read_cons_eq_readScalar (by decide) (by decide) (by decide), readScalar,
      read?_of_codes (codesRead rest)]
    cases Quoted.join? codes <;> rfl
  exact decides_of_require same

theorem decides_read_word {word : List Char} (known : word ∈ words) (depth : Nat) :
    Decides (read depth) word := by
  have null : Takes (read depth) ['n', 'u', 'l', 'l'] .null :=
    @readsBack_scalar .null rfl (List.forall_mem_nil _) depth
  have yes : Takes (read depth) ['t', 'r', 'u', 'e'] (.boolean true) :=
    @readsBack_scalar (.boolean true) rfl (List.forall_mem_nil _) depth
  have no : Takes (read depth) ['f', 'a', 'l', 's', 'e'] (.boolean false) :=
    @readsBack_scalar (.boolean false) rfl (List.forall_mem_nil _) depth
  simp only [words, List.mem_cons, List.not_mem_nil, or_false] at known
  rcases known with rfl | rfl | rfl
  · exact null.decides
  · exact yes.decides
  · exact no.decides

/-- The reader of documents is sure of an array when it is sure of its elements. -/
theorem decides_read_array {padding : List Char} {elements : List Padded} (blank : Blank padding)
    (starts : ∀ element ∈ elements, Starts element.core)
    (each : ∀ element ∈ elements, ∀ depth, Decides (read depth) element.core) (depth : Nat) :
    Decides (read depth) (arrayText padding elements) := by
  intro rest document left _ read
  rw [arrayText_append] at read
  rcases read_cases read with ⟨less, inner, items, rfl, leads, enclosed, rfl⟩ |
    ⟨_, _, _, _, leads, _, _⟩ | ⟨noArray, _, _, _⟩
  · cases leads
    obtain ⟨rfl, taken⟩ := takes_of_enclosed (skipsBlanks_read less) (.inl rfl)
      (dropBlanks_of_head (by decide) rest) blank starts
      (fun element member => each element member less) enclosed
    refine ⟨rfl, fun more _ => ?_⟩
    rw [arrayText_append]
    exact read_array_of_takes (dropBlanks_of_head (by decide) more) blank starts taken
  · cases leads
  · exact absurd rfl (noArray _)

/-- The reader of documents is sure of an object when it is sure of the values in it. -/
theorem decides_read_object {padding : List Char} {members : List Member} (blank : Blank padding)
    (valid : ∀ member ∈ members, member.IsValid)
    (each : ∀ member ∈ members, ∀ depth, Decides (read depth) member.value.core) (depth : Nat) :
    Decides (read depth) (objectText padding members) := by
  have starts : ∀ element ∈ members.map Member.element, Starts element.core := by
    rw [List.forall_mem_map]
    exact fun member held => (valid member held).starts
  intro rest document left _ read
  rw [objectText_append] at read
  rcases read_cases read with ⟨_, _, _, _, leads, _, _⟩ |
    ⟨less, inner, pairs, rfl, leads, enclosed, rfl⟩ | ⟨_, noObject, _, _⟩
  · cases leads
  · cases leads
    have sure : ∀ element ∈ members.map Member.element,
        Decides (readPair (Json.read less)) element.core := by
      rw [List.forall_mem_map]
      exact fun member held => decides_readPair (valid member held).name (skipsBlanks_read less)
        (each member held less)
    obtain ⟨rfl, taken⟩ := takes_of_enclosed skipsBlanks_readPair (.inr rfl)
      (dropBlanks_of_head (by decide) rest) blank starts sure enclosed
    refine ⟨rfl, fun more _ => ?_⟩
    rw [objectText_append]
    exact read_object_of_takes (dropBlanks_of_head (by decide) more) blank starts taken
  · exact absurd rfl (noObject _)

/-- The reader of documents is sure of every value. -/
theorem decides_read {text : List Char} (isValue : IsValue text) (depth : Nat) :
    Decides (read depth) text := by
  induction isValue generalizing depth with
  | word known => exact decides_read_word known depth
  | number isNumeral => exact decides_read_number isNumeral depth
  | string isQuoted => exact decides_read_string isQuoted depth
  | array blank each inductionHypothesis =>
    exact decides_read_array blank (fun element member => (each element member).starts)
      inductionHypothesis depth
  | object blank names each inductionHypothesis =>
    exact decides_read_object blank (fun member held => ⟨names member held, each member held⟩)
      inductionHypothesis depth

/-! ### Decoders -/

namespace Decoder

variable {decoder : Decoder Value} {depth : Nat} {text : List Char}

/-- A decoder that streams takes what the documents decode to that are taken. -/
theorem takes_of_streams (streams : decoder.Streams) {document : Json} {value : Value}
    (takes : Takes (Json.read depth) text document)
    (decoded : decoder.ofJson document = .ok value) :
    Takes (decoder.read depth) text value :=
  fun rest stops => streams.mpr ⟨document, takes rest stops, decoded⟩

theorem certain_of_streams (streams : decoder.Streams) (depth : Nat) :
    Certain (decoder.read depth) := by
  constructor
  · intro blanks blank text value rest
    rw [streams, streams]
    simp only [skipsBlanks_read depth blank]
  · intro text isValue rest value left stops read
    obtain ⟨document, documentRead, decoded⟩ := streams.mp read
    obtain ⟨same, takes⟩ := decides_read isValue depth _ _ _ stops documentRead
    exact ⟨same, takes_of_streams streams takes decoded⟩

theorem read_map_eq_ok {change : Value → Other} {item : Other} {rest : List Char} :
    (decoder.map change).read depth text = .ok (item, rest) ↔
      ∃ value, decoder.read depth text = .ok (value, rest) ∧ item = change value := by
  simp only [map]
  rw [Traversal.bind_eq_ok]
  constructor
  · rintro ⟨⟨value, left⟩, read, same⟩
    cases same
    exact ⟨value, read, rfl⟩
  · rintro ⟨value, read, rfl⟩
    exact ⟨(value, rest), read, rfl⟩

theorem certain_map (certain : Certain (decoder.read depth)) (change : Value → Other) :
    Certain ((decoder.map change).read depth) := by
  constructor
  · intro blanks blank text item rest
    simp only [read_map_eq_ok, certain.skipsBlanks blank]
  · intro text isValue rest item left stops read
    obtain ⟨value, valueRead, rfl⟩ := read_map_eq_ok.mp read
    obtain ⟨same, takes⟩ := certain.decides isValue _ _ _ stops valueRead
    exact ⟨same, fun more moreStops => read_map_eq_ok.mpr ⟨value, takes more moreStops, rfl⟩⟩

/-- A value that does not start like null is read as it is without the choice of null. -/
theorem read_nullable_eq_ok {char : Char} (solid : isBlank char = false) (noNull : char ≠ 'n')
    {others rest : List Char} {item : Option Value} :
    decoder.nullable.read depth (char :: others) = .ok (item, rest) ↔
      ∃ value, decoder.read depth (char :: others) = .ok (value, rest) ∧ item = some value := by
  simp only [nullable, dropBlanks_of_head solid]
  split
  · rename_i same
    exact absurd (List.cons.inj same).1 noNull
  · rw [Traversal.bind_eq_ok]
    constructor
    · rintro ⟨⟨value, left⟩, read, same⟩
      cases same
      exact ⟨value, read, rfl⟩
    · rintro ⟨value, read, rfl⟩
      exact ⟨(value, rest), read, rfl⟩

theorem read_nullable_null (rest : List Char) :
    decoder.nullable.read depth (['n', 'u', 'l', 'l'] ++ rest) = .ok (none, rest) := rfl

/-- Only null itself starts like null. -/
theorem eq_null_of_head {others : List Char} (isValue : IsValue ('n' :: others)) :
    'n' :: others = ['n', 'u', 'l', 'l'] := by
  generalize whole : 'n' :: others = text at isValue
  cases isValue with
  | word known =>
    simp only [words, List.mem_cons, List.not_mem_nil, or_false] at known
    rcases known with rfl | rfl | rfl
    · rfl
    · cases whole
    · cases whole
  | number isNumeral =>
    obtain ⟨char, more, rfl, numeral⟩ := exists_of_numeral isNumeral
    cases whole
    rcases numeral with digit | minus
    · cases digit
    · cases minus
  | string isQuoted =>
    obtain ⟨inner, _, rfl, _⟩ := codes?_quoted isQuoted
    cases whole
  | array _ _ => cases whole
  | object _ _ _ => cases whole

theorem certain_nullable (certain : Certain (decoder.read depth)) :
    Certain (decoder.nullable.read depth) := by
  constructor
  · exact skipsBlanks_of_dropBlanks fun text => by
      simp only [nullable, dropBlanks_dropBlanks]
  · intro text isValue
    obtain ⟨char, others, rfl, solid, _⟩ := isValue.starts
    by_cases null : char = 'n'
    · subst null
      rw [eq_null_of_head isValue]
      have takes : Takes (decoder.nullable.read depth) ['n', 'u', 'l', 'l'] none :=
        fun rest _ => read_nullable_null rest
      exact takes.decides
    · intro rest item left stops read
      obtain ⟨value, valueRead, rfl⟩ := (read_nullable_eq_ok solid null).mp read
      obtain ⟨same, takes⟩ := certain.decides isValue _ _ _ stops valueRead
      exact ⟨same, fun more moreStops =>
        (read_nullable_eq_ok solid null).mpr ⟨value, takes more moreStops, rfl⟩⟩

/-- A field that may be missing takes what its decoder takes off a text that does not start like
null. -/
theorem takes_present {Record : Type} {set : Option Value → Record → Record} (starts : Starts text)
    (noNull : text.head? ≠ some 'n') {value : Value}
    (takes : Takes (decoder.read depth) text value) :
    Takes ((decoder.nullable.map set).read depth) text (set (some value)) := by
  intro rest stops
  obtain ⟨char, others, rfl, solid, _⟩ := starts
  have notNull : char ≠ 'n' := fun same => noNull (congrArg some same)
  exact read_map_eq_ok.mpr ⟨_,
    (read_nullable_eq_ok solid notNull).mpr ⟨value, takes rest stops, rfl⟩, rfl⟩

/-- What a field that may be missing makes of a document that is read back is taken off its text. -/
theorem takes_read_back {Record : Type} {set : Option Value → Record → Record} {document : Json}
    {value : Value} {change : Record → Record} (present : document ≠ .null)
    (back : decoder.ofJson document = .ok value)
    (decoded : (decoder.nullable.map set).ofJson document = .ok change) (starts : Starts text)
    (noNull : text.head? ≠ some 'n') (takes : Takes (decoder.read depth) text value) :
    Takes ((decoder.nullable.map set).read depth) text change := by
  obtain ⟨found, foundDecoded, same⟩ := Traversal.bind_eq_ok.mp decoded
  cases same
  rcases ofJson_nullable.mp foundDecoded with ⟨null, _⟩ | ⟨_, other, otherDecoded, rfl⟩
  · exact absurd null present
  · rw [back] at otherDecoded
    cases otherDecoded
    exact takes_present starts noNull takes

/-- A field that may be missing takes what its decoder takes, but for null. -/
theorem takes_optional (certain : Certain (decoder.read depth)) {Record : Type}
    {set : Option Value → Record → Record} (isValue : IsValue text)
    (noNull : text.head? ≠ some 'n') {change : Record → Record} :
    Takes ((decoder.nullable.map set).read depth) text change ↔
      ∃ value, Takes (decoder.read depth) text value ∧ change = set (some value) := by
  constructor
  · intro takes
    obtain ⟨char, others, rfl, solid, _⟩ := isValue.starts
    have notNull : char ≠ 'n' := fun same => noNull (congrArg some same)
    obtain ⟨item, read, rfl⟩ := read_map_eq_ok.mp (takes [] Text.stops_nil)
    obtain ⟨value, valueRead, rfl⟩ := (read_nullable_eq_ok solid notNull).mp read
    obtain ⟨_, valueTakes⟩ := certain.decides isValue _ _ _ Text.stops_nil valueRead
    exact ⟨value, valueTakes, rfl⟩
  · rintro ⟨value, takes, rfl⟩
    exact takes_present isValue.starts noNull takes

/-- A field that may be missing takes one value as another, on some condition, when its decoder
does, but for null. -/
theorem takes_optional_congr (certain : Certain (decoder.read depth)) {Record : Type}
    {set : Option Value → Record → Record} {other : List Char} (isValue : IsValue text)
    (noNull : text.head? ≠ some 'n') (otherIsValue : IsValue other)
    (otherNoNull : other.head? ≠ some 'n') {condition : Prop}
    (same : ∀ value, Takes (decoder.read depth) other value ↔
      Takes (decoder.read depth) text value ∧ condition) {change : Record → Record} :
    Takes ((decoder.nullable.map set).read depth) other change ↔
      Takes ((decoder.nullable.map set).read depth) text change ∧ condition := by
  rw [takes_optional certain isValue noNull, takes_optional certain otherIsValue otherNoNull,
    ← exists_and_right]
  exact exists_congr fun value => by rw [same, and_right_comm]

/-! ### Whole texts -/

/-- What a whole text holds is what is taken off it without the blanks around it. -/
theorem ofText_eq_ok (skipsBlanks : SkipsBlanks (decoder.read maxOpen))
    (decides : Decides (decoder.read maxOpen) text) {lead trail : List Char}
    (leadBlank : Blank lead) (trailBlank : Blank trail) {whole : String}
    (parts : whole.toList = lead ++ (text ++ trail)) {value : Value} :
    decoder.ofText whole = .ok value ↔ Takes (decoder.read maxOpen) text value := by
  have stops := stops_of_blank trailBlank
  rw [ofText, ofChars, Traversal.bind_eq_ok, parts]
  constructor
  · rintro ⟨⟨other, left⟩, read, finished⟩
    obtain ⟨_, _, same⟩ := Traversal.bind_eq_ok.mp finished
    cases same
    exact (decides _ _ _ stops ((skipsBlanks leadBlank _ _ _).mp read)).2
  · intro takes
    exact ⟨_, (skipsBlanks leadBlank _ _ _).mpr (takes trail stops),
      Traversal.bind_eq_ok.mpr ⟨(), if_pos (List.all_eq_true.mpr trailBlank), rfl⟩⟩

end Decoder

end Json

end ListQuery
