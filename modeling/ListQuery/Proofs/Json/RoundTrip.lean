/-
This file proves that a document is read back from its compact text, whatever
follows that text, as long as its numbers are read back and the reader allows as
many open containers as the document has. The members of an object are read back
one by one even when names repeat; only the object itself then is another one.
-/

import ListQuery.Json.Printer
import ListQuery.Proofs.Json.Number
import ListQuery.Proofs.Json.Quoted
import ListQuery.Proofs.Json.Reading

namespace ListQuery

namespace Json

/-! ### Lists of texts -/

section Listed

variable {Value : Type} {write : Value → List Char} {close : Char}
  {value : List Char → Except Fault (Value × List Char)}

/-- The texts of values with commas between them. -/
def listed (write : Value → List Char) : List Value → List Char
  | [] => []
  | item :: rest => write item ++ rest.flatMap fun item => ',' :: write item

/-- A text starts like a value: not with a blank and not with a closing bracket. -/
def Starts (text : List Char) : Prop :=
  ∃ char others, text = char :: others ∧ isBlank char = false ∧ char ≠ ']' ∧ char ≠ '\x7d'

/-- A value is read back from its text, whatever follows it except for more of a number. -/
def ReadsBack (value : List Char → Except Fault (Value × List Char)) (write : Value → List Char)
    (item : Value) : Prop :=
  ∀ rest, Text.Stops Literal.extends rest → value (write item ++ rest) = .ok (item, rest)

theorem dropBlanks_of_head {char : Char} (solid : isBlank char = false) (rest : List Char) :
    dropBlanks (char :: rest) = char :: rest := by
  rw [dropBlanks, List.dropWhile_cons, solid]
  rfl

theorem series_listed (closes : close = ']' ∨ close = '\x7d') {item : Value} {items : List Value}
    (each : ∀ other ∈ item :: items, ReadsBack value write other) (after : List Char) :
    Series close value (write item ++ (items.flatMap (fun item => ',' :: write item) ++
      close :: after)) (item :: items) after := by
  induction items generalizing item with
  | nil =>
    have solid : isBlank close = false := by rcases closes with rfl | rfl <;> decide
    have stops : Text.Stops Literal.extends (close :: after) :=
      Text.stops_cons (by rcases closes with rfl | rfl <;> decide)
    exact .last (each item List.mem_cons_self _ stops) (dropBlanks_of_head solid after)
  | cons next items inductionHypothesis =>
    rw [List.flatMap_cons, List.append_assoc, List.cons_append]
    refine .more (each item List.mem_cons_self _ (Text.stops_cons (by decide)))
      (dropBlanks_of_head (by decide) _) ?_
    exact inductionHypothesis fun other member => each other (List.mem_cons_of_mem _ member)

/-- Values that are read back one by one are read back from a list in brackets. -/
theorem enclosed_listed (closes : close = ']' ∨ close = '\x7d') {items : List Value}
    (starts : ∀ item ∈ items, Starts (write item))
    (each : ∀ item ∈ items, ReadsBack value write item) (after : List Char) :
    Enclosed close value (listed write items ++ close :: after) items after := by
  cases items with
  | nil =>
    have solid : isBlank close = false := by rcases closes with rfl | rfl <;> decide
    exact .empty (dropBlanks_of_head solid after)
  | cons item items =>
    have series := series_listed closes each after
    obtain ⟨char, others, leads, solid, noBracket, noBrace⟩ := starts item List.mem_cons_self
    have unclosed : char ≠ close := by
      rcases closes with rfl | rfl
      · exact noBracket
      · exact noBrace
    rw [listed, List.append_assoc]
    rw [leads, List.cons_append] at series ⊢
    exact .nonempty (dropBlanks_of_head solid _) unclosed series

end Listed

/-! ### Written containers -/

theorem writeMoreItems_eq_flatMap (items : List Json) :
    writeMoreItems items = items.flatMap fun item => ',' :: item.write := by
  induction items with
  | nil => rfl
  | cons item rest inductionHypothesis =>
    rw [writeMoreItems, inductionHypothesis, List.flatMap_cons, List.cons_append]

theorem writeItems_eq_listed (items : List Json) : writeItems items = listed write items := by
  cases items with
  | nil => rfl
  | cons item rest => rw [writeItems, writeMoreItems_eq_flatMap, listed]

/-- The text of one member. -/
def writeMember (member : String × Json) : List Char :=
  Quoted.write member.1 ++ ':' :: member.2.write

theorem writeMoreMembers_eq_flatMap (members : List (String × Json)) :
    writeMoreMembers members = members.flatMap fun member => ',' :: writeMember member := by
  induction members with
  | nil => rfl
  | cons member rest inductionHypothesis =>
    rw [writeMoreMembers, inductionHypothesis, List.flatMap_cons, writeMember, List.cons_append,
      List.append_assoc, List.cons_append]

theorem writeMembers_eq_listed (members : List (String × Json)) :
    writeMembers members = listed writeMember members := by
  cases members with
  | nil => rfl
  | cons member rest =>
    rw [writeMembers, writeMoreMembers_eq_flatMap, listed, writeMember, List.append_assoc,
      List.cons_append]

/-! ### Documents that are no containers -/

theorem starts_cons {char : Char} (solid : isBlank char = false) (noBracket : char ≠ ']')
    (noBrace : char ≠ '\x7d') (others : List Char) : Starts (char :: others) :=
  ⟨char, others, rfl, solid, noBracket, noBrace⟩

theorem starts_writeMember (member : String × Json) : Starts (writeMember member) :=
  starts_cons (by decide) (by decide) (by decide) _

/-- The first character of a number marks no other kind of document. -/
theorem ne_of_numeral {char : Char} (numeral : char.isDigit = true ∨ char = '-') :
    isBlank char = false ∧ char ≠ ']' ∧ char ≠ '\x7d' ∧ char ≠ '[' ∧ char ≠ '\x7b' ∧ char ≠ 'n' ∧
      char ≠ 't' ∧ char ≠ 'f' ∧ char ≠ '"' := by
  rcases numeral with digit | rfl
  · have solid : isBlank char = false := by
      unfold isBlank
      simp only [Bool.or_eq_false_iff, decide_eq_false_iff_not]
      refine ⟨⟨⟨?_, ?_⟩, ?_⟩, ?_⟩ <;>
        · rintro rfl
          cases digit
    refine ⟨solid, ?_, ?_, ?_, ?_, ?_, ?_, ?_, ?_⟩ <;>
      · rintro rfl
        cases digit
  · decide

theorem exists_of_readsBack {number : Number} (readsBack : number.ReadsBack) :
    ∃ char others, number.text = char :: others ∧ (char.isDigit = true ∨ char = '-') :=
  exists_of_readNumber readsBack

theorem readScalar_eq_readNumber {char : Char} (numeral : char.isDigit = true ∨ char = '-')
    (others : List Char) : readScalar (char :: others) = readNumber (char :: others) := by
  obtain ⟨_, _, _, _, _, noNull, noTrue, noFalse, noQuote⟩ := ne_of_numeral numeral
  unfold readScalar
  split
  · rename_i same
    exact absurd (List.cons.inj same).1 noNull
  · rename_i same
    exact absurd (List.cons.inj same).1 noTrue
  · rename_i same
    exact absurd (List.cons.inj same).1 noFalse
  · rename_i same
    exact absurd (List.cons.inj same).1 noQuote
  · rfl

/-- What starts with a character that is no bracket is read as no container. -/
theorem read_cons_eq_readScalar {char : Char} (solid : isBlank char = false) (noArray : char ≠ '[')
    (noObject : char ≠ '\x7b') (depth : Nat) (others : List Char) :
    read depth (char :: others) = readScalar (char :: others) := by
  have leads := dropBlanks_of_head solid others
  rw [read_eq_readScalar, leads]
  · rw [leads]
    exact fun _ same => noArray (List.cons.inj same).1
  · rw [leads]
    exact fun _ same => noObject (List.cons.inj same).1

theorem readsBack_string (text : String) (depth : Nat) :
    ReadsBack (read depth) write (.string text) := by
  intro rest _
  have back := Quoted.read?_write text rest
  show read depth ('"' :: (text.toList.flatMap Quoted.writeChar ++ ['"'] ++ rest)) = _
  rw [read_cons_eq_readScalar (by decide) (by decide) (by decide), List.append_assoc,
    List.singleton_append, readScalar, back]
  rfl

theorem readsBack_number {number : Number} (readsBack : number.ReadsBack) (depth : Nat) :
    ReadsBack (read depth) write (.number number) := by
  intro rest stops
  have back := readNumber_append stops readsBack
  obtain ⟨char, others, leads, numeral⟩ := exists_of_readsBack readsBack
  obtain ⟨solid, _, _, noArray, noObject, _⟩ := ne_of_numeral numeral
  show read depth (number.text ++ rest) = _
  rw [leads, List.cons_append] at back ⊢
  rw [read_cons_eq_readScalar solid noArray noObject, readScalar_eq_readNumber numeral]
  exact back

/-! ### Documents -/

/-- Every text that is written starts like a value. -/
theorem starts_write {document : Json} (numbers : ∀ number ∈ document.numbers, number.ReadsBack) :
    Starts document.write := by
  cases document with
  | null => exact starts_cons (by decide) (by decide) (by decide) _
  | boolean flag => cases flag <;> exact starts_cons (by decide) (by decide) (by decide) _
  | string text => exact starts_cons (by decide) (by decide) (by decide) _
  | array items => exact starts_cons (by decide) (by decide) (by decide) _
  | object members => exact starts_cons (by decide) (by decide) (by decide) _
  | number value =>
    obtain ⟨char, others, leads, numeral⟩ :=
      exists_of_readsBack (numbers value (List.mem_singleton_self value))
    obtain ⟨solid, noBracket, noBrace, _⟩ := ne_of_numeral numeral
    exact ⟨char, others, leads, solid, noBracket, noBrace⟩

/-- A member is read back when its value is. -/
theorem readsBack_member {value : List Char → Except Fault (Json × List Char)}
    {member : String × Json} (back : ReadsBack value write member.2) :
    ReadsBack (readPair value) writeMember member := by
  intro rest stops
  obtain ⟨name, document⟩ := member
  have nameBack := Quoted.read?_write name (':' :: (document.write ++ rest))
  refine readPair_eq_ok.mpr ⟨':' :: (document.write ++ rest), document.write ++ rest, ?_, ?_,
    back rest stops⟩
  · rw [writeMember, Quoted.write, List.append_assoc, List.cons_append, List.cons_append,
      List.append_assoc, List.singleton_append, readName, dropBlanks_of_head (by decide)]
    exact Fault.require_eq_ok.mpr nameBack
  · rw [readColon, dropBlanks_of_head (by decide)]
    rfl

/-- Members are read back in order from the text of an object, behind its opening brace. -/
theorem enclosed_writeMembers {depth : Nat} {members : List (String × Json)}
    (each : ∀ member ∈ members, ReadsBack (read depth) write member.2) (after : List Char) :
    Enclosed '\x7d' (readPair (read depth)) (writeMembers members ++ '\x7d' :: after) members
      after := by
  rw [writeMembers_eq_listed]
  exact enclosed_listed (Or.inr rfl) (fun member _ => starts_writeMember member)
    (fun member held => readsBack_member (each member held)) after

theorem enclosed_writeItems {depth : Nat} {items : List Json}
    (starts : ∀ item ∈ items, Starts item.write)
    (each : ∀ item ∈ items, ReadsBack (read depth) write item) (after : List Char) :
    Enclosed ']' (read depth) (writeItems items ++ ']' :: after) items after := by
  rw [writeItems_eq_listed]
  exact enclosed_listed (Or.inl rfl) starts each after

theorem readsBack_scalar {document : Json} (closed : document.opened = 0)
    (numbers : ∀ number ∈ document.numbers, number.ReadsBack) (depth : Nat) :
    ReadsBack (read depth) write document := by
  cases document with
  | array items => cases closed
  | object members => cases closed
  | string text => exact readsBack_string text depth
  | number value => exact readsBack_number (numbers value (List.mem_singleton_self value)) depth
  | null =>
    intro rest _
    exact read_cons_eq_readScalar (by decide) (by decide) (by decide) depth _
  | boolean flag =>
    intro rest _
    cases flag <;> exact read_cons_eq_readScalar (by decide) (by decide) (by decide) depth _

/-- A document is read back from its text. -/
theorem readsBack_write {document : Json} (wellFormed : document.WellFormed)
    (numbers : ∀ number ∈ document.numbers, number.ReadsBack) {depth : Nat}
    (shallow : document.opened ≤ depth) : ReadsBack (read depth) write document := by
  induction depth generalizing document with
  | zero => exact readsBack_scalar (Nat.le_zero.mp shallow) numbers 0
  | succ depth inductionHypothesis =>
    cases document with
    | array items =>
      intro rest _
      rw [wellFormed_array] at wellFormed
      rw [opened_array_le_iff] at shallow
      have each : ∀ item ∈ items, ∀ number ∈ item.numbers, number.ReadsBack :=
        fun item member number held => numbers number (mem_numbers_array.mpr ⟨item, member, held⟩)
      have enclosed := enclosed_writeItems (fun item member => starts_write (each item member))
        (fun item member => inductionHypothesis (wellFormed item member) (each item member)
          (shallow item member)) rest
      rw [write, List.cons_append, List.append_assoc, List.singleton_append]
      exact (read_array_eq_ok (dropBlanks_of_head (by decide) _)).mpr ⟨items, enclosed, rfl⟩
    | object members =>
      intro rest _
      rw [wellFormed_object] at wellFormed
      rw [opened_object_le_iff] at shallow
      have each : ∀ member ∈ members, ∀ number ∈ member.2.numbers, number.ReadsBack :=
        fun member held number inside =>
          numbers number (mem_numbers_object.mpr ⟨member, held, inside⟩)
      have enclosed := enclosed_writeMembers (fun member held =>
        inductionHypothesis (wellFormed.2 member held) (each member held)
          (shallow member held)) rest
      rw [write, List.cons_append, List.append_assoc, List.singleton_append]
      refine (read_object_eq_ok (dropBlanks_of_head (by decide) _)).mpr ⟨members, enclosed, ?_⟩
      rw [Keyed.ofList_of_distinct _ wellFormed.1]
    | null => exact readsBack_scalar rfl numbers _
    | boolean flag => exact readsBack_scalar rfl numbers _
    | number value => exact readsBack_scalar rfl numbers _
    | string text => exact readsBack_scalar rfl numbers _

end Json

end ListQuery
