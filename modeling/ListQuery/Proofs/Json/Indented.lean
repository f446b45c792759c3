/-
This file proves that a document is read back from its indented text. The lines of a
container are elements with their indentation before them, so the text is taken
element by element like the compact one.
-/

import ListQuery.Proofs.Json.Elements

namespace ListQuery

namespace Json

/-! ### Lines -/

theorem blank_newLine (level : Nat) : Blank (newLine level) := by
  intro char member
  rcases List.mem_cons.mp member with rfl | member
  · rfl
  · rw [List.eq_of_mem_replicate member]
    rfl

/-- An element on a line of its own. -/
def onLine (level : Nat) (core : List Char) : Padded where
  before := newLine level
  core := core
  after := []
  blankBefore := blank_newLine level
  blankAfter := blank_nil

/-- A member on a line of its own, with a space before its value. -/
def memberOnLine (level : Nat) (member : String × Json) : Member where
  name := onLine level (Quoted.write member.1)
  value := {
    before := [' ']
    core := writeIndented level member.2
    after := []
    blankBefore := List.forall_mem_singleton.mpr rfl
    blankAfter := blank_nil }

theorem writeMoreIndentedItems_eq (level : Nat) (items : List Json) :
    writeMoreIndentedItems level items = items.flatMap fun item =>
      ',' :: (onLine (level + 1) (writeIndented (level + 1) item)).text := by
  induction items with
  | nil => rfl
  | cons item rest inductionHypothesis =>
    simp only [writeMoreIndentedItems, inductionHypothesis, List.flatMap_cons, Padded.text, onLine,
      List.append_nil, List.cons_append]

theorem writeMoreIndentedMembers_eq (level : Nat) (members : List (String × Json)) :
    writeMoreIndentedMembers level members = members.flatMap fun member =>
      ',' :: (memberOnLine (level + 1) member).element.text := by
  induction members with
  | nil => rfl
  | cons member rest inductionHypothesis =>
    simp only [writeMoreIndentedMembers, inductionHypothesis, List.flatMap_cons, Padded.text,
      Member.element, Member.core, memberOnLine, onLine, List.append_nil, List.cons_append,
      List.nil_append, List.append_assoc]

theorem writeIndented_array (level : Nat) (item : Json) (rest : List Json) :
    writeIndented level (.array (item :: rest)) =
      '[' :: (listed Padded.text ((item :: rest).map fun item =>
        onLine (level + 1) (writeIndented (level + 1) item)) ++ (newLine level ++ [']'])) := by
  rw [writeIndented, writeMoreIndentedItems_eq]
  simp only [List.map_cons, listed, List.flatMap_map, Padded.text, onLine, List.append_nil,
    List.append_assoc]

theorem writeIndented_object (level : Nat) (member : String × Json)
    (rest : List (String × Json)) :
    writeIndented level (.object (member :: rest)) =
      '\x7b' :: (listed Padded.text ((member :: rest).map fun member =>
        (memberOnLine (level + 1) member).element) ++ (newLine level ++ ['\x7d'])) := by
  rw [writeIndented, writeMoreIndentedMembers_eq]
  simp only [List.map_cons, listed, List.flatMap_map, Padded.text, Member.element, Member.core,
    memberOnLine, onLine, List.append_nil, List.append_assoc, List.cons_append, List.nil_append]

/-! ### Documents -/

/-- What opens no container is written on one line. -/
theorem writeIndented_closed {document : Json} (closed : document.opened = 0) (level : Nat) :
    document.writeIndented level = document.write := by
  cases document with
  | array items => cases closed
  | object members => cases closed
  | _ => rfl

theorem starts_writeIndented {document : Json}
    (numbers : ∀ number ∈ document.numbers, number.ReadsBack) (level : Nat) :
    Starts (document.writeIndented level) := by
  match document with
  | .array [] | .object [] | .null | .boolean _ | .string _ | .number _ =>
    exact starts_write numbers
  | .array (item :: rest) => exact starts_cons (by decide) (by decide) (by decide) _
  | .object (member :: rest) => exact starts_cons (by decide) (by decide) (by decide) _

theorem dropBlanks_newLine {close : Char} (solid : isBlank close = false) (level : Nat)
    (rest : List Char) : dropBlanks (newLine level ++ close :: rest) = close :: rest := by
  rw [dropBlanks_append (blank_newLine level), dropBlanks_of_head solid]

/-- An array is taken off its lines when its items are taken off theirs. -/
theorem takes_itemLines {first : Json} {others : List Json} {depth level : Nat}
    (starts : ∀ item ∈ first :: others, Starts (item.writeIndented (level + 1)))
    (each : ∀ item ∈ first :: others,
      Takes (read depth) (item.writeIndented (level + 1)) item) :
    Takes (read (depth + 1)) ((Json.array (first :: others)).writeIndented level)
      (.array (first :: others)) := by
  intro rest _
  rw [writeIndented_array, List.cons_append, List.append_assoc, List.append_assoc,
    List.singleton_append, ← List.nil_append (listed _ _ ++ _)]
  refine read_array_of_takes (dropBlanks_newLine (by decide) level rest) blank_nil ?_ ?_
  · rw [List.forall_mem_map]
    exact starts
  · rw [List.forall₂_map_left_iff, List.forall₂_same]
    exact each

/-- An object is taken off its lines when its values are taken off theirs. -/
theorem takes_memberLines {first : String × Json} {others : List (String × Json)}
    {depth level : Nat} (distinct : Keyed.Distinct Prod.fst (first :: others))
    (each : ∀ member ∈ first :: others,
      Takes (read depth) (member.2.writeIndented (level + 1)) member.2) :
    Takes (read (depth + 1)) ((Json.object (first :: others)).writeIndented level)
      (.object (first :: others)) := by
  intro rest _
  have starts : ∀ element ∈ (first :: others).map fun member =>
      (memberOnLine (level + 1) member).element, Starts element.core := by
    rw [List.forall_mem_map]
    exact fun member _ => starts_cons (by decide) (by decide) (by decide) _
  have taken : List.Forall₂
      (fun element member => Takes (readPair (read depth)) element.core member)
      ((first :: others).map fun member => (memberOnLine (level + 1) member).element)
      (first :: others) := by
    rw [List.forall₂_map_left_iff, List.forall₂_same]
    exact fun member held =>
      takes_readPair (readName_write member.1) (skipsBlanks_read depth) (each member held)
  have objectRead := read_object_of_takes (dropBlanks_newLine (by decide) level rest) blank_nil
    starts taken
  rw [Keyed.ofList_of_distinct _ distinct] at objectRead
  rw [writeIndented_object, List.cons_append, List.append_assoc, List.append_assoc,
    List.singleton_append]
  exact objectRead

/-- A document is taken off its indented text, at whatever level it stands. -/
theorem takes_writeIndented {document : Json} (wellFormed : document.WellFormed)
    (numbers : ∀ number ∈ document.numbers, number.ReadsBack) {depth : Nat}
    (shallow : document.opened ≤ depth) (level : Nat) :
    Takes (read depth) (document.writeIndented level) document := by
  induction depth generalizing document level with
  | zero =>
    have closed := Nat.le_zero.mp shallow
    rw [writeIndented_closed closed]
    exact readsBack_scalar closed numbers 0
  | succ depth inductionHypothesis =>
    match document with
    | .array [] | .object [] | .null | .boolean _ | .string _ | .number _ =>
      exact readsBack_write wellFormed numbers shallow
    | .array (first :: others) =>
      rw [wellFormed_array] at wellFormed
      rw [opened_array_le_iff] at shallow
      have each : ∀ item ∈ first :: others, ∀ number ∈ item.numbers, number.ReadsBack :=
        fun item member number held => numbers number (mem_numbers_array.mpr ⟨item, member, held⟩)
      exact takes_itemLines (fun item member => starts_writeIndented (each item member) _)
        fun item member => inductionHypothesis (wellFormed item member) (each item member)
          (shallow item member) _
    | .object (first :: others) =>
      rw [wellFormed_object] at wellFormed
      rw [opened_object_le_iff] at shallow
      have each : ∀ member ∈ first :: others, ∀ number ∈ member.2.numbers, number.ReadsBack :=
        fun member held number inside =>
          numbers number (mem_numbers_object.mpr ⟨member, held, inside⟩)
      exact takes_memberLines wellFormed.1 fun member held =>
        inductionHypothesis (wellFormed.2 member held) (each member held) (shallow member held) _

/-- A document is read back from its indented text, also with blanks behind it. -/
theorem ofText_indented {document : Json} (wellFormed : document.WellFormed)
    (numbers : ∀ number ∈ document.numbers, number.ReadsBack)
    (shallow : document.opened ≤ maxOpen) {blanks : String} (blank : Blank blanks.toList) :
    ofText (document.indented ++ blanks) = .ok document := by
  have read := takes_writeIndented wellFormed numbers shallow 0 blanks.toList (stops_of_blank blank)
  rw [ofText, String.toList_append, indented, String.toList_ofList]
  exact Traversal.bind_eq_ok.mpr ⟨_, read,
    Traversal.bind_eq_ok.mpr ⟨(), if_pos (List.all_eq_true.mpr blank), rfl⟩⟩

end Json

end ListQuery
