/-
This file says what the reader of documents reads. An array is a series of items
and an object a series of members, of which the last of each name counts, so no
object that was read holds a name twice, and no document that was read has more
containers open at once than the reader allows.
-/

import Mathlib.Data.List.DropRight
import ListQuery.Proofs.Json.Extent
import ListQuery.Proofs.Relation.Balance

namespace ListQuery

namespace Json

variable {depth : Nat} {text inner rest : List Char} {document : Json}

/-! ### Texts and their starts -/

theorem shortens_read (depth : Nat) : Shortens (read depth) :=
  fun _ _ _ read => (Outline.consumes_read read).length_le

theorem shortens_readPair (depth : Nat) : Shortens (readPair (read depth)) :=
  fun _ _ _ read => (Outline.consumes_pair (fun _ _ _ => Outline.consumes_read) read).length_le

theorem dropBlanks_dropBlanks (text : List Char) :
    dropBlanks (dropBlanks text) = dropBlanks text :=
  List.dropWhile_idempotent _ _

theorem read_dropBlanks (depth : Nat) (text : List Char) :
    read depth (dropBlanks text) = read depth text := by
  cases depth with
  | zero => rw [read, read, dropBlanks_dropBlanks]
  | succ depth => rw [read, read, dropBlanks_dropBlanks]

/-! ### Containers -/

/-- An array is read where items are enclosed. -/
theorem read_array_eq_ok (starts : dropBlanks text = '[' :: inner) :
    read (depth + 1) text = .ok (document, rest) ↔
      ∃ items, Enclosed ']' (read depth) inner items rest ∧ document = .array items := by
  rw [read, starts]
  simp only
  rw [Traversal.bind_eq_ok]
  constructor
  · rintro ⟨⟨reversed, left⟩, itemsRead, same⟩
    cases same
    obtain ⟨items, enclosed, folded⟩ :=
      enclosed_of_foldElements (follows_readItem _) trivial itemsRead
    rw [foldlM_cons_ok] at folded
    cases folded
    exact ⟨items, enclosed, congrArg array items.reverse_reverse⟩
  · rintro ⟨items, enclosed, rfl⟩
    refine ⟨(items.reverse, rest), ?_, ?_⟩
    · exact (foldElements_eq_ok (follows_readItem _) (shortens_read depth) (by decide) trivial).mpr
        ⟨items, enclosed, foldlM_cons_ok items⟩
    · rw [List.reverse_reverse]
      rfl

/-- An object is read where members are enclosed, and the last one of each name counts. -/
theorem read_object_eq_ok (starts : dropBlanks text = '\x7b' :: inner) :
    read (depth + 1) text = .ok (document, rest) ↔
      ∃ members, Enclosed '\x7d' (readPair (read depth)) inner members rest ∧
        document = .object (Keyed.ofList Prod.fst members) := by
  rw [read, starts]
  simp only
  rw [Traversal.bind_eq_ok]
  constructor
  · rintro ⟨⟨built, left⟩, membersRead, same⟩
    cases same
    obtain ⟨members, enclosed, folded⟩ :=
      enclosed_of_foldElements (follows_readMember _) trivial membersRead
    rw [foldlM_put_ok] at folded
    cases folded
    exact ⟨members, enclosed, rfl⟩
  · rintro ⟨members, enclosed, rfl⟩
    refine ⟨(Keyed.ofList Prod.fst members, rest), ?_, rfl⟩
    exact (foldElements_eq_ok (follows_readMember _) (shortens_readPair depth) (by decide)
      trivial).mpr ⟨members, enclosed, foldlM_put_ok members⟩

/-- What starts with no bracket is read as a document that is no container. -/
theorem read_eq_readScalar (noArray : ∀ inner, dropBlanks text ≠ '[' :: inner)
    (noObject : ∀ inner, dropBlanks text ≠ '\x7b' :: inner) :
    read depth text = readScalar (dropBlanks text) := by
  cases depth with
  | zero => rfl
  | succ depth =>
    rw [read]
    split
    · rename_i starts
      exact absurd starts (noArray _)
    · rename_i starts
      exact absurd starts (noObject _)
    · rfl

/-! ### What was read -/

theorem eq_of_readWord {word : List Char} {other : Json}
    (read : readWord word other text = .ok (document, rest)) : document = other := by
  unfold readWord at read
  split at read
  · cases read
    rfl
  · cases read

/-- A document that is no container opens none. -/
theorem opened_of_readScalar (read : readScalar text = .ok (document, rest)) :
    document.opened = 0 := by
  unfold readScalar at read
  split at read
  · rw [eq_of_readWord read, opened.eq_def]
  · rw [eq_of_readWord read, opened.eq_def]
  · rw [eq_of_readWord read, opened.eq_def]
  · obtain ⟨⟨string, left⟩, _, same⟩ := Traversal.bind_eq_ok.mp read
    cases same
    rfl
  · obtain ⟨⟨literal, left⟩, _, read⟩ := Traversal.bind_eq_ok.mp read
    obtain ⟨number, _, same⟩ := Traversal.bind_eq_ok.mp read
    cases same
    rfl

theorem wellFormed_of_opened (closed : document.opened = 0) : document.WellFormed := by
  cases document with
  | array items => cases closed
  | object members => cases closed
  | null => trivial
  | boolean flag => trivial
  | number value => trivial
  | string text => trivial

/-- The three ways in which a document is read, told apart by its first character. -/
theorem read_cases (read : Json.read depth text = .ok (document, rest)) :
    (∃ less inner items, depth = less + 1 ∧ dropBlanks text = '[' :: inner ∧
      Enclosed ']' (Json.read less) inner items rest ∧ document = .array items) ∨
    (∃ less inner members, depth = less + 1 ∧ dropBlanks text = '\x7b' :: inner ∧
      Enclosed '\x7d' (readPair (Json.read less)) inner members rest ∧
      document = .object (Keyed.ofList Prod.fst members)) ∨
    ((∀ inner, dropBlanks text ≠ '[' :: inner) ∧ (∀ inner, dropBlanks text ≠ '\x7b' :: inner) ∧
      readScalar (dropBlanks text) = .ok (document, rest) ∧ document.opened = 0) := by
  by_cases isArray : ∃ inner, dropBlanks text = '[' :: inner
  · obtain ⟨inner, starts⟩ := isArray
    cases depth with
    | zero =>
      rw [Json.read, starts] at read
      cases read
    | succ less =>
      obtain ⟨items, enclosed, same⟩ := (read_array_eq_ok starts).mp read
      exact .inl ⟨less, inner, items, rfl, starts, enclosed, same⟩
  by_cases isObject : ∃ inner, dropBlanks text = '\x7b' :: inner
  · obtain ⟨inner, starts⟩ := isObject
    cases depth with
    | zero =>
      rw [Json.read, starts] at read
      cases read
    | succ less =>
      obtain ⟨members, enclosed, same⟩ := (read_object_eq_ok starts).mp read
      exact .inr (.inl ⟨less, inner, members, rfl, starts, enclosed, same⟩)
  · rw [read_eq_readScalar (not_exists.mp isArray) (not_exists.mp isObject)] at read
    exact .inr (.inr ⟨not_exists.mp isArray, not_exists.mp isObject, read,
      opened_of_readScalar read⟩)

/-- Every document that is read is well formed and has no more containers open than allowed. -/
theorem wellFormed_of_read (read : Json.read depth text = .ok (document, rest)) :
    document.WellFormed ∧ document.opened ≤ depth := by
  -- Strong induction leaves the depth whole until the cases say which reader took the text.
  induction depth using Nat.strongRecOn generalizing text rest document with
  | ind depth inductionHypothesis =>
    rcases read_cases read with ⟨less, inner, items, rfl, _, enclosed, rfl⟩ |
      ⟨less, inner, members, rfl, _, enclosed, rfl⟩ | ⟨_, _, _, closed⟩
    · have each := enclosed.forall fun _ _ _ => inductionHypothesis less (Nat.lt_succ_self less)
      rw [wellFormed_array, opened_array_le_iff]
      exact ⟨fun item member => (each item member).1, fun item member => (each item member).2⟩
    · have each : ∀ member ∈ members, member.2.WellFormed ∧ member.2.opened ≤ less := by
        refine enclosed.forall fun _ member _ pairRead => ?_
        obtain ⟨_, _, _, _, valueRead⟩ := readPair_eq_ok.mp pairRead
        exact inductionHypothesis less (Nat.lt_succ_self less) valueRead
      rw [wellFormed_object, opened_object_le_iff]
      exact ⟨⟨Keyed.distinct_ofList _ _, fun member held =>
        (each member (Keyed.mem_ofList held)).1⟩, fun member held =>
        (each member (Keyed.mem_ofList held)).2⟩
    · exact ⟨wellFormed_of_opened closed, closed ▸ Nat.zero_le _⟩

/-- What is read is read just so when more containers may be open. -/
theorem read_mono {deeper : Nat} (room : depth ≤ deeper)
    (read : Json.read depth text = .ok (document, rest)) :
    Json.read deeper text = .ok (document, rest) := by
  induction depth using Nat.strongRecOn generalizing deeper text rest document with
  | ind depth inductionHypothesis =>
    rcases read_cases read with ⟨less, inner, items, rfl, starts, enclosed, rfl⟩ |
      ⟨less, inner, members, rfl, starts, enclosed, rfl⟩ | ⟨noArray, noObject, scalar, _⟩
    · obtain ⟨deeper, rfl⟩ : ∃ fewer, deeper = fewer + 1 := ⟨deeper - 1, by omega⟩
      refine (read_array_eq_ok starts).mpr ⟨items, enclosed.imp fun _ _ _ itemRead => ?_, rfl⟩
      exact inductionHypothesis less (Nat.lt_succ_self less) (by omega) itemRead
    · obtain ⟨deeper, rfl⟩ : ∃ fewer, deeper = fewer + 1 := ⟨deeper - 1, by omega⟩
      refine (read_object_eq_ok starts).mpr ⟨members, enclosed.imp fun _ _ _ pairRead => ?_, rfl⟩
      obtain ⟨_, _, nameRead, colonRead, valueRead⟩ := readPair_eq_ok.mp pairRead
      exact readPair_eq_ok.mpr ⟨_, _, nameRead, colonRead,
        inductionHypothesis less (Nat.lt_succ_self less) (by omega) valueRead⟩
    · rwa [read_eq_readScalar noArray noObject]

/-- Only what starts with a brace is read as an object. -/
theorem exists_of_read_object {members : List (String × Json)}
    (read : Json.read depth text = .ok (.object members, rest)) :
    ∃ inner, dropBlanks text = '\x7b' :: inner := by
  rcases read_cases read with ⟨_, _, _, _, _, _, same⟩ | ⟨_, inner, _, _, starts, _, _⟩ |
    ⟨_, _, _, closed⟩
  · cases same
  · exact ⟨inner, starts⟩
  · cases closed

end Json

end ListQuery
