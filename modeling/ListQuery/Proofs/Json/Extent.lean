/-
This file says how far documents extend: how many containers are open at once in
a document, which the reader bounds, and which numbers a document holds, since
not every double is read back from its text as it was. Like well-formedness, both
are read off the parts of a container one by one.
-/

import ListQuery.Json.Basic

namespace ListQuery

namespace Json

/-! ### Open containers -/

mutual

/-- How many containers are open at once inside a document, the document included. -/
def opened : Json → Nat
  | .array items => itemsOpened items + 1
  | .object members => membersOpened members + 1
  | _ => 0
termination_by structural document => document

/-- How many containers are open at once inside the items of an array. -/
def itemsOpened : List Json → Nat
  | [] => 0
  | item :: rest => max (opened item) (itemsOpened rest)
termination_by structural items => items

/-- How many containers are open at once inside the members of an object. -/
def membersOpened : List (String × Json) → Nat
  | [] => 0
  | (_, value) :: rest => max (opened value) (membersOpened rest)
termination_by structural members => members

end

/-! ### Numbers -/

mutual

/-- The numbers of a document, in order. -/
def numbers : Json → List Number
  | .number value => [value]
  | .array items => itemsNumbers items
  | .object members => membersNumbers members
  | _ => []
termination_by structural document => document

/-- The numbers in the items of an array. -/
def itemsNumbers : List Json → List Number
  | [] => []
  | item :: rest => numbers item ++ itemsNumbers rest
termination_by structural items => items

/-- The numbers in the members of an object. -/
def membersNumbers : List (String × Json) → List Number
  | [] => []
  | (_, value) :: rest => numbers value ++ membersNumbers rest
termination_by structural members => members

end

/-! ### Part by part -/

theorem itemsWellFormed_iff {items : List Json} :
    ItemsWellFormed items ↔ ∀ item ∈ items, item.WellFormed := by
  induction items with
  | nil => exact ⟨fun _ => nofun, fun _ => trivial⟩
  | cons item rest inductionHypothesis =>
    rw [ItemsWellFormed, inductionHypothesis, List.forall_mem_cons]

theorem membersWellFormed_iff {members : List (String × Json)} :
    MembersWellFormed members ↔ ∀ member ∈ members, member.2.WellFormed := by
  induction members with
  | nil => exact ⟨fun _ => nofun, fun _ => trivial⟩
  | cons member rest inductionHypothesis =>
    rw [MembersWellFormed, inductionHypothesis, List.forall_mem_cons]

theorem wellFormed_array {items : List Json} :
    (Json.array items).WellFormed ↔ ∀ item ∈ items, item.WellFormed := by
  rw [WellFormed, itemsWellFormed_iff]

theorem wellFormed_object {members : List (String × Json)} :
    (Json.object members).WellFormed ↔
      Keyed.Distinct Prod.fst members ∧ ∀ member ∈ members, member.2.WellFormed := by
  rw [WellFormed, membersWellFormed_iff]

theorem itemsOpened_le_iff {items : List Json} {bound : Nat} :
    itemsOpened items ≤ bound ↔ ∀ item ∈ items, item.opened ≤ bound := by
  induction items with
  | nil => exact ⟨fun _ => nofun, fun _ => Nat.zero_le _⟩
  | cons item rest inductionHypothesis =>
    rw [itemsOpened, Nat.max_le, inductionHypothesis, List.forall_mem_cons]

theorem membersOpened_le_iff {members : List (String × Json)} {bound : Nat} :
    membersOpened members ≤ bound ↔ ∀ member ∈ members, member.2.opened ≤ bound := by
  induction members with
  | nil => exact ⟨fun _ => nofun, fun _ => Nat.zero_le _⟩
  | cons member rest inductionHypothesis =>
    rw [membersOpened, Nat.max_le, inductionHypothesis, List.forall_mem_cons]

theorem opened_array_le_iff {items : List Json} {bound : Nat} :
    (Json.array items).opened ≤ bound + 1 ↔ ∀ item ∈ items, item.opened ≤ bound := by
  rw [opened, Nat.add_le_add_iff_right, itemsOpened_le_iff]

theorem opened_object_le_iff {members : List (String × Json)} {bound : Nat} :
    (Json.object members).opened ≤ bound + 1 ↔ ∀ member ∈ members, member.2.opened ≤ bound := by
  rw [opened, Nat.add_le_add_iff_right, membersOpened_le_iff]

/-- The items of an array have fewer open containers than the array. -/
theorem opened_lt_array {items : List Json} {item : Json} (member : item ∈ items) :
    item.opened < (Json.array items).opened :=
  Nat.lt_succ_of_le (itemsOpened_le_iff.mp (Nat.le_refl _) item member)

theorem opened_lt_object {members : List (String × Json)} {member : String × Json}
    (held : member ∈ members) : member.2.opened < (Json.object members).opened :=
  Nat.lt_succ_of_le (membersOpened_le_iff.mp (Nat.le_refl _) member held)

theorem itemsNumbers_eq_flatMap (items : List Json) :
    itemsNumbers items = items.flatMap numbers := by
  induction items with
  | nil => rfl
  | cons item rest inductionHypothesis =>
    rw [itemsNumbers, inductionHypothesis, List.flatMap_cons]

theorem membersNumbers_eq_flatMap (members : List (String × Json)) :
    membersNumbers members = members.flatMap fun member => member.2.numbers := by
  induction members with
  | nil => rfl
  | cons member rest inductionHypothesis =>
    rw [membersNumbers, inductionHypothesis, List.flatMap_cons]

theorem mem_numbers_array {items : List Json} {number : Number} :
    number ∈ (Json.array items).numbers ↔ ∃ item ∈ items, number ∈ item.numbers := by
  rw [numbers, itemsNumbers_eq_flatMap, List.mem_flatMap]

theorem mem_numbers_object {members : List (String × Json)} {number : Number} :
    number ∈ (Json.object members).numbers ↔ ∃ member ∈ members, number ∈ member.2.numbers := by
  rw [numbers, membersNumbers_eq_flatMap, List.mem_flatMap]

end Json

end ListQuery
