/-
This file proves that the parts of queries and requests other than filters and
relations are read back from their documents: sort orders with the order of their
keys, selections, and counts. Each is written as a shallow document whose numbers
are integers, so there is nothing in it that could not be read.
-/

import ListQuery.Count
import ListQuery.Filter.Document
import ListQuery.Selection
import ListQuery.SortOrder
import ListQuery.Proofs.Json.Streaming

namespace ListQuery

/-! ### Sort orders -/

theorem Direction.ofJson_name (direction : Direction) :
    ofJson (.string direction.name) = .ok direction := by
  cases direction <;> rfl

namespace SortOrder

theorem eq_of_keys {first second : SortOrder} (same : first.keys = second.keys) :
    first = second := by
  cases first
  cases second
  cases same
  rfl

/-- The members of sort keys put these keys into an order one after another. -/
theorem foldlM_put (keys : List SortKey) (order : SortOrder) :
    ∃ final : SortOrder, (keys.map fun key => (key.field, Json.string key.direction.name)).foldlM
        (fun order member => do return order.put member.1 (← Direction.ofJson member.2)) order =
        (.ok final : Except Json.Fault SortOrder) ∧
      final.keys = keys.foldl (fun built key => Keyed.put SortKey.field key built) order.keys := by
  induction keys generalizing order with
  | nil => exact ⟨order, rfl, rfl⟩
  | cons key rest inductionHypothesis =>
    rw [List.map_cons, List.foldlM_cons, Direction.ofJson_name]
    exact inductionHypothesis (order.put key.field key.direction)

/-- A sort order is read back with its keys in order. -/
theorem ofJson_toJson (order : SortOrder) : decoder.ofJson order.toJson = .ok order := by
  obtain ⟨final, read, keys⟩ := foldlM_put order.keys empty
  have same : final = order :=
    eq_of_keys (keys.trans (Keyed.ofList_of_distinct _ order.distinct))
  rw [same] at read
  exact read

theorem toJson_wellFormed (order : SortOrder) : order.toJson.WellFormed := by
  rw [toJson, Json.wellFormed_object, List.forall_mem_map]
  refine ⟨?_, fun _ _ => trivial⟩
  rw [Keyed.Distinct, List.map_map]
  exact order.distinct

theorem opened_toJson_le {order : SortOrder} {bound : Nat} (room : 0 < bound) :
    order.toJson.opened ≤ bound := by
  obtain ⟨less, rfl⟩ := Nat.exists_eq_add_one.mpr room
  rw [toJson, Json.opened_object_le_iff, List.forall_mem_map]
  exact fun _ _ => Nat.zero_le _

/-- A sort order comes out of a container. -/
theorem opened_of_ofJson {document : Json} {order : SortOrder}
    (read : decoder.ofJson document = .ok order) : 0 < document.opened := by
  cases document with
  | object members => exact Nat.succ_pos _
  | _ => cases read

theorem streams_decoder : decoder.Streams :=
  Json.Decoder.streams_members ofMembers

theorem numbers_toJson (order : SortOrder) : order.toJson.numbers = [] := by
  rw [toJson, Json.numbers, Json.membersNumbers_eq_flatMap, List.flatMap_map]
  exact List.flatMap_eq_nil_iff.mpr fun _ _ => rfl

/-- A sort order is read back from its text. -/
theorem ofText_text (order : SortOrder) : decoder.ofText order.toJson.text = .ok order := by
  refine Json.Decoder.ofText_text streams_decoder order.toJson_wellFormed ?_
    (opened_toJson_le (by decide)) order.ofJson_toJson
  rw [numbers_toJson]
  exact List.forall_mem_nil _

end SortOrder

/-! ### Selections -/

namespace Selection

theorem ofJson_toJson (selection : Selection) :
    decoder.ofJson selection.toJson = .ok selection := by
  show (selection.map Json.string).mapM Json.Decoder.string.ofJson = .ok selection
  have read := Traversal.mapM_eq_ok_map fun field (_ : field ∈ selection) =>
    (rfl : Json.Decoder.string.ofJson (.string field) = .ok field)
  rw [List.mapM_map]
  rwa [List.map_id'] at read

theorem toJson_wellFormed (selection : Selection) : selection.toJson.WellFormed := by
  rw [toJson, Json.wellFormed_array, List.forall_mem_map]
  exact fun _ _ => trivial

theorem opened_toJson_le {selection : Selection} {bound : Nat} (room : 0 < bound) :
    selection.toJson.opened ≤ bound := by
  obtain ⟨less, rfl⟩ := Nat.exists_eq_add_one.mpr room
  rw [toJson, Json.opened_array_le_iff, List.forall_mem_map]
  exact fun _ _ => Nat.zero_le _

/-- A selection comes out of a container. -/
theorem opened_of_ofJson {document : Json} {selection : Selection}
    (read : decoder.ofJson document = .ok selection) : 0 < document.opened := by
  cases document with
  | array items => exact Nat.succ_pos _
  | _ => cases read

theorem streams_decoder : decoder.Streams :=
  Json.Decoder.streams_list Json.Decoder.streams_string

theorem numbers_toJson (selection : Selection) : selection.toJson.numbers = [] := by
  rw [toJson, Json.numbers, Json.itemsNumbers_eq_flatMap, List.flatMap_map]
  exact List.flatMap_eq_nil_iff.mpr fun _ _ => rfl

/-- A selection is read back from its text. -/
theorem ofText_text (selection : Selection) :
    decoder.ofText selection.toJson.text = .ok selection := by
  refine Json.Decoder.ofText_text streams_decoder (toJson_wellFormed selection) ?_
    (opened_toJson_le (by decide)) (ofJson_toJson selection)
  rw [numbers_toJson]
  exact List.forall_mem_nil _

end Selection

/-! ### Counts -/

namespace Count

theorem ofJson_toJson (count : Count) : decoder.ofJson count.toJson = .ok count := by
  have nonnegative : (0 : Int) ≤ count.toNat := Int.natCast_nonneg _
  simp only [decoder, toJson, Json.Decoder.word, Json.Decoder.scalar, Number.ofWord]
  rw [if_pos nonnegative, Int.toNat_natCast, UInt64.ofNat_toNat]

theorem streams_decoder : decoder.Streams :=
  Json.Decoder.streams_word

theorem text_eq_text_toJson (count : Count) : count.text = count.toJson.text := by
  have nonnegative : ¬(count.toNat : Int) < 0 := Int.not_lt.mpr (Int.natCast_nonneg _)
  show _ = String.ofList (Digits.ofInt count.toNat)
  rw [Digits.ofInt, if_neg nonnegative, Int.natAbs_natCast]
  rfl

/-- A count is read back from its decimal text. -/
theorem ofText_text (count : Count) : decoder.ofText count.text = .ok count := by
  rw [text_eq_text_toJson]
  exact Json.Decoder.ofText_text streams_decoder (show count.toJson.WellFormed from trivial)
    (List.forall_mem_singleton.mpr (Number.readsBack_integer _ _)) (Nat.zero_le _)
    (ofJson_toJson count)

end Count

/-! ### Filters -/

theorem Filter.streams_decoder : Filter.decoder.Streams :=
  Json.Decoder.streams_whole _

end ListQuery
