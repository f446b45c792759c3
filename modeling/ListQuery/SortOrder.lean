/-
This file holds sort orders: fields with a direction, the most significant first.
Sorting by a field again changes its direction in place.
-/

import ListQuery.Json.Decoder

namespace ListQuery

/-- The direction of a sort. -/
inductive Direction where
  | ascending
  | descending
deriving DecidableEq

namespace Direction

/-- The name of a direction in documents. -/
def name : Direction → String
  | .ascending => "asc"
  | .descending => "desc"

/-- The direction with a name. -/
def ofName (name : String) : Except Json.Fault Direction :=
  if name = ascending.name then .ok ascending
  else if name = descending.name then .ok descending
  else .error (.unknownVariant name [ascending.name, descending.name])

/-- The direction that a document stands for: its name, or an object that has the name as its only
key and null under it. -/
def ofJson : Json → Except Json.Fault Direction
  | .string name => ofName name
  | .object [(name, payload)] => do
    let direction ← ofName name
    match payload with
    | .null => return direction
    | payload => throw (Json.Decoder.unexpected .unit payload)
  | .object _ => .error (.wrongValue .map .singleKeyMap)
  | document => .error (Json.Decoder.unexpected .variant document)

end Direction

/-- A field to sort by. -/
structure SortKey where
  field : String
  direction : Direction
deriving DecidableEq

/-- The fields to sort by, each at most once. -/
structure SortOrder where
  keys : List SortKey
  distinct : Keyed.Distinct SortKey.field keys
deriving DecidableEq

namespace SortOrder

/-- The order that leaves rows as they come. -/
def empty : SortOrder :=
  ⟨[], List.nodup_nil⟩

/-- Sorts by a field, in the place it already has or after all others. -/
def put (order : SortOrder) (field : String) (direction : Direction) : SortOrder :=
  ⟨Keyed.put SortKey.field ⟨field, direction⟩ order.keys, Keyed.distinct_put _ _ order.distinct⟩

/-- The order that a list of keys builds, one after another. -/
def ofList (keys : List SortKey) : SortOrder :=
  ⟨Keyed.ofList SortKey.field keys, Keyed.distinct_ofList _ _⟩

/-- The order that the members of an object stand for. -/
def ofMembers (members : List (String × Json)) : Except Json.Fault SortOrder :=
  members.foldlM (fun order member => return order.put member.1 (← Direction.ofJson member.2)) empty

/-- The decoder of sort orders. -/
def decoder : Json.Decoder SortOrder :=
  .members ofMembers

/-- The document that stands for a sort order. -/
def toJson (order : SortOrder) : Json :=
  .object (order.keys.map fun key => (key.field, .string key.direction.name))

end SortOrder

end ListQuery
