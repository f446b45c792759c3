/-
This file compiles requests into the flat parameters that a list endpoint takes:
JSON text for the filter, the sort order and the selection, an outline for the
relation tree, and decimal digits for the window. A parameter is there exactly
when its part of the request is.
-/

import ListQuery.Relation.Outline
import ListQuery.Request

namespace ListQuery

/-- The compiled parameters of a request. -/
structure Parameters where
  limit : Option String := none
  nested : Option String := none
  page : Option String := none
  select : Option String := none
  skip : Option String := none
  sort : Option String := none
  filter : Option String := none
deriving DecidableEq

namespace Parameters

/-- The parameters that are set, by name in ascending order. -/
def pairs (parameters : Parameters) : List (String × String) :=
  [("limit", parameters.limit), ("nested", parameters.nested), ("page", parameters.page),
    ("select", parameters.select), ("skip", parameters.skip), ("sort", parameters.sort),
    ("where", parameters.filter)].filterMap fun (name, value) =>
      value.map fun text => (name, text)

/-- The parameters as one document. -/
def toJson (parameters : Parameters) : Json :=
  .object (parameters.pairs.map fun (name, text) => (name, .string text))

end Parameters

namespace Request

/-- Compiles a request. Its filter is checked before its relation tree; nothing else can fail. -/
def compile (request : Request) : Except QueryFault Parameters := do
  request.filter.forM fun filter => filter.check.mapError QueryFault.shape
  let nested ← request.nested.mapM RelationTree.toOutline
  return {
    limit := request.limit.map Count.text
    nested
    page := request.page.map Count.text
    select := request.select.map fun fields => (Selection.toJson fields).text
    skip := request.skip.map Count.text
    sort := request.sort.map fun order => order.toJson.text
    filter := request.filter.map fun filter => filter.toJson.text }

end Request

end ListQuery
