/-
This file holds root requests, which ask a list endpoint for rows and for the
relations to include with them.
-/

import ListQuery.Relation.Document

namespace ListQuery

/-- A request for rows of the root entity. Every part may be left out. -/
structure Request where
  filter : Option Filter := none
  sort : Option SortOrder := none
  select : Option Selection := none
  nested : Option RelationTree := none
  limit : Option Count := none
  skip : Option Count := none
  page : Option Count := none

namespace Request

/-- A request as a document. -/
def layout : Json.Layout Request where
  name := "ApiClientParams"
  strict := true
  initial := {}
  fields := [
    .optional "where" Filter.decoder Filter.toJson Request.filter
      fun filter request => { request with filter },
    .optional "sort" SortOrder.decoder SortOrder.toJson Request.sort
      fun sort request => { request with sort },
    .optional "select" Selection.decoder Selection.toJson Request.select
      fun select request => { request with select },
    .optional "nested" RelationTree.decoder RelationTree.toJson Request.nested
      fun nested request => { request with nested },
    .optional "limit" Count.decoder Count.toJson Request.limit
      fun limit request => { request with limit },
    .optional "skip" Count.decoder Count.toJson Request.skip
      fun skip request => { request with skip },
    .optional "page" Count.decoder Count.toJson Request.page
      fun page request => { request with page }]

/-- The decoder of requests. -/
def decoder : Json.Decoder Request :=
  layout.decoder

/-- The document that stands for a request. -/
def toJson (request : Request) : Json :=
  layout.encode request

end Request

end ListQuery
