/-
This file holds queries over the rows of one entity: which rows, in which order,
which of their fields, and which window of them. A query scopes the rows of an
included relation; the root request has the same parts and a relation tree.
-/

import ListQuery.Count
import ListQuery.Filter.Document
import ListQuery.Json.Layout
import ListQuery.Selection
import ListQuery.SortOrder

namespace ListQuery

/-- A query over the rows of one entity. Every part may be left out. -/
structure Query where
  filter : Option Filter := none
  sort : Option SortOrder := none
  select : Option Selection := none
  limit : Option Count := none
  skip : Option Count := none
  page : Option Count := none

namespace Query

/-- A query as a document. -/
def layout : Json.Layout Query where
  name := "NestedQuery"
  strict := true
  initial := {}
  fields := [
    .optional "where" Filter.decoder Filter.toJson Query.filter
      fun filter query => { query with filter },
    .optional "sort" SortOrder.decoder SortOrder.toJson Query.sort
      fun sort query => { query with sort },
    .optional "select" Selection.decoder Selection.toJson Query.select
      fun select query => { query with select },
    .optional "limit" Count.decoder Count.toJson Query.limit
      fun limit query => { query with limit },
    .optional "skip" Count.decoder Count.toJson Query.skip
      fun skip query => { query with skip },
    .optional "page" Count.decoder Count.toJson Query.page
      fun page query => { query with page }]

/-- The decoder of queries. -/
def decoder : Json.Decoder Query :=
  layout.decoder

/-- The document that stands for a query. -/
def toJson (query : Query) : Json :=
  layout.encode query

/-- Checks that the filter of a query can be sent. -/
def check (query : Query) : Except ShapeFault Unit :=
  query.filter.forM Filter.check

/-- Whether two optional filters are both missing or the same. -/
def sameFilter : Option Filter → Option Filter → Bool
  | none, none => true
  | some first, some second => Filter.same first second
  | _, _ => false

/-- Whether two queries have the same parts. -/
def same (first second : Query) : Bool :=
  sameFilter first.filter second.filter && first.sort = second.sort &&
    first.select = second.select && first.limit = second.limit && first.skip = second.skip &&
    first.page = second.page

end Query

end ListQuery
