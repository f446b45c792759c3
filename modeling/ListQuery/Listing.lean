/-
This file holds listings, the bodies that list endpoints answer with: some rows,
and where they stand among all rows. Members that a listing does not know are
skipped, so an endpoint may send more.
-/

import ListQuery.Count
import ListQuery.Json.Layout

namespace ListQuery

/-- Where the rows of a listing stand among all rows. -/
structure Pagination where
  skip : Option Count := none
  limit : Option Count := none
  count : Option Count := none
  pageCount : Option Count := none
  currentPage : Option Count := none
deriving DecidableEq

namespace Pagination

/-- A pagination as a document. -/
def layout : Json.Layout Pagination where
  name := "Pagination"
  strict := false
  initial := {}
  fields := [
    .optional "skip" Count.decoder Count.toJson Pagination.skip
      fun skip pagination => { pagination with skip },
    .optional "limit" Count.decoder Count.toJson Pagination.limit
      fun limit pagination => { pagination with limit },
    .optional "count" Count.decoder Count.toJson Pagination.count
      fun count pagination => { pagination with count },
    .optional "pageCount" Count.decoder Count.toJson Pagination.pageCount
      fun pageCount pagination => { pagination with pageCount },
    .optional "currentPage" Count.decoder Count.toJson Pagination.currentPage
      fun currentPage pagination => { pagination with currentPage }]

end Pagination

/-- The body of an answer, with rows of one type. -/
structure Listing (Row : Type) where
  payload : Option (List Row) := none
  pagination : Option Pagination := none

namespace Listing

variable {Row : Type}

/-- A listing as a document, given how its rows are read and written. -/
def layout (row : Json.Decoder Row) (encodeRow : Row → Json) : Json.Layout (Listing Row) where
  name := "ApiGetResponse"
  strict := false
  initial := {}
  fields := [
    .optional "payload" (.list row) (fun rows => .array (rows.map encodeRow)) Listing.payload
      fun payload listing => { listing with payload },
    .optional "pagination" Pagination.layout.decoder Pagination.layout.encode Listing.pagination
      fun pagination listing => { listing with pagination }]

/-- The decoder of listings whose rows are any documents. -/
def decoder : Json.Decoder (Listing Json) :=
  (layout .any id).decoder

/-- The document that stands for a listing whose rows are any documents. -/
def toJson (listing : Listing Json) : Json :=
  (layout .any id).encode listing

end Listing

end ListQuery
