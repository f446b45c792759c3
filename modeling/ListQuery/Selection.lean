/-
This file holds selections, the fields of each row that a request asks for. Order
and repetition are kept, as they have no meaning here.
-/

import ListQuery.Json.Decoder

namespace ListQuery

/-- The fields of each row to answer with. -/
abbrev Selection := List String

namespace Selection

/-- The decoder of selections. -/
def decoder : Json.Decoder Selection :=
  .list .string

/-- The document that stands for a selection. -/
def toJson (selection : Selection) : Json :=
  .array (selection.map .string)

end Selection

end ListQuery
