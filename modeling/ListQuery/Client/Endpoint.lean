/-
This file joins the base URL of a service and the path of a list. Slashes at the
seam count for nothing: there is always exactly one.
-/

namespace ListQuery

/-- A service that lists are fetched from, by its base URL without slashes at the end. -/
structure Endpoint where
  base : List Char
deriving DecidableEq

namespace Endpoint

/-- Whether a character is the slash that separates the parts of a path. -/
def isSlash (char : Char) : Bool :=
  char = '/'

/-- The service with a base URL, which may end in slashes. -/
def ofBase (url : String) : Endpoint where
  base := (url.toList.reverse.dropWhile isSlash).reverse

/-- The base URL. -/
def baseUrl (endpoint : Endpoint) : String :=
  String.ofList endpoint.base

/-- The URL of a path, which may start with slashes. -/
def url (endpoint : Endpoint) (path : String) : String :=
  String.ofList (endpoint.base ++ '/' :: path.toList.dropWhile isSlash)

end Endpoint

end ListQuery
