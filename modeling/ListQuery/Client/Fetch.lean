/-
This file fetches listings. The exchange with the service is a function of the
call, so fetching is one too; a request that does not compile is never sent, nor
is one whose path and base URL make no URL of a service. Which bytes of the
parameters go unescaped is for the one who sends the call to choose.
-/

import ListQuery.Client.Endpoint
import ListQuery.Client.Fault
import ListQuery.Listing
import ListQuery.Parameters

namespace ListQuery

/-- A request as it goes to a service: whom it is for, and what it names there. -/
structure Call where
  /-- Whether the exchange has to be encrypted. -/
  secure : Bool
  /-- The name of the service, with its number on the host if that is given. -/
  host : String
  target : String
deriving DecidableEq

namespace Call

/-- The first line of the request. -/
def requestLine (call : Call) : String :=
  s!"GET {call.target} HTTP/1.1"

/-- The kind of content that the request asks for. -/
def accept : String := "application/json"

/-- Whether exchanges with the service of a URL are encrypted, as its scheme says. The service has
to be one that speaks HTTP. -/
def isSecure (url : Url) : Except HttpFault Bool :=
  match url.scheme with
  | none => .error (.schemeMissing url.target)
  | some scheme =>
    if scheme.toLower = "http" then .ok false
    else if scheme.toLower = "https" then .ok true
    else .error (.schemeUnknown scheme)

/-- The call for a URL with further pairs in its query. What is wrong with the URL is found before
the pairs are added to it. -/
def ofText (plain : UInt8 → Bool) (url : String) (pairs : List (String × String)) :
    Except HttpFault Call := do
  let url ← (Url.parse url).mapError .malformedUrl
  let secure ← isSecure url
  return ⟨secure, url.host, (url.addPairs plain pairs).target⟩

end Call

/-- What a service answers. -/
structure Answer where
  status : Status
  body : String
deriving DecidableEq

namespace Answer

/-- The answer that arrives when a service sends a status and a body. What comes with a status that
has no body is not taken for one. -/
def received (status : Status) (body : String) : Answer :=
  ⟨status, if status.hasBody then body else ""⟩

/-- The listing that an answer brings, given how listings are read. -/
def listing {Row : Type} (decoder : Json.Decoder (Listing Row)) (answer : Answer) :
    Except TransportFault (Listing Row) :=
  if answer.status.isSuccess then (decoder.ofText answer.body).mapError .body
  else .error (.status answer.status answer.body)

end Answer

namespace Endpoint

/-- The call that asks for a list. -/
def call (plain : UInt8 → Bool) (endpoint : Endpoint) (path : String) (request : Request) :
    Except FetchFault Call := do
  let parameters ← request.compile.mapError .query
  (Call.ofText plain (endpoint.url path) parameters.pairs).mapError fun fault =>
    .transport (.http fault)

end Endpoint

/-- What a fetch sent, if anything, and what came of it. -/
structure Exchange (Row : Type) where
  sent : Option Call
  result : Except FetchFault (Listing Row)

section Rows

variable {Row : Type} (decoder : Json.Decoder (Listing Row))

/-- The listing that an exchange brings. -/
def listingOf (answer : Except HttpFault Answer) : Except FetchFault (Listing Row) :=
  match answer with
  | .ok answer => (answer.listing decoder).mapError .transport
  | .error fault => .error (.transport (.http fault))

/-- Fetches a list from a service, which is given by its answers to calls, for rows of any type. -/
def Endpoint.fetchRows (plain : UInt8 → Bool) (endpoint : Endpoint)
    (server : Call → Except HttpFault Answer) (path : String) (request : Request) :
    Exchange Row :=
  match endpoint.call plain path request with
  | .error fault => ⟨none, .error fault⟩
  | .ok call => ⟨some call, listingOf decoder (server call)⟩

end Rows

/-- Fetches a list whose rows are any documents. -/
def Endpoint.fetch (endpoint : Endpoint) (server : Call → Except HttpFault Answer) (path : String)
    (request : Request) : Exchange Json :=
  endpoint.fetchRows Listing.decoder Percent.isPlain server path request

end ListQuery
