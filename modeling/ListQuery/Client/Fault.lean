/-
This file names the faults of fetching a listing: the request does not compile,
the exchange with the service fails, or the settings are wrong. Each has the
status that a gateway answers with when it passes the fault on.
-/

import ListQuery.Client.Settings
import ListQuery.Client.Status
import ListQuery.Client.Url
import ListQuery.Fault

namespace ListQuery

/-- Why no answer came. -/
inductive HttpFault where
  | malformedUrl (fault : UrlFault)
  /-- The URL starts with its path, so that it names no service. -/
  | schemeMissing (url : String)
  | schemeUnknown (scheme : String)
  /-- What someone else found wrong with a URL, in their own words. -/
  | badUri (reason : String)
  | connection (reason : String)
deriving DecidableEq, Inhabited

/-- The message of a fault. -/
def HttpFault.message : HttpFault → String
  | .malformedUrl fault => s!"http: {fault.message}"
  | .schemeMissing url => s!"bad uri: {url} is missing scheme"
  | .schemeUnknown scheme => s!"bad uri: unknown scheme: {scheme}"
  | .badUri reason => s!"bad uri: {reason}"
  | .connection reason => reason

/-- Why an exchange brought no listing. -/
inductive TransportFault where
  | http (fault : HttpFault)
  | status (status : Status) (body : String)
  /-- The body of the answer is not a listing. -/
  | body (fault : Json.Fault)
deriving DecidableEq

/-- The message of a fault. -/
def TransportFault.message : TransportFault → String
  | .http fault => s!"http error: {fault.message}"
  | .status answered text => s!"unexpected status {answered.text}: {text}"
  | .body fault => s!"malformed response body: {fault.message}"

/-- Why a listing could not be fetched. -/
inductive FetchFault where
  | query (fault : QueryFault)
  | transport (fault : TransportFault)
  | settings (fault : SettingsFault)
deriving DecidableEq

namespace FetchFault

/-- The message of a fault. -/
def message : FetchFault → String
  | .query fault => s!"query error: {fault.message}"
  | .transport fault => s!"transport error: {fault.message}"
  | .settings fault => s!"config error: {fault.message}"

/-- The status that a gateway answers with. -/
def status : FetchFault → Status
  | .query _ => ⟨400⟩
  | .transport (.status answered _) => answered
  | .transport _ => ⟨502⟩
  | .settings _ => ⟨500⟩

end FetchFault

end ListQuery
