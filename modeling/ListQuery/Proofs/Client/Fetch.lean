/-
This file proves what fetching a list comes to. A request that does not compile is
never sent. Any other goes out in one call, whose target says exactly what the
compiled parameters say; and the answer decides between a refused request, a body
that is no listing, and a listing.
-/

import ListQuery.Proofs.Client.Target
import ListQuery.Proofs.Parameters

namespace ListQuery

/-! ### Answers -/

theorem Status.isSuccess_iff {status : Status} :
    status.isSuccess = true ↔ 200 ≤ status.code ∧ status.code ≤ 299 := by
  rw [isSuccess, Bool.and_eq_true_iff, decide_eq_true_iff, decide_eq_true_iff, Nat.lt_succ_iff]

section Rows

variable {Row : Type} {decoder : Json.Decoder (Listing Row)} {answer : Answer}

theorem listingOf_success (fulfilled : answer.status.isSuccess = true) :
    listingOf decoder (.ok answer) =
      (decoder.ofText answer.body).mapError fun fault => .transport (.body fault) := by
  rw [listingOf, Answer.listing, if_pos fulfilled]
  cases decoder.ofText answer.body <;> rfl

theorem listingOf_failure (failed : ¬answer.status.isSuccess = true) :
    listingOf decoder (.ok answer) =
      .error (.transport (.status answer.status answer.body)) := by
  rw [listingOf, Answer.listing, if_neg failed]
  rfl

/-- A status is reported exactly when it does not say that the request was fulfilled, and then the
body is reported with it. -/
theorem listingOf_eq_status {status : Status} {body : String} :
    listingOf decoder (.ok answer) = .error (.transport (.status status body)) ↔
      ¬(200 ≤ answer.status.code ∧ answer.status.code ≤ 299) ∧
        status = answer.status ∧ body = answer.body := by
  rw [← Status.isSuccess_iff]
  by_cases fulfilled : answer.status.isSuccess = true
  · rw [listingOf_success fulfilled, Traversal.mapError_eq_error]
    refine ⟨?_, fun reported => absurd fulfilled reported.1⟩
    rintro ⟨_, _, reported⟩
    cases reported
  · rw [listingOf_failure fulfilled]
    constructor
    · rintro ⟨⟩
      exact ⟨fulfilled, rfl, rfl⟩
    · rintro ⟨_, rfl, rfl⟩
      rfl

/-- A body is reported exactly when the request was fulfilled and the body is no listing. -/
theorem listingOf_eq_body {fault : Json.Fault} :
    listingOf decoder (.ok answer) = .error (.transport (.body fault)) ↔
      (200 ≤ answer.status.code ∧ answer.status.code ≤ 299) ∧
        decoder.ofText answer.body = .error fault := by
  rw [← Status.isSuccess_iff]
  by_cases fulfilled : answer.status.isSuccess = true
  · rw [listingOf_success fulfilled, Traversal.mapError_eq_error]
    constructor
    · rintro ⟨_, failed, reported⟩
      cases reported
      exact ⟨fulfilled, failed⟩
    · rintro ⟨_, failed⟩
      exact ⟨fault, failed, rfl⟩
  · rw [listingOf_failure fulfilled]
    exact ⟨nofun, fun reported => absurd reported.1 fulfilled⟩

/-- A listing is brought exactly when the request was fulfilled and the body is that listing. -/
theorem listingOf_eq_ok {listing : Listing Row} :
    listingOf decoder (.ok answer) = .ok listing ↔
      (200 ≤ answer.status.code ∧ answer.status.code ≤ 299) ∧
        decoder.ofText answer.body = .ok listing := by
  rw [← Status.isSuccess_iff]
  by_cases fulfilled : answer.status.isSuccess = true
  · rw [listingOf_success fulfilled, Traversal.mapError_eq_ok]
    exact ⟨fun read => ⟨fulfilled, read⟩, And.right⟩
  · rw [listingOf_failure fulfilled]
    exact ⟨nofun, fun brought => absurd brought.1 fulfilled⟩

end Rows

/-! ### Calls -/

namespace Endpoint

variable {plain : UInt8 → Bool} {endpoint : Endpoint} {path : String} {request : Request}

/-- What does not compile makes no call. -/
theorem call_of_fault {fault : QueryFault} (refused : request.compile = .error fault) :
    endpoint.call plain path request = .error (.query fault) := by
  rw [call, refused]
  rfl

/-- A request that compiles makes the call for the URL of the path and for its parameters. -/
theorem call_of_parameters {parameters : Parameters} {url : Url} {secure : Bool}
    (compiled : request.compile = .ok parameters)
    (parsed : Url.parse (endpoint.url path) = .ok url) (service : Call.isSecure url = .ok secure) :
    endpoint.call plain path request =
      .ok ⟨secure, url.host, (url.addPairs plain parameters.pairs).target⟩ := by
  have made : Call.ofText plain (endpoint.url path) parameters.pairs =
      .ok ⟨secure, url.host, (url.addPairs plain parameters.pairs).target⟩ := by
    rw [Call.ofText, parsed]
    show (Call.isSecure url >>= fun secure =>
      Except.ok (Call.mk secure url.host (url.addPairs plain parameters.pairs).target)) = _
    rw [service]
    rfl
  rw [call, compiled]
  show Except.mapError _ (Call.ofText plain (endpoint.url path) parameters.pairs) = _
  rw [made]
  rfl

/-- Fetching a list from a service that answers. Its URL is one of HTTP and has no query of its own.
A request that does not compile is reported and not sent. Otherwise there is one call, to the host
of the URL and encrypted as its scheme says. The target of the call is read back as the path of the
URL and the compiled parameters, with their names in ascending order, and without parameters it has
no query. A status other than of success is reported with the body; under one of success the body is
the listing, or what is wrong with it is reported. -/
theorem fetchRows_faithful {Row : Type} (decoder : Json.Decoder (Listing Row))
    (keeps : Percent.KeepsMarks plain) (settings : Settings) (path : String) (request : Request)
    (answer : Call → Answer) {url : Url} {secure : Bool}
    (parsed : Url.parse ((ofBase settings.baseUrl).url path) = .ok url)
    (service : Call.isSecure url = .ok secure)
    (unmarked : '?' ∉ ((ofBase settings.baseUrl).url path).toList) :
    (∀ fault, request.compile = .error fault →
      (ofBase settings.baseUrl).fetchRows decoder plain (fun call => .ok (answer call)) path
        request = ⟨none, .error (.query fault)⟩) ∧
    ∀ parameters, request.compile = .ok parameters →
      ∃ call result,
        (ofBase settings.baseUrl).fetchRows decoder plain (fun call => .ok (answer call)) path
          request = ⟨some call, result⟩ ∧
        call.host = url.host ∧ call.secure = secure ∧
        RequestLine.read? call.requestLine =
          some ⟨"GET", url.path,
            if parameters.pairs = [] then none else some parameters.pairs, "HTTP/1.1"⟩ ∧
        (parameters.pairs.map Prod.fst).Pairwise (· < ·) ∧
        (∀ status body, result = .error (.transport (.status status body)) ↔
          ¬(200 ≤ (answer call).status.code ∧ (answer call).status.code ≤ 299) ∧
            status = (answer call).status ∧ body = (answer call).body) ∧
        (∀ fault, result = .error (.transport (.body fault)) ↔
          (200 ≤ (answer call).status.code ∧ (answer call).status.code ≤ 299) ∧
            decoder.ofText (answer call).body = .error fault) ∧
        ∀ listing, result = .ok listing ↔
          (200 ≤ (answer call).status.code ∧ (answer call).status.code ≤ 299) ∧
            decoder.ofText (answer call).body = .ok listing := by
  have bare := Url.isBare_of_parse parsed unmarked
  constructor
  · intro fault refused
    rw [fetchRows, call_of_fault refused]
  · intro parameters compiled
    refine ⟨⟨secure, url.host, (url.addPairs plain parameters.pairs).target⟩, _, ?_, rfl, rfl,
      Call.read?_requestLine keeps bare secure url.host parameters.pairs,
      parameters.pairs_ascending, fun _ _ => listingOf_eq_status, fun _ => listingOf_eq_body,
      fun _ => listingOf_eq_ok⟩
    rw [fetchRows, call_of_parameters compiled parsed service]

/-- The settings for a service on the same host. -/
def nearby : Settings where
  baseUrl := "http://127.0.0.1:8080/api/"

/-- The outline and the document arrive as they were compiled, and so does the refusal. -/
theorem fetchRows_faithful_nearby :
    ∃ call result,
      (ofBase nearby.baseUrl).fetchRows Listing.decoder Percent.isPlain
        (fun _ => .ok ⟨⟨404⟩, "no such list"⟩) "/masters" Request.window = ⟨some call, result⟩ ∧
      call.host = "127.0.0.1:8080" ∧ call.secure = false ∧
      RequestLine.read? call.requestLine =
        some ⟨"GET", "/api/masters".toList,
          some [("nested", "author,tags\x7b\x7b\"limit\":5\x7d\x7d"), ("skip", "0"),
            ("where", "\x7b\"age\":\x7b\"$gte\":18\x7d\x7d")], "HTTP/1.1"⟩ ∧
      result = .error (.transport (.status ⟨404⟩ "no such list")) := by
  have parsed : Url.parse ((ofBase nearby.baseUrl).url "/masters") =
      .ok ⟨some "http", "127.0.0.1:8080".toList, "/api/masters".toList, none⟩ := rfl
  have service : Call.isSecure ⟨some "http", "127.0.0.1:8080".toList, "/api/masters".toList,
      none⟩ = .ok false := if_pos (by decide +kernel)
  obtain ⟨call, result, fetched, host, secure, line, _, refused, _⟩ :=
    (fetchRows_faithful Listing.decoder Percent.keepsMarks_isPlain nearby "/masters"
      Request.window (fun _ => ⟨⟨404⟩, "no such list"⟩) parsed service (by decide)).2 _ rfl
  exact ⟨call, result, fetched, host, secure, line, (refused _ _).mpr ⟨by decide, rfl, rfl⟩⟩

end Endpoint

end ListQuery
