/-
This file holds the command line tool as a function of its surroundings. It reads
a request from its input. Without a base URL in the environment it prints the
compiled parameters; with one it fetches the list named by its first argument and
prints the listing. Whatever goes wrong is told in one line, and nothing is
printed then. One thing alone is not told like this: when an argument that is
looked at is no text, the tool panics.
-/

import ListQuery.Client.Fetch

namespace ListQuery

namespace Command

/-- What the tool finds when it starts. -/
structure Surroundings where
  /-- The input, unless it is no text. -/
  input : Option String
  /-- The arguments, each unless it is no text. The name of the tool is the first of them. -/
  arguments : List (Option String)
  /-- What the variables hold that are set to a text. -/
  environment : String → Option String
  /-- Whether a variable is set to something that is no text. -/
  isObscure : String → Bool := fun _ => false

/-- Whether a variable is set, whatever it holds. -/
def Surroundings.isSet (surroundings : Surroundings) (name : String) : Bool :=
  (surroundings.environment name).isSome || surroundings.isObscure name

/-- Why the tool fails. -/
inductive Fault where
  /-- The input is no text. -/
  | encoding
  | input (fault : Json.Fault)
  | query (fault : QueryFault)
  | fetch (fault : FetchFault)

/-- The message of a fault. -/
def Fault.message : Fault → String
  | .encoding => "stream did not contain valid UTF-8"
  | .input fault => fault.message
  | .query fault => fault.message
  | .fetch fault => fault.message

/-- What the tool leaves behind. -/
structure Outcome where
  code : Nat
  output : String
  /-- What the tool tells of a fault. What it logs, and what is told of a panic, is left out. -/
  complaint : String
deriving DecidableEq

/-- What a panic leaves behind. -/
def Outcome.panic : Outcome := ⟨101, "", ""⟩

/-- The outcome of a run that ends in a document to print, or in a fault. -/
def outcome : Except Fault Json → Outcome
  | .ok document => ⟨0, document.indented ++ "\n", ""⟩
  | .error fault => ⟨1, "", s!"nestq-fetch: {fault.message}\n"⟩

/-- What is left to do once the input and the settings are known. -/
inductive Step where
  | print (document : Json)
  | send (call : Call) (timeoutMs : Count)
  | panic

/-- The request in the input; a blank input asks for everything. -/
def readRequest : Option String → Except Fault Request
  | none => .error .encoding
  | some input =>
    if Text.isBlank input then .ok {} else (Request.decoder.ofText input).mapError .input

/-- The path that the arguments name, which follows the name of the tool. There is none if either of
the two is no text. -/
def path? : List (Option String) → Option String
  | [] | [some _] => some "/"
  | some _ :: path :: _ => path
  | none :: _ => none

/-- What the tool does before it talks to a service. -/
def prepare (surroundings : Surroundings) : Except Fault Step := do
  let request ← readRequest surroundings.input
  if surroundings.isSet Settings.baseUrlVariable then
    let settings ← (Settings.ofEnvironment surroundings.environment).mapError fun fault =>
      .fetch (.settings fault)
    match path? surroundings.arguments with
    | none => return .panic
    | some path =>
      let call ← ((Endpoint.ofBase settings.baseUrl).call Percent.isPlain path request).mapError
        .fetch
      return .send call settings.timeoutMs
  else return .print (← request.compile.mapError .query).toJson

/-- What the tool prints once the service has answered. -/
def conclude (answer : Except HttpFault Answer) : Except Fault Json := do
  let listing ← (listingOf Listing.decoder answer).mapError .fetch
  return listing.toJson

/-- A whole run against a service, with the call that was sent, if any. -/
def run (surroundings : Surroundings) (server : Call → Except HttpFault Answer) :
    Option Call × Outcome :=
  match prepare surroundings with
  | .error fault => (none, outcome (.error fault))
  | .ok (.print document) => (none, outcome (.ok document))
  | .ok (.send call _) => (some call, outcome (conclude (server call)))
  | .ok .panic => (none, .panic)

end Command

end ListQuery
