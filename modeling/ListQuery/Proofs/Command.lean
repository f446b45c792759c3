/-
This file proves what a run of the tool leaves behind. It prints a document and
nothing is wrong, or it prints nothing and tells of one fault, the first that is met:
the input comes before the settings, these come before the request, the request is
sent only if it passes all of them, and then the answer may still be at fault. A run
that comes to look at an argument that is no text does neither; it panics. Without a
base URL the document is that of the compiled parameters, and it is read back from
what was printed.
-/

import ListQuery.Command
import ListQuery.Proofs.Client.Fetch
import ListQuery.Proofs.Json.Indented

namespace ListQuery

/-! ### Parameters as a document -/

namespace Parameters

variable (parameters : Parameters)

/-- The names of parameters are distinct, since they ascend. -/
theorem distinct_pairs : Keyed.Distinct Prod.fst parameters.pairs :=
  parameters.pairs_ascending.imp fun less same => absurd (same ▸ less) (String.lt_irrefl _)

theorem toJson_wellFormed : parameters.toJson.WellFormed := by
  rw [toJson, Json.wellFormed_object, List.forall_mem_map]
  refine ⟨?_, fun _ _ => trivial⟩
  rw [Keyed.Distinct, List.map_map]
  exact parameters.distinct_pairs

theorem numbers_toJson (number : Number) : number ∉ parameters.toJson.numbers := by
  rw [toJson, Json.mem_numbers_object]
  rintro ⟨member, held, inside⟩
  obtain ⟨pair, _, rfl⟩ := List.mem_map.mp held
  cases inside

theorem opened_toJson_le : parameters.toJson.opened ≤ Json.maxOpen := by
  rw [toJson]
  refine Json.opened_object_le_iff.mpr ?_
  rw [List.forall_mem_map]
  exact fun _ _ => Nat.zero_le _

end Parameters

namespace Command

/-! ### The input -/

/-- What an input asks for: everything if it is blank, else the request that it is read as. -/
inductive Asks : Option String → Request → Prop
  | everything {text : String} (blank : Text.isBlank text = true) : Asks (some text) {}
  | request {text : String} {request : Request} (solid : Text.isBlank text = false)
      (decoded : Request.decoder.ofText text = .ok request) : Asks (some text) request

/-- What is wrong with an input: it is no text, or no request can be read from it. -/
inductive Unreadable : Option String → Fault → Prop
  | encoding : Unreadable none .encoding
  | input {text : String} {fault : Json.Fault} (solid : Text.isBlank text = false)
      (refused : Request.decoder.ofText text = .error fault) : Unreadable (some text) (.input fault)

variable {input : Option String} {request : Request} {fault : Fault}

theorem readRequest_of_asks (asks : Asks input request) : readRequest input = .ok request := by
  cases asks with
  | everything blank => rw [readRequest, if_pos blank]
  | request solid decoded =>
    rw [readRequest, if_neg (solid ▸ Bool.false_ne_true), decoded]
    rfl

theorem readRequest_of_unreadable (unreadable : Unreadable input fault) :
    readRequest input = .error fault := by
  cases unreadable with
  | encoding => rfl
  | input solid refused =>
    rw [readRequest, if_neg (solid ▸ Bool.false_ne_true), refused]
    rfl

/-- An input asks for something, or something is wrong with it. -/
theorem asks_or_unreadable (input : Option String) :
    (∃ request, Asks input request) ∨ ∃ fault, Unreadable input fault := by
  cases input with
  | none => exact .inr ⟨_, .encoding⟩
  | some text =>
    cases solid : Text.isBlank text with
    | true => exact .inl ⟨_, .everything solid⟩
    | false =>
      cases decoded : Request.decoder.ofText text with
      | ok request => exact .inl ⟨request, .request solid decoded⟩
      | error fault => exact .inr ⟨_, .input solid decoded⟩

/-! ### Runs -/

variable {surroundings : Surroundings} {server : Call → Except HttpFault Answer}
  {parameters : Parameters} {settings : Settings}

/-- What a run leaves behind that succeeds. -/
def success (document : Json) : Outcome := ⟨0, document.indented ++ "\n", ""⟩

/-- What a run leaves behind that fails. -/
def failure (fault : Fault) : Outcome := ⟨1, "", "nestq-fetch: " ++ fault.message ++ "\n"⟩

theorem run_of_unreadable (unreadable : Unreadable surroundings.input fault) :
    run surroundings server = (none, failure fault) := by
  have stopped : prepare surroundings = .error fault := by
    rw [prepare, readRequest_of_unreadable unreadable]
    rfl
  rw [run, stopped]
  rfl

/-- Without a base URL the parameters are printed, or what is wrong with the request is told. -/
theorem run_unset (asks : Asks surroundings.input request)
    (unset : surroundings.isSet Settings.baseUrlVariable = false) :
    run surroundings server =
      (none, outcome ((request.compile.mapError .query).map Parameters.toJson)) := by
  have prepared : prepare surroundings =
      (request.compile.mapError .query).map fun parameters => .print parameters.toJson := by
    rw [prepare, readRequest_of_asks asks]
    show ite _ _ _ = _
    rw [if_neg (unset ▸ Bool.false_ne_true)]
    cases request.compile <;> rfl
  rw [run, prepared]
  cases request.compile <;> rfl

/-- With a base URL the settings come next. -/
theorem run_of_settingsFault (asks : Asks surroundings.input request)
    (set : surroundings.isSet Settings.baseUrlVariable = true) {fault : SettingsFault}
    (unsettled : Settings.ofEnvironment surroundings.environment = .error fault) :
    run surroundings server = (none, failure (.fetch (.settings fault))) := by
  have stopped : prepare surroundings = .error (.fetch (.settings fault)) := by
    rw [prepare, readRequest_of_asks asks]
    show ite _ _ _ = _
    rw [if_pos set, unsettled]
    rfl
  rw [run, stopped]
  rfl

/-! ### Arguments -/

theorem path?_eq_none {arguments : List (Option String)} :
    path? arguments = none ↔ none ∈ arguments.take 2 := by
  match arguments with
  | [] => exact ⟨nofun, nofun⟩
  | none :: _ => exact ⟨fun _ => List.mem_cons_self, fun _ => rfl⟩
  | [some _] => exact ⟨nofun, nofun⟩
  | some _ :: none :: _ =>
    exact ⟨fun _ => List.mem_cons_of_mem _ List.mem_cons_self, fun _ => rfl⟩
  | some _ :: some _ :: _ => exact ⟨nofun, nofun⟩

/-- With settings the path is looked for, and the call is made for it. -/
theorem prepare_of_settings (asks : Asks surroundings.input request)
    (set : surroundings.isSet Settings.baseUrlVariable = true)
    (settled : Settings.ofEnvironment surroundings.environment = .ok settings) :
    prepare surroundings =
      match path? surroundings.arguments with
      | none => .ok .panic
      | some path =>
        (((Endpoint.ofBase settings.baseUrl).call Percent.isPlain path request).mapError
          Fault.fetch).map fun call => .send call settings.timeoutMs := by
  rw [prepare, readRequest_of_asks asks]
  show ite _ _ _ = _
  rw [if_pos set, settled]
  cases path? surroundings.arguments with
  | none => rfl
  | some path =>
    cases (Endpoint.ofBase settings.baseUrl).call Percent.isPlain path request <;> rfl

/-- A run panics: its input and its settings are in order, and then an argument is no text that is
looked at. -/
structure Panics (surroundings : Surroundings) : Prop where
  asks : ∃ request, Asks surroundings.input request
  set : surroundings.isSet Settings.baseUrlVariable = true
  settled : ∃ settings, Settings.ofEnvironment surroundings.environment = .ok settings
  obscure : none ∈ surroundings.arguments.take 2

theorem run_of_panics (panics : Panics surroundings) :
    run surroundings server = (none, .panic) := by
  obtain ⟨⟨request, asks⟩, set, ⟨settings, settled⟩, obscure⟩ := panics
  have prepared := prepare_of_settings asks set settled
  rw [path?_eq_none.mpr obscure] at prepared
  rw [run, prepared]

/-! ### Calls -/

/-- A run comes to fetch a list, for which it makes a call or fails to make one. -/
inductive Fetches (surroundings : Surroundings) (attempt : Except FetchFault Call) : Prop
  | intro {request : Request} {settings : Settings} {path : String}
      (asks : Asks surroundings.input request)
      (set : surroundings.isSet Settings.baseUrlVariable = true)
      (settled : Settings.ofEnvironment surroundings.environment = .ok settings)
      (named : path? surroundings.arguments = some path)
      (made : (Endpoint.ofBase settings.baseUrl).call Percent.isPlain path request = attempt) :
      Fetches surroundings attempt

theorem prepare_of_fetches {attempt : Except FetchFault Call}
    (fetches : Fetches surroundings attempt) :
    ∃ timeoutMs, prepare surroundings =
      (attempt.mapError Fault.fetch).map fun call => .send call timeoutMs := by
  cases fetches with
  | @intro _ settings _ asks set settled named made =>
    refine ⟨settings.timeoutMs, ?_⟩
    rw [prepare_of_settings asks set settled, named, ← made]

theorem run_of_fault {fault : FetchFault} (fetches : Fetches surroundings (.error fault)) :
    run surroundings server = (none, failure (.fetch fault)) := by
  obtain ⟨_, prepared⟩ := prepare_of_fetches fetches
  rw [run, prepared]
  rfl

theorem run_of_call {call : Call} (fetches : Fetches surroundings (.ok call)) :
    run surroundings server = (some call, outcome (conclude (server call))) := by
  obtain ⟨_, prepared⟩ := prepare_of_fetches fetches
  rw [run, prepared]
  rfl

/-- What is printed is the listing that the answer brings. -/
theorem conclude_eq (answer : Except HttpFault Answer) :
    conclude answer = ((listingOf Listing.decoder answer).mapError .fetch).map Listing.toJson := by
  rw [conclude]
  cases listingOf Listing.decoder answer <;> rfl

/-! ### Outcomes -/

/-- What a run prints if it succeeds. Without a base URL it is the compiled parameters; with one it
is the listing in the body of an answer with a status of success. -/
inductive Prints (surroundings : Surroundings) (server : Call → Except HttpFault Answer) :
    Json → Prop
  | parameters {request : Request} {parameters : Parameters}
      (asks : Asks surroundings.input request)
      (unset : surroundings.isSet Settings.baseUrlVariable = false)
      (compiled : request.compile = .ok parameters) : Prints surroundings server parameters.toJson
  | listing {call : Call} {answer : Answer} {listing : Listing Json}
      (fetches : Fetches surroundings (.ok call)) (answered : server call = .ok answer)
      (fulfilled : 200 ≤ answer.status.code ∧ answer.status.code ≤ 299)
      (read : Listing.decoder.ofText answer.body = .ok listing) :
      Prints surroundings server listing.toJson

/-- The fault that a run meets first. The input is read first of all. If the base URL is not set,
the request is compiled. If it is set, the settings come next, then a call is made, and then the
answer to it may be missing, have a status other than of success, or bring no listing. -/
inductive Meets (surroundings : Surroundings) (server : Call → Except HttpFault Answer) :
    Fault → Prop
  | input {fault : Fault} (unreadable : Unreadable surroundings.input fault) :
      Meets surroundings server fault
  | query {request : Request} {fault : QueryFault} (asks : Asks surroundings.input request)
      (unset : surroundings.isSet Settings.baseUrlVariable = false)
      (refused : request.compile = .error fault) : Meets surroundings server (.query fault)
  | settings {request : Request} {fault : SettingsFault} (asks : Asks surroundings.input request)
      (set : surroundings.isSet Settings.baseUrlVariable = true)
      (unsettled : Settings.ofEnvironment surroundings.environment = .error fault) :
      Meets surroundings server (.fetch (.settings fault))
  | call {fault : FetchFault} (fetches : Fetches surroundings (.error fault)) :
      Meets surroundings server (.fetch fault)
  | connection {call : Call} {fault : HttpFault} (fetches : Fetches surroundings (.ok call))
      (failed : server call = .error fault) :
      Meets surroundings server (.fetch (.transport (.http fault)))
  | status {call : Call} {answer : Answer} (fetches : Fetches surroundings (.ok call))
      (answered : server call = .ok answer)
      (failed : ¬(200 ≤ answer.status.code ∧ answer.status.code ≤ 299)) :
      Meets surroundings server (.fetch (.transport (.status answer.status answer.body)))
  | body {call : Call} {answer : Answer} {fault : Json.Fault}
      (fetches : Fetches surroundings (.ok call)) (answered : server call = .ok answer)
      (fulfilled : 200 ≤ answer.status.code ∧ answer.status.code ≤ 299)
      (unreadable : Listing.decoder.ofText answer.body = .error fault) :
      Meets surroundings server (.fetch (.transport (.body fault)))

theorem run_of_listing {call : Call} {answer : Answer} {listing : Listing Json}
    (fetches : Fetches surroundings (.ok call)) (answered : server call = .ok answer)
    (fulfilled : 200 ≤ answer.status.code ∧ answer.status.code ≤ 299)
    (read : Listing.decoder.ofText answer.body = .ok listing) :
    run surroundings server = (some call, success listing.toJson) := by
  rw [run_of_call fetches, conclude_eq, answered, listingOf_eq_ok.mpr ⟨fulfilled, read⟩]
  rfl

/-- A run prints what it is to print. -/
theorem run_of_prints {document : Json} (prints : Prints surroundings server document) :
    (run surroundings server).2 = success document := by
  cases prints with
  | parameters asks unset compiled =>
    rw [run_unset asks unset, compiled]
    rfl
  | listing fetches answered fulfilled read =>
    rw [run_of_listing fetches answered fulfilled read]

/-- A run fails with the fault that it meets first. -/
theorem run_of_meets (met : Meets surroundings server fault) :
    (run surroundings server).2 = failure fault := by
  cases met with
  | input unreadable => rw [run_of_unreadable unreadable]
  | query asks unset refused =>
    rw [run_unset asks unset, refused]
    rfl
  | settings asks set unsettled => rw [run_of_settingsFault asks set unsettled]
  | call fetches => rw [run_of_fault fetches]
  | connection fetches failed =>
    rw [run_of_call fetches, failed]
    rfl
  | status fetches answered failed =>
    rw [run_of_call fetches, conclude_eq, answered,
      listingOf_eq_status.mpr ⟨failed, rfl, rfl⟩]
    rfl
  | body fetches answered fulfilled unreadable =>
    rw [run_of_call fetches, conclude_eq, answered,
      listingOf_eq_body.mpr ⟨fulfilled, unreadable⟩]
    rfl

/-- Once a run comes to fetch a list, it prints one or meets a fault. -/
theorem prints_or_meets_of_fetches {attempt : Except FetchFault Call}
    (fetches : Fetches surroundings attempt) :
    (∃ document, Prints surroundings server document) ∨
      ∃ fault, Meets surroundings server fault := by
  cases attempt with
  | error fault => exact .inr ⟨_, .call fetches⟩
  | ok call =>
    cases answered : server call with
    | error fault => exact .inr ⟨_, .connection fetches answered⟩
    | ok answer =>
      by_cases fulfilled : 200 ≤ answer.status.code ∧ answer.status.code ≤ 299
      · cases read : Listing.decoder.ofText answer.body with
        | error fault => exact .inr ⟨_, .body fetches answered fulfilled read⟩
        | ok listing => exact .inl ⟨_, .listing fetches answered fulfilled read⟩
      · exact .inr ⟨_, .status fetches answered fulfilled⟩

/-- A run has something to print, or it meets a fault, or it panics. -/
theorem prints_or_meets_or_panics (surroundings : Surroundings)
    (server : Call → Except HttpFault Answer) :
    (∃ document, Prints surroundings server document) ∨
      (∃ fault, Meets surroundings server fault) ∨ Panics surroundings := by
  rcases asks_or_unreadable surroundings.input with ⟨request, asks⟩ | ⟨fault, unreadable⟩
  case inr => exact .inr (.inl ⟨fault, .input unreadable⟩)
  cases set : surroundings.isSet Settings.baseUrlVariable with
  | false =>
    cases compiled : request.compile with
    | ok parameters => exact .inl ⟨_, .parameters asks set compiled⟩
    | error fault => exact .inr (.inl ⟨_, .query asks set compiled⟩)
  | true =>
    cases settled : Settings.ofEnvironment surroundings.environment with
    | error fault => exact .inr (.inl ⟨_, .settings asks set settled⟩)
    | ok settings =>
      cases named : path? surroundings.arguments with
      | none =>
        exact .inr (.inr ⟨⟨_, asks⟩, set, ⟨_, settled⟩, path?_eq_none.mp named⟩)
      | some path =>
        rcases prints_or_meets_of_fetches (.intro asks set settled named rfl) with prints | met
        · exact .inl prints
        · exact .inr (.inl met)

/-- A run succeeds with a document, or fails with the fault that it meets first, or panics. -/
theorem run_cases (surroundings : Surroundings) (server : Call → Except HttpFault Answer) :
    (∃ document, Prints surroundings server document ∧
      (run surroundings server).2 = success document) ∨
    (∃ fault, Meets surroundings server fault ∧ (run surroundings server).2 = failure fault) ∨
    Panics surroundings ∧ run surroundings server = (none, .panic) := by
  rcases prints_or_meets_or_panics surroundings server with
    ⟨document, prints⟩ | ⟨fault, met⟩ | panics
  · exact .inl ⟨document, prints, run_of_prints prints⟩
  · exact .inr (.inl ⟨fault, met, run_of_meets met⟩)
  · exact .inr (.inr ⟨panics, run_of_panics panics⟩)

/-! ### What is printed -/

theorem success_output_ne (document : Json) : (success document).output ≠ "" := by
  rw [success, ← String.toList_inj.ne, String.toList_append]
  exact List.append_ne_nil_of_right_ne_nil _ (List.cons_ne_nil _ _)

/-- Printed parameters are read back as they were compiled. -/
theorem ofText_success (parameters : Parameters) :
    Json.ofText (success parameters.toJson).output = .ok parameters.toJson := by
  have lineEnd : Json.Blank "\n".toList := List.forall_mem_singleton.mpr rfl
  exact Json.ofText_indented parameters.toJson_wellFormed
    (fun number member => absurd member (parameters.numbers_toJson number))
    parameters.opened_toJson_le lineEnd

/-- Without a base URL a run succeeds exactly with an input that is blank or holds a request that
compiles. -/
theorem unset_succeeds_iff (unset : surroundings.isSet Settings.baseUrlVariable = false) :
    (run surroundings server).2.code = 0 ↔ ∃ text, surroundings.input = some text ∧
      (Text.isBlank text = true ∨ ∃ request parameters,
        Request.decoder.ofText text = .ok request ∧ request.compile = .ok parameters) := by
  rcases asks_or_unreadable surroundings.input with ⟨request, asks⟩ | ⟨fault, unreadable⟩
  · rw [run_unset asks unset]
    generalize given : surroundings.input = input at asks
    cases asks with
    | everything blank => exact ⟨fun _ => ⟨_, rfl, .inl blank⟩, fun _ => rfl⟩
    | @request text request solid decoded =>
      cases compiled : request.compile with
      | ok parameters =>
        exact ⟨fun _ => ⟨text, rfl, .inr ⟨request, parameters, decoded, compiled⟩⟩, fun _ => rfl⟩
      | error fault =>
        refine ⟨nofun, ?_⟩
        rintro ⟨_, ⟨⟩, blank | ⟨other, parameters, otherDecoded, otherCompiled⟩⟩
        · exact Bool.noConfusion (solid.symm.trans blank)
        · cases decoded.symm.trans otherDecoded
          cases compiled.symm.trans otherCompiled
  · rw [run_of_unreadable unreadable]
    refine ⟨nofun, ?_⟩
    rintro ⟨text, given, accepted⟩
    rw [given] at unreadable
    cases unreadable with
    | input solid refused =>
      rcases accepted with blank | ⟨other, _, decoded, _⟩
      · exact Bool.noConfusion (solid.symm.trans blank)
      · cases refused.symm.trans decoded

/-- With a base URL a run succeeds exactly when it makes a call, and the call is answered with a
status of success and a listing. -/
theorem set_succeeds_iff (set : surroundings.isSet Settings.baseUrlVariable = true) :
    (run surroundings server).2.code = 0 ↔ ∃ call answer listing,
      Fetches surroundings (.ok call) ∧ server call = .ok answer ∧
        (200 ≤ answer.status.code ∧ answer.status.code ≤ 299) ∧
        Listing.decoder.ofText answer.body = .ok listing := by
  constructor
  · rcases run_cases surroundings server with ⟨document, prints, _⟩ | ⟨_, _, left⟩ | ⟨_, left⟩
    · intro _
      cases prints with
      | parameters asks unset compiled => exact Bool.noConfusion (unset.symm.trans set)
      | listing fetches answered fulfilled read =>
        exact ⟨_, _, _, fetches, answered, fulfilled, read⟩
    · rw [left]
      exact nofun
    · rw [left]
      exact nofun
  · rintro ⟨_, _, _, fetches, answered, fulfilled, read⟩
    rw [run_of_listing fetches answered fulfilled read]
    rfl

/-- A run has the code of a panic exactly when it panics. -/
theorem panics_iff : (run surroundings server).2.code = 101 ↔ Panics surroundings := by
  constructor
  · rcases run_cases surroundings server with ⟨_, _, left⟩ | ⟨_, _, left⟩ | ⟨panics, _⟩
    · rw [left]
      exact nofun
    · rw [left]
      exact nofun
    · exact fun _ => panics
  · intro panics
    rw [run_of_panics panics]
    rfl

/-- What a run leaves behind, whatever it starts from and whatever the service answers. It prints
something exactly when it succeeds. It panics, and sends nothing, exactly when its input and its
settings are in order and an argument that it then looks at is no text. Otherwise it fails with the
fault that it meets first, and tells of that. Without a base URL it succeeds exactly with an input
that is blank or holds a request that compiles, sends nothing, and prints the compiled parameters,
with their names in ascending order. With a base URL, be it as it may, it succeeds exactly when its
call is answered with a status of success and a listing, which it prints; what is wrong with the
input is told before what is wrong with the settings, and that before what is wrong with the
request, and nothing is sent then. -/
theorem run_leaves (surroundings : Surroundings) (server : Call → Except HttpFault Answer) :
    ((run surroundings server).2.output ≠ "" ↔ (run surroundings server).2.code = 0) ∧
    ((run surroundings server).2.code = 101 ↔ Panics surroundings) ∧
    (Panics surroundings → run surroundings server = (none, .panic)) ∧
    (∀ fault, Meets surroundings server fault → (run surroundings server).2 = failure fault) ∧
    ((run surroundings server).2.code ≠ 0 → ¬Panics surroundings →
      (run surroundings server).2.code = 1 ∧
        ∃ fault, Meets surroundings server fault ∧
          (run surroundings server).2.complaint = "nestq-fetch: " ++ fault.message ++ "\n") ∧
    (surroundings.isSet Settings.baseUrlVariable = false →
      ((run surroundings server).2.code = 0 ↔ ∃ text, surroundings.input = some text ∧
        (Text.isBlank text = true ∨ ∃ request parameters,
          Request.decoder.ofText text = .ok request ∧ request.compile = .ok parameters)) ∧
      (run surroundings server).1 = none ∧
      (∀ text, surroundings.input = some text → Text.isBlank text = true →
        Json.ofText (run surroundings server).2.output = .ok (.object [])) ∧
      ∀ text request parameters, surroundings.input = some text → Text.isBlank text = false →
        Request.decoder.ofText text = .ok request → request.compile = .ok parameters →
          (parameters.pairs.map Prod.fst).Pairwise (· < ·) ∧
          Json.ofText (run surroundings server).2.output =
            .ok (.object (parameters.pairs.map fun (name, text) => (name, .string text)))) ∧
    (surroundings.isSet Settings.baseUrlVariable = true →
      ((run surroundings server).2.code = 0 ↔ ∃ call answer listing,
        Fetches surroundings (.ok call) ∧ server call = .ok answer ∧
          (200 ≤ answer.status.code ∧ answer.status.code ≤ 299) ∧
          Listing.decoder.ofText answer.body = .ok listing) ∧
      (∀ call answer listing, Fetches surroundings (.ok call) → server call = .ok answer →
        200 ≤ answer.status.code ∧ answer.status.code ≤ 299 →
        Listing.decoder.ofText answer.body = .ok listing →
          run surroundings server = (some call, success listing.toJson)) ∧
      (∀ fault, Unreadable surroundings.input fault →
        run surroundings server = (none, failure fault)) ∧
      (∀ request fault, Asks surroundings.input request →
        Settings.ofEnvironment surroundings.environment = .error fault →
          run surroundings server = (none, failure (.fetch (.settings fault)))) ∧
      ∀ request settings fault, Asks surroundings.input request →
        Settings.ofEnvironment surroundings.environment = .ok settings →
        none ∉ surroundings.arguments.take 2 → request.compile = .error fault →
          run surroundings server = (none, failure (.fetch (.query fault)))) := by
  refine ⟨?_, panics_iff, run_of_panics, fun _ => run_of_meets, ?_,
    fun unset => ⟨unset_succeeds_iff unset, ?_, ?_, ?_⟩,
    fun set => ⟨set_succeeds_iff set, fun _ _ _ => run_of_listing,
      fun _ unreadable => run_of_unreadable unreadable,
      fun _ _ asks unsettled => run_of_settingsFault asks set unsettled, ?_⟩⟩
  · rcases run_cases surroundings server with ⟨document, _, left⟩ | ⟨fault, _, left⟩ | ⟨_, left⟩
    · rw [left]
      exact ⟨fun _ => rfl, fun _ => success_output_ne document⟩
    · rw [left]
      exact ⟨fun printed => absurd rfl printed, nofun⟩
    · rw [left]
      exact ⟨fun printed => absurd rfl printed, nofun⟩
  · rcases run_cases surroundings server with ⟨document, _, left⟩ | ⟨fault, met, left⟩ | ⟨panics, _⟩
    · rw [left]
      exact fun failed => absurd rfl failed
    · rw [left]
      exact fun _ _ => ⟨rfl, fault, met, rfl⟩
    · exact fun _ calm => absurd panics calm
  · rcases asks_or_unreadable surroundings.input with ⟨request, asks⟩ | ⟨fault, unreadable⟩
    · rw [run_unset asks unset]
    · rw [run_of_unreadable unreadable]
  · intro text given blank
    have asks : Asks surroundings.input {} := given ▸ .everything blank
    rw [run_unset asks unset]
    exact ofText_success {}
  · intro text request parameters given solid decoded compiled
    have asks : Asks surroundings.input request := given ▸ .request solid decoded
    rw [run_unset asks unset, compiled]
    exact ⟨parameters.pairs_ascending, ofText_success parameters⟩
  · intro request settings fault asks settled legible refused
    obtain ⟨path, named⟩ := Option.ne_none_iff_exists'.mp (mt path?_eq_none.mp legible)
    exact run_of_fault (.intro asks set settled named (Endpoint.call_of_fault refused))

/-- Surroundings with one argument after the name of the tool, with no variable but the base URL, if
that is set. -/
def plainly (input : String) (argument baseUrl : Option String) : Surroundings where
  input := some input
  arguments := [some "nestq-fetch", argument]
  environment := fun name => if name = Settings.baseUrlVariable then baseUrl else none

/-- A service that does not answer. -/
def silent : Call → Except HttpFault Answer :=
  fun _ => .error (.connection "io: Connection refused")

/-- A service that answers every call alike. -/
def steady (code : Nat) (body : String) : Call → Except HttpFault Answer :=
  fun _ => .ok ⟨⟨code⟩, body⟩

/-- A request is read from the input of the tool, which is to fetch a list from a service on the
same host. -/
def nearby : Surroundings :=
  plainly Request.windowText (some "/masters") (some Endpoint.nearby.baseUrl)

theorem ofText_window : Request.decoder.ofText Request.windowText = .ok Request.window := by
  rfl

theorem asks_window : Asks (some Request.windowText) Request.window :=
  .request (by decide) ofText_window

theorem fetches_nearby : ∃ call, Fetches nearby (.ok call) := by
  have parsed : Url.parse ((Endpoint.ofBase Endpoint.nearby.baseUrl).url "/masters") =
      .ok ⟨some "http", "127.0.0.1:8080".toList, "/api/masters".toList, none⟩ := rfl
  have service : Call.isSecure ⟨some "http", "127.0.0.1:8080".toList, "/api/masters".toList,
      none⟩ = .ok false := if_pos (by decide +kernel)
  exact ⟨_, .intro asks_window rfl rfl rfl (Endpoint.call_of_parameters rfl parsed service)⟩

/-- The parameters of a request are printed when there is no base URL. When there is one, and it is
blank, this is told only once the input has been read. When there is a service, its listing is
printed; if it answers with another status or not at all, this is told. An argument that is no text
is told of nowhere. -/
theorem run_leaves_window :
    Json.ofText (run (plainly Request.windowText none none) silent).2.output =
        .ok (.object [("nested", .string "author,tags\x7b\x7b\"limit\":5\x7d\x7d"),
          ("skip", .string "0"), ("where", .string "\x7b\"age\":\x7b\"$gte\":18\x7d\x7d")]) ∧
      run (plainly "\x7b" none (some " ")) silent = (none, failure (.input .malformed)) ∧
      run (plainly Request.windowText none (some " ")) silent =
        (none, failure (.fetch (.settings .baseUrlMissing))) ∧
      (∃ call, run nearby (steady 200 "\x7b\"payload\":[]\x7d") =
        (some call, ⟨0, "\x7b\n  \"payload\": []\n\x7d\n", ""⟩)) ∧
      (run nearby (steady 404 "no such list")).2 =
        ⟨1, "", "nestq-fetch: transport error: unexpected status 404 Not Found: no such list\n"⟩ ∧
      (run nearby silent).2 =
        ⟨1, "", "nestq-fetch: transport error: http error: io: Connection refused\n"⟩ ∧
      run (plainly Request.windowText none (some Endpoint.nearby.baseUrl)) silent =
        (none, .panic) := by
  have statusTold : failure (.fetch (.transport (.status ⟨404⟩ "no such list"))) =
      ⟨1, "", "nestq-fetch: transport error: unexpected status 404 Not Found: no such list\n"⟩ := by
    decide +kernel
  have connectionTold :
      failure (.fetch (.transport (.http (.connection "io: Connection refused")))) =
        ⟨1, "", "nestq-fetch: transport error: http error: io: Connection refused\n"⟩ := by
    decide +kernel
  obtain ⟨call, fetches⟩ := fetches_nearby
  obtain ⟨_, _, _, _, _, unset, _⟩ := run_leaves (plainly Request.windowText none none) silent
  obtain ⟨_, _, _, printed⟩ := unset rfl
  obtain ⟨_, _, _, _, _, _, set⟩ := run_leaves (plainly "\x7b" none (some " ")) silent
  obtain ⟨_, _, unreadable, _⟩ := set rfl
  obtain ⟨_, _, _, _, _, _, set⟩ :=
    run_leaves (plainly Request.windowText none (some " ")) silent
  obtain ⟨_, _, _, unsettled, _⟩ := set rfl
  obtain ⟨_, _, _, _, _, _, set⟩ := run_leaves nearby (steady 200 "\x7b\"payload\":[]\x7d")
  obtain ⟨_, listed, _⟩ := set rfl
  obtain ⟨_, _, _, refused, _⟩ := run_leaves nearby (steady 404 "no such list")
  obtain ⟨_, _, _, lost, _⟩ := run_leaves nearby silent
  obtain ⟨_, _, panicked, _⟩ :=
    run_leaves (plainly Request.windowText none (some Endpoint.nearby.baseUrl)) silent
  refine ⟨(printed _ _ _ rfl (by decide) ofText_window rfl).2,
    unreadable _ (.input (by decide) rfl),
    unsettled _ _ asks_window rfl, ⟨call, ?_⟩, ?_, ?_, ?_⟩
  · exact listed call ⟨⟨200⟩, _⟩ { payload := some [] } fetches rfl (by decide) rfl
  · exact (refused _ (.status fetches rfl (by decide))).trans statusTold
  · exact (lost _ (.connection fetches rfl)).trans connectionTold
  · exact panicked ⟨⟨_, asks_window⟩, rfl, ⟨_, rfl⟩, List.mem_cons_of_mem _ List.mem_cons_self⟩

/-- An argument that is no text makes the tool fail without the code of a failure and without a word
of its own, while it tells of an input that is no text. -/
theorem run_obscure :
    run (plainly "" none (some "http://127.0.0.1:9")) silent = (none, ⟨101, "", ""⟩) ∧
      run { plainly "" none (some "http://127.0.0.1:9") with input := none } silent =
        (none, ⟨1, "", "nestq-fetch: stream did not contain valid UTF-8\n"⟩) :=
  ⟨rfl, rfl⟩

end Command

end ListQuery
