/-
This file holds the settings of a client, which come from a document or from the
environment. From the environment the base URL is required and kept as it is
written, and the timeout has to be a decimal number that fits 64 bits.
-/

import ListQuery.Count
import ListQuery.Json.Layout
import ListQuery.Text.Space

namespace ListQuery

/-- The settings of a client. -/
structure Settings where
  baseUrl : String
  timeoutMs : Count := 30000
deriving DecidableEq

/-- What is wrong with settings. -/
inductive SettingsFault where
  | baseUrlMissing
  | timeoutMalformed (raw : String)
  /-- A fault that someone else found, in their own words. -/
  | described (reason : String)
deriving DecidableEq

namespace Settings

/-- The variable that holds the base URL. -/
def baseUrlVariable : String := "NESTQ_BASE_URL"

/-- The variable that holds the timeout. -/
def timeoutVariable : String := "NESTQ_TIMEOUT_MS"

end Settings

namespace SettingsFault

/-- The message of a fault. -/
def message : SettingsFault → String
  | .baseUrlMissing => s!"{Settings.baseUrlVariable} is not set"
  | .timeoutMalformed raw => s!"{Settings.timeoutVariable} must be a number, got `{raw}`"
  | .described reason => reason

end SettingsFault

namespace Settings

/-- Settings as a document. -/
def layout : Json.Layout Settings where
  name := "ClientConfig"
  strict := false
  initial := { baseUrl := "" }
  fields := [
    .mandatory "base_url" .string .string Settings.baseUrl
      fun baseUrl settings => { settings with baseUrl },
    .withDefault "timeout_ms" Count.decoder Count.toJson Settings.timeoutMs
      fun timeoutMs settings => { settings with timeoutMs }]

/-- The whole seconds of the timeout. -/
def timeoutSeconds (settings : Settings) : Nat :=
  settings.timeoutMs.toNat / 1000

/-- The nanoseconds of the timeout beyond its whole seconds. -/
def timeoutNanos (settings : Settings) : Nat :=
  settings.timeoutMs.toNat % 1000 * 1000000

/-! ### The environment -/

/-- The digits of a number without the plus sign that may stand before them. -/
def unsigned : List Char → List Char
  | '+' :: rest => rest
  | text => text

/-- The count that a setting stands for: decimal digits behind an optional plus sign, white space
around them aside. -/
def countOfText? (raw : String) : Option Count :=
  Count.ofDigits? (unsigned (Text.trim raw.toList))

/-- The settings in an environment, given by what its variables hold. -/
def ofEnvironment (lookup : String → Option String) : Except SettingsFault Settings := do
  match lookup baseUrlVariable with
  | none => throw .baseUrlMissing
  | some baseUrl =>
    if Text.isBlank baseUrl then throw .baseUrlMissing
    match lookup timeoutVariable with
    | none => return { baseUrl }
    | some raw =>
      match countOfText? raw with
      | some timeoutMs => return { baseUrl, timeoutMs }
      | none => throw (.timeoutMalformed raw)

end Settings

end ListQuery
