/-
This file names what can go wrong when a document is read: the text is not JSON,
or a value is not what its place asks for. Every fault has one message.
-/

import ListQuery.Json.Basic
import ListQuery.Text.Location
import ListQuery.Text.Shown

namespace ListQuery

namespace Json

/-- What was found where something else was expected. -/
inductive Found where
  | null
  | boolean (flag : Bool)
  | number (number : Number)
  | string (text : String)
  | sequence
  | map
deriving DecidableEq

namespace Found

/-- What a document is found to be. -/
def ofJson : Json → Found
  | .null => .null
  | .boolean flag => .boolean flag
  | .number value => .number value
  | .string text => .string text
  | .array _ => .sequence
  | .object _ => .map

/-- How a message names what was found. -/
def message : Found → String
  | .null => "null"
  | .boolean flag => s!"boolean `{flag}`"
  | .number (.integer value _) => s!"integer `{String.ofList (Digits.ofInt value)}`"
  | .number (.double value) => s!"floating point `{String.ofList (Number.doubleText value)}`"
  | .string text => s!"string {Text.shown text}"
  | .sequence => "sequence"
  | .map => "map"

end Found

/-- What a place asks for. -/
inductive Expected where
  /-- A record of the given name. -/
  | record (name : String)
  /-- A record of the given name, as an array of so many elements. -/
  | elements (name : String) (count : Nat)
  /-- An array that is no longer than the record it stands for. -/
  | fewerElements
  /-- An unsigned integer of 64 bits. -/
  | word
  /-- An unsigned integer of 8 bits. -/
  | byte
  | string
  | sequence
  | map
  /-- The name of a variant, or an object that has it as its only key. -/
  | variant
  /-- An object with one key. -/
  | singleKeyMap
  /-- The value null, as the payload of a variant without one. -/
  | unit
deriving DecidableEq

namespace Expected

/-- How a message names what is expected. -/
def message : Expected → String
  | .record name => s!"struct {name}"
  | .elements name count => s!"struct {name} with {count} elements"
  | .fewerElements => "fewer elements in array"
  | .word => "u64"
  | .byte => "u8"
  | .string => "a string"
  | .sequence => "a sequence"
  | .map => "a map"
  | .variant => "string or map"
  | .singleKeyMap => "map with a single key"
  | .unit => "unit"

end Expected

/-- Why a document could not be read. -/
inductive Fault where
  /-- The text is not JSON, or it nests too deep, or one of its numbers is too large. -/
  | malformed
  | wrongType (found : Found) (expected : Expected)
  | wrongValue (found : Found) (expected : Expected)
  | wrongLength (length : Nat) (expected : Expected)
  | unknownField (name : String) (known : List String)
  | duplicateField (name : String)
  | missingField (name : String)
  | unknownVariant (name : String) (known : List String)
  /-- The document is JSON, and the reader of its contents refused it for a reason of its own, which
  may be about a location. -/
  | refused (reason : String) (location : Option Location)
deriving DecidableEq

namespace Fault

/-- A choice between names. -/
def oneOf : List String → String
  | [only] => s!"`{only}`"
  | [first, second] => s!"`{first}` or `{second}`"
  | names => "one of " ++ ", ".intercalate (names.map fun name => s!"`{name}`")

/-- The message of a fault. -/
def message : Fault → String
  | .malformed => "malformed JSON"
  | .wrongType found expected => s!"invalid type: {found.message}, expected {expected.message}"
  | .wrongValue found expected => s!"invalid value: {found.message}, expected {expected.message}"
  | .wrongLength length expected => s!"invalid length {length}, expected {expected.message}"
  | .unknownField name known => s!"unknown field `{name}`, expected {oneOf known}"
  | .duplicateField name => s!"duplicate field `{name}`"
  | .missingField name => s!"missing field `{name}`"
  | .unknownVariant name known => s!"unknown variant `{name}`, expected {oneOf known}"
  | .refused reason _ => reason

/-- The message of a fault with the location that it is about, if it has one. -/
def locatedMessage (fault : Fault) : String :=
  match fault with
  | .refused _ (some location) => fault.message ++ location.tail
  | _ => fault.message

/-- The fault of a document that was refused in the given words. -/
def ofReason (reason : String) : Fault :=
  match Location.split? reason with
  | some (reason, location) => .refused reason (some location)
  | none => .refused reason none

/-- A value that the text has to have in order to be JSON. -/
def require {Value : Type} : Option Value → Except Fault Value
  | some value => .ok value
  | none => .error .malformed

end Fault

end Json

end ListQuery
