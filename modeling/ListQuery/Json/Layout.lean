/-
This file describes records as documents: an object with a member for each field
that is set, or, when reading, also an array of the fields in order. One layout
gives the decoder and the encoder of a record. A strict layout refuses members it
does not know; the others skip them.
-/

import ListQuery.Json.Decoder

namespace ListQuery

namespace Json

/-- One field of a record: what its member is read as, and what is written for it, if anything. A
field that is not required keeps the value it has in the initial record when its member is
missing. -/
structure Field (Record : Type) where
  name : String
  required : Bool
  update : Decoder (Record → Record)
  encode : Record → Option Json

namespace Field

variable {Record Value : Type}

/-- A field that may be missing or null. It is written when it is set. -/
def optional (name : String) (decoder : Decoder Value) (encode : Value → Json)
    (get : Record → Option Value) (set : Option Value → Record → Record) : Field Record where
  name := name
  required := false
  update := decoder.nullable.map set
  encode record := (get record).map encode

/-- A field with a default, which the initial record holds. It is always written. -/
def withDefault (name : String) (decoder : Decoder Value) (encode : Value → Json)
    (get : Record → Value) (set : Value → Record → Record) : Field Record where
  name := name
  required := false
  update := decoder.map set
  encode record := some (encode (get record))

/-- A field that has to be there. -/
def mandatory (name : String) (decoder : Decoder Value) (encode : Value → Json)
    (get : Record → Value) (set : Value → Record → Record) : Field Record where
  name := name
  required := true
  update := decoder.map set
  encode record := some (encode (get record))

end Field

/-- How a record is laid out as a document. The initial record holds what missing fields are taken
to be. -/
structure Layout (Record : Type) where
  name : String
  strict : Bool
  initial : Record
  fields : List (Field Record)

namespace Layout

variable {Record : Type}

/-! ### Members -/

/-- The field that a member belongs to; none for a member to be skipped. A field that was given
before is not taken again. -/
def fieldOf (layout : Layout Record) (given : List String) (name : String) :
    Except Fault (Option (Field Record)) :=
  match Keyed.find? Field.name name layout.fields with
  | none =>
    if layout.strict then .error (.unknownField name (layout.fields.map Field.name)) else .ok none
  | some field => if given.contains name then .error (.duplicateField name) else .ok (some field)

/-- The record that an object amounts to, when no required field is missing. -/
def ofMembers (layout : Layout Record) (given : List String) (record : Record) :
    Except Fault Record :=
  match layout.fields.find? fun field => field.required && !given.contains field.name with
  | some field => .error (.missingField field.name)
  | none => .ok record

/-- Takes one member of an object into the record. -/
def takeMember (layout : Layout Record) (state : Record × List String) (member : String × Json) :
    Except Fault (Record × List String) := do
  match ← layout.fieldOf state.2 member.1 with
  | none => return state
  | some field => return ((← field.update.ofJson member.2) state.1, member.1 :: state.2)

/-- Takes one member of an object straight from text. The name alone decides whether the member is
refused. -/
def readMember (layout : Layout Record) (depth : Nat) (state : Record × List String)
    (text : List Char) : Except Fault ((Record × List String) × List Char) := do
  let (name, rest) ← readName text
  match ← layout.fieldOf state.2 name with
  | none =>
    let rest ← readColon rest
    let rest ← skip rest
    return (state, rest)
  | some field =>
    let rest ← readColon rest
    let (change, rest) ← field.update.read depth rest
    return ((change state.1, name :: state.2), rest)

/-! ### Elements -/

/-- The record that an array amounts to, when the fields without an element are not required. -/
def ofElements (layout : Layout Record) (left : List (Field Record)) (record : Record) :
    Except Fault Record :=
  match left.findIdx? Field.required with
  | some index =>
    let count := layout.fields.length
    .error (.wrongLength (count - left.length + index) (.elements layout.name count))
  | none => .ok record

/-- Takes the elements of an array of `length` elements into the record, one for each field. -/
def takeElements (layout : Layout Record) (length : Nat) :
    List (Field Record) → Record → List Json → Except Fault Record
  | left, record, [] => layout.ofElements left record
  | [], _, _ :: _ => .error (.wrongLength length .fewerElements)
  | field :: left, record, item :: rest => do
    let change ← field.update.ofJson item
    layout.takeElements length left (change record) rest

/-- Takes one element of an array straight from text. -/
def readElement (depth : Nat) (state : Record × List (Field Record)) (text : List Char) :
    Except Fault ((Record × List (Field Record)) × List Char) :=
  match state.2 with
  | [] => .error .malformed
  | field :: left => do
    let (change, rest) ← field.update.read depth text
    return ((change state.1, left), rest)

/-! ### Records -/

/-- The decoder of a record. -/
def decoder (layout : Layout Record) : Decoder Record where
  ofJson
    | .object members => do
      let (record, given) ← members.foldlM layout.takeMember (layout.initial, [])
      layout.ofMembers given record
    | .array items => layout.takeElements items.length layout.fields layout.initial items
    | document => .error (Decoder.unexpected (.record layout.name) document)
  read depth text :=
    match depth, dropBlanks text with
    | 0, '\x7b' :: _ => .error .malformed
    | 0, '[' :: _ => .error .malformed
    | depth + 1, '\x7b' :: rest => do
      let ((record, given), rest) ←
        foldElements '\x7d' (layout.readMember depth) (layout.initial, []) rest
      return (← layout.ofMembers given record, rest)
    | depth + 1, '[' :: rest => do
      let ((record, left), rest) ←
        foldElements ']' (readElement depth) (layout.initial, layout.fields) rest
      return (← layout.ofElements left record, rest)
    | _, text => .error (Decoder.mismatch (.record layout.name) text)

/-- The document of a record: a member for each field that is written, in order. -/
def encode (layout : Layout Record) (record : Record) : Json :=
  .object (layout.fields.filterMap fun field =>
    (field.encode record).map fun value => (field.name, value))

end Layout

end Json

end ListQuery
